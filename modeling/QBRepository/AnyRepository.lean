import QBRepository.FileSystem.Elements

namespace QBRepository

/-!
# `Repository` and `AnyRepository`

The protocol, with the effects `m` its calls have, and the repository that erases which one it is by
keeping the calls as closures.  `AnyRepository` conforms to the protocol itself.

* `Repository` — the requirements of the protocol; `createAll` and `deleteList` are the overloads of
  `create(_:)` and `delete(_:)` for lists;
* `AnyRepository` — the closures, `AnyRepository.init` — how they are made;
* `FileSystemRepository.repository` — a directory as a repository.
-/

/-- `protocol Repository`; `Key` is what may be passed as `withId:`. -/
structure Repository (m : Type → Type) (Key Object Model Error : Type) where
  getAll : m (List Model)
  getElement : Key → m (Option Model)
  getElements : Option (Query Object Model) → Option (ComparableKeyPath Model) →
    Option (HashableKeyPath Model) → m (List Model)
  create : Model → m (RepositoryEditResult Error Model)
  createAll : List Model → m (RepositoryEditResult Error (List Model))
  update : Model → m (RepositoryEditResult Error Model)
  delete : Model → m (Option Error)
  deleteList : List Model → m (Option Error)
  deleteAll : m (Option Error)
  performTranscation : m Unit → m (Option Error)

/-- `AnyRepository` -/
structure AnyRepository (m : Type → Type) (Key Object Model Error : Type) where
  _getAll : Unit → m (List Model)
  _getElement : Key → m (Option Model)
  _getElements : Option (Query Object Model) → Option (ComparableKeyPath Model) →
    Option (HashableKeyPath Model) → m (List Model)
  _create : Model → m (RepositoryEditResult Error Model)
  _createMultiple : List Model → m (RepositoryEditResult Error (List Model))
  _update : Model → m (RepositoryEditResult Error Model)
  _delete : Model → m (Option Error)
  _deleteMultiple : List Model → m (Option Error)
  _deleteAll : Unit → m (Option Error)
  _performTranscation : m Unit → m (Option Error)

namespace AnyRepository

variable {m : Type → Type} {Key Object Model Error : Type}

/-- `init(_:)` -/
def init (repository : Repository m Key Object Model Error) :
    AnyRepository m Key Object Model Error where
  _getAll _ := repository.getAll
  _getElement := repository.getElement
  _getElements := repository.getElements
  _create := repository.create
  _createMultiple := repository.createAll
  _update := repository.update
  _delete := repository.delete
  _deleteMultiple := repository.deleteList
  _deleteAll _ := repository.deleteAll
  _performTranscation := repository.performTranscation

/-- The methods of `AnyRepository`, each of which calls its closure. -/
def repository (any : AnyRepository m Key Object Model Error) :
    Repository m Key Object Model Error where
  getAll := any._getAll ()
  getElement id := any._getElement id
  getElements filter sortMode distinctMode := any._getElements filter sortMode distinctMode
  create model := any._create model
  createAll models := any._createMultiple models
  update model := any._update model
  delete model := any._delete model
  deleteList models := any._deleteMultiple models
  deleteAll := any._deleteAll ()
  performTranscation transaction := any._performTranscation transaction

end AnyRepository

/-- A directory as a repository, within one execution of the program. -/
def FileSystemRepository.repository {Id Object Model Data : Type} [IdentifiableCodable Model Id]
    (repo : FileSystemRepository Model Data) (env : Environment Id) (sorting : Sorting Model)
    (order : Enumeration (Int × List Model)) :
    Repository (StateM (FileManager Data)) (AnyId Id) Object Model FileSystemError where
  getAll := repo.getAll env
  getElement anyId := do return repo.getElement env anyId (← get)
  getElements := repo.getElements env sorting order
  create := repo.create env
  createAll := repo.createAll env
  update := repo.update env
  delete := repo.delete env
  deleteList := repo.deleteList env
  deleteAll := repo.deleteAll env
  performTranscation := performTranscation

end QBRepository
