import QBRepository.AnyRepository
import QBRepository.Rx.Single

namespace QBRepository

open RxSwift

/-!
# `RxRepository` — the calls of a repository as `Single`s

Each method makes a `Single` whose subscribe handler calls the base repository and emits its result.

* `RxRepository.getAll`, … — the methods, under their names there;
* `RxCall` — a method with its arguments; `single`, `answer` — the `Single` it makes, and the call
  to the base and the event for its result;
* `Client` — a program that subscribes, also from within its observers, disposes, and does other
  things; `runRx` runs it on the `Single`s, `runBase` on the base;
* `runRx_eq` — the two do the same.
-/

variable {m : Type → Type} [Monad m] {Key Object Model Error : Type}

/-- `RxRepository` -/
structure RxRepository (m : Type → Type) (Key Object Model Error : Type) where
  base : AnyRepository m Key Object Model Error

namespace RxRepository

variable (rx : RxRepository m Key Object Model Error)

/-- `AnyRepository.rx` -/
def ofBase (base : AnyRepository m Key Object Model Error) :
    RxRepository m Key Object Model Error := ⟨base⟩

/-! ### The methods -/

/-- A call to the base, from within a subscribe handler. -/
def calling {α : Type} (call : m α) : StateT Subscription (ThreadM m) α :=
  liftM (liftM call : ThreadM m α)

/-- The methods that only read: what is read is emitted. -/
def emitSuccess {α : Type} (call : m α) : Single (ThreadM m) Error α :=
  Single.create fun single => do
    let models ← calling call
    single (.success models)

/-- The methods that switch on a `RepositoryEditResult`. -/
def emitResult {α : Type} (call : m (RepositoryEditResult Error α)) : Single (ThreadM m) Error α :=
  Single.create fun single => do
    let result ← calling call
    match result with
    | .success model => single (.success model)
    | .error error => single (.error error)

/-- The methods that look for an error. -/
def emitError (call : m (Option Error)) : Single (ThreadM m) Error Unit :=
  Single.create fun single => do
    if let some error ← calling call then
      single (.error error)
    else
      single (.success ())

/-- `getAll()` -/
def getAll : Single (ThreadM m) Error (List Model) :=
  emitSuccess rx.base.repository.getAll

/-- `getElement(withId:)` -/
def getElement (id : Key) : Single (ThreadM m) Error (Option Model) :=
  emitSuccess (rx.base.repository.getElement id)

/-- `getElements(filteredBy:sortedBy:)` -/
def getElements (filter : Option (Query Object Model))
    (sortMode : Option (ComparableKeyPath Model)) : Single (ThreadM m) Error (List Model) :=
  emitSuccess (rx.base.repository.getElements filter sortMode none)

/-- `create(_:cascading:)` -/
def create (model : Model) (_cascading : Bool) : Single (ThreadM m) Error Model :=
  emitResult (rx.base.repository.create model)

/-- `createMutiple(_:cascading:)` -/
def createMutiple (models : List Model) (_cascading : Bool) :
    Single (ThreadM m) Error (List Model) :=
  emitResult (rx.base.repository.createAll models)

/-- `update(_:cascading:)` -/
def update (model : Model) (_cascading : Bool) : Single (ThreadM m) Error Model :=
  emitResult (rx.base.repository.update model)

/-- `delete(_:cascading:)` -/
def delete (model : Model) (_cascading : Bool) : Single (ThreadM m) Error Unit :=
  emitError (rx.base.repository.delete model)

/-- `deleteMultiple(_:cascading:)` -/
def deleteMultiple (models : List Model) (_cascading : Bool) : Single (ThreadM m) Error Unit :=
  emitError (rx.base.repository.deleteList models)

/-- `deleteAll(cascading:)` -/
def deleteAll (_cascading : Bool) : Single (ThreadM m) Error Unit :=
  emitError rx.base.repository.deleteAll

end RxRepository

/-! ### The calls -/

/-- A method of `RxRepository` with its arguments, by the type of the elements of its `Single`. -/
inductive RxCall (Key Object Model : Type) : Type → Type where
  | getAll : RxCall Key Object Model (List Model)
  | getElement (id : Key) : RxCall Key Object Model (Option Model)
  | getElements (filter : Option (Query Object Model))
      (sortMode : Option (ComparableKeyPath Model)) : RxCall Key Object Model (List Model)
  | create (model : Model) (cascading : Bool) : RxCall Key Object Model Model
  | createMutiple (models : List Model) (cascading : Bool) : RxCall Key Object Model (List Model)
  | update (model : Model) (cascading : Bool) : RxCall Key Object Model Model
  | delete (model : Model) (cascading : Bool) : RxCall Key Object Model Unit
  | deleteMultiple (models : List Model) (cascading : Bool) : RxCall Key Object Model Unit
  | deleteAll (cascading : Bool) : RxCall Key Object Model Unit

/-- The event for an edit result. -/
def eventOfResult {α : Type} : RepositoryEditResult Error α → SingleEvent Error α
  | .success model => .success model
  | .error error => .error error

/-- The event for an optional error. -/
def eventOfError : Option Error → SingleEvent Error Unit
  | some error => .error error
  | none => .success ()

namespace RxCall

variable {Element : Type}

/-- The `Single` that the method makes. -/
def single (rx : RxRepository m Key Object Model Error) :
    RxCall Key Object Model Element → Single (ThreadM m) Error Element
  | .getAll => rx.getAll
  | .getElement id => rx.getElement id
  | .getElements filter sortMode => rx.getElements filter sortMode
  | .create model cascading => rx.create model cascading
  | .createMutiple models cascading => rx.createMutiple models cascading
  | .update model cascading => rx.update model cascading
  | .delete model cascading => rx.delete model cascading
  | .deleteMultiple models cascading => rx.deleteMultiple models cascading
  | .deleteAll cascading => rx.deleteAll cascading

/-- The call to the repository, and the event for its result. -/
def answer (repository : Repository m Key Object Model Error) :
    RxCall Key Object Model Element → m (SingleEvent Error Element)
  | .getAll => return .success (← repository.getAll)
  | .getElement id => return .success (← repository.getElement id)
  | .getElements filter sortMode => return .success (← repository.getElements filter sortMode none)
  | .create model _ => return eventOfResult (← repository.create model)
  | .createMutiple models _ => return eventOfResult (← repository.createAll models)
  | .update model _ => return eventOfResult (← repository.update model)
  | .delete model _ => return eventOfError (← repository.delete model)
  | .deleteMultiple models _ => return eventOfError (← repository.deleteList models)
  | .deleteAll _ => return eventOfError (← repository.deleteAll)

end RxCall

/-! ### Programs -/

/-- A program over a repository: `subscribe` subscribes to the `Single` of a call, runs
    `onEvent` in the observer, and disposes of the subscription afterwards if `disposes`. -/
inductive Client (m : Type → Type) (Key Object Model Error : Type) : Type 1 where
  | done
  | perform {α : Type} (action : m α) (next : α → Client m Key Object Model Error)
  | subscribe {Element : Type} (call : RxCall Key Object Model Element)
      (onEvent : SingleEvent Error Element → Client m Key Object Model Error) (disposes : Bool)
      (next : Client m Key Object Model Error)

namespace Client

/-- The program on the `Single`s of an `RxRepository`. -/
def runRx (rx : RxRepository m Key Object Model Error) :
    Client m Key Object Model Error → ThreadM m Unit
  | .done => return ()
  | .perform action next => do
    runRx rx (next (← (liftM action : ThreadM m _)))
  | .subscribe call onEvent disposes next => do
    let disposable ← (call.single rx).subscribe fun event => runRx rx (onEvent event)
    disposable.disposeIf disposes
    runRx rx next

/-- The program on a repository: each subscription is a call. -/
def runBase (repository : Repository m Key Object Model Error) :
    Client m Key Object Model Error → m Unit
  | .done => return ()
  | .perform action next => do
    runBase repository (next (← action))
  | .subscribe call onEvent _ next => do
    runBase repository (onEvent (← call.answer repository))
    runBase repository next

end Client

/-! ### What a program does -/

section Equivalence

variable [LawfulMonad m] (rx : RxRepository m Key Object Model Error)

namespace RxRepository

/-- A single that emits what a call returns. -/
theorem subscribe_emitSuccess {α : Type} (call : m α)
    {observer : SingleEvent Error α → ThreadM m Unit} {plain : SingleEvent Error α → m Unit}
    (hobserver : ∀ event, DoesAs (observer event) (plain event)) :
    DoesAs ((emitSuccess call).subscribe observer) (do
      plain (← (do return .success (← call)))
      return Subscription.finished) := by
  simp only [bind_assoc, pure_bind]
  exact DoesAs.subscribe_create call .success (fun single => rfl) hobserver

/-- A single that emits the result of a call that may fail. -/
theorem subscribe_emitResult {α : Type} (call : m (RepositoryEditResult Error α))
    {observer : SingleEvent Error α → ThreadM m Unit} {plain : SingleEvent Error α → m Unit}
    (hobserver : ∀ event, DoesAs (observer event) (plain event)) :
    DoesAs ((emitResult call).subscribe observer) (do
      plain (← (do return eventOfResult (← call)))
      return Subscription.finished) := by
  simp only [bind_assoc, pure_bind]
  refine DoesAs.subscribe_create call eventOfResult (fun single => ?_) hobserver
  exact bind_congr fun result => by cases result <;> rfl

/-- A single that emits the error of a call, or that it is done. -/
theorem subscribe_emitError (call : m (Option Error))
    {observer : SingleEvent Error Unit → ThreadM m Unit} {plain : SingleEvent Error Unit → m Unit}
    (hobserver : ∀ event, DoesAs (observer event) (plain event)) :
    DoesAs ((emitError call).subscribe observer) (do
      plain (← (do return eventOfError (← call)))
      return Subscription.finished) := by
  simp only [bind_assoc, pure_bind]
  refine DoesAs.subscribe_create call eventOfError (fun single => ?_) hobserver
  exact bind_congr fun error => by cases error <;> rfl

end RxRepository

/-- **One subscription** to the `Single` of a call makes its call once, hands its event on once,
    and has come to its end. -/
theorem RxCall.subscribe_single {Element : Type} (call : RxCall Key Object Model Element)
    {observer : SingleEvent Error Element → ThreadM m Unit}
    {plain : SingleEvent Error Element → m Unit}
    (hobserver : ∀ event, DoesAs (observer event) (plain event)) :
    DoesAs ((call.single rx).subscribe observer) (do
      plain (← call.answer rx.base.repository)
      return Subscription.finished) := by
  cases call with
  | getAll => exact RxRepository.subscribe_emitSuccess _ hobserver
  | getElement id => exact RxRepository.subscribe_emitSuccess _ hobserver
  | getElements filter sortMode => exact RxRepository.subscribe_emitSuccess _ hobserver
  | create model cascading => exact RxRepository.subscribe_emitResult _ hobserver
  | createMutiple models cascading => exact RxRepository.subscribe_emitResult _ hobserver
  | update model cascading => exact RxRepository.subscribe_emitResult _ hobserver
  | delete model cascading => exact RxRepository.subscribe_emitError _ hobserver
  | deleteMultiple models cascading => exact RxRepository.subscribe_emitError _ hobserver
  | deleteAll cascading => exact RxRepository.subscribe_emitError _ hobserver

/-- A program on `Single`s does what it does on the base, by induction on the program. -/
theorem Client.doesAs (client : Client m Key Object Model Error) :
    DoesAs (client.runRx rx) (client.runBase rx.base.repository) := by
  induction client with
  | done => exact DoesAs.pure ()
  | perform action next ih => exact (DoesAs.lift action).bind ih
  | subscribe call onEvent disposes next ihEvent ih =>
    have hsubscribe := call.subscribe_single rx ihEvent
    rw [← bind_assoc] at hsubscribe
    -- the subscription has come to its end, so what follows does as the rest of the program
    have hrest := (DoesAs.disposeIf_finished disposes).bind fun _ => ih
    rw [pure_bind] at hrest
    rw [runBase, ← bind_assoc]
    exact hsubscribe.bind_return hrest

/-- **The `Single`s of `RxRepository`** do to the repository, and hand to their observers, what the
    calls of the repository would, in the order in which the program subscribes: for every program,
    whatever its own effects are, there is no fatal error, and the thread is left as it was. -/
theorem Client.runRx_eq (repository : Repository m Key Object Model Error)
    (client : Client m Key Object Model Error) (thread : CurrentThread) :
    ((client.runRx (RxRepository.ofBase (AnyRepository.init repository))).run thread).run
      = (fun _ => .ok ((), thread)) <$> client.runBase repository :=
  Client.doesAs (RxRepository.ofBase (AnyRepository.init repository)) client thread

end Equivalence

namespace Sample

/-- The employees, with no faults. -/
def employeesRepository :
    Repository (StateM (FileManager (List Nat))) (AnyId Nat) Int Employee FileSystemError :=
  employees.repository (process Int.ofNat) (.merge _) (.keyFirst 0)

/-- An employee is created; the observer looks all employees up and, in the observer of that,
    deletes those it has got. -/
def hireAndFire :
    Client (StateM (FileManager (List Nat))) (AnyId Nat) Int Employee FileSystemError :=
  .subscribe (.create ⟨1, 21⟩ true)
    (fun _ => .subscribe .getAll
      (fun event =>
        match event with
        | .success found => .subscribe (.deleteMultiple found false) (fun _ => .done) false .done
        | .error _ => .done) true .done) true
    (.subscribe (.getElement (.modelId 1)) (fun _ => .done) false .done)

end Sample

/-- The program on the employees. -/
theorem runRx_employees :
    ((Sample.hireAndFire.runRx
        (RxRepository.ofBase (AnyRepository.init Sample.employeesRepository))).run ⟨true⟩).run
      = (fun _ => .ok ((), ⟨true⟩)) <$> Sample.hireAndFire.runBase Sample.employeesRepository :=
  Client.runRx_eq Sample.employeesRepository Sample.hireAndFire ⟨true⟩

end QBRepository
