import QBRepository.Realm.Cascade
import QBRepository.RepositoryEditResult

namespace QBRepository

/-!
# `RealmRepository`

The repository over the objects of one class of a Realm.  Every call runs in a write
transaction of its own.
-/

/-- The error of the repository itself. -/
inductive RealmError where
  | noOriginalObject
deriving DecidableEq

/-- A repository for the objects of a class. -/
structure RealmRepository where
  className : String

namespace RealmRepository

variable {Scalar : Type} [DecidableEq Scalar]
variable (repo : RealmRepository) (env : RealmEnvironment Scalar) (fuel : Nat)

def isIdentifiable : Bool := (env.primaryKey repo.className).isSome

/-- The rows behind `realm.objects(Model.self)`. -/
def objects (s : Realm Scalar) : List RowId :=
  s.order.arrange (s.rows.keys.filter fun row =>
    match s.rows.get row with
    | some record => record.className == repo.className
    | none => false)

/-- The collection is live: this is what is read of it in `s`. -/
def getAll (s : Realm Scalar) : List Ref × Realm Scalar := s.accessors (repo.objects s)

/-- A class without a primary key cannot be asked for one. -/
def getElement (id : Scalar) (s : Realm Scalar) : Outcome (Option Ref × Realm Scalar) :=
  if repo.isIdentifiable env then
    match s.find env (repo.className, id) with
    | some row => .returns (some (s.accessor row).1, (s.accessor row).2)
    | none => .returns (none, s)
  else .raises

def create (model : Ref) (s : Realm Scalar) :
    Outcome (RepositoryEditResult RealmError Ref × Realm Scalar) := do
  let s ← write (addEntityCascading env fuel (repo.isIdentifiable env) model) s
  return (.success model, s)

def createAll (models : List Ref) (s : Realm Scalar) :
    Outcome (RepositoryEditResult RealmError (List Ref) × Realm Scalar) := do
  let s ← write (addCascading env fuel (repo.isIdentifiable env) models) s
  return (.success models, s)

/-- The primary key of a model, read from its properties. -/
def idOf (model : Ref) (s : Realm Scalar) : Option Scalar :=
  match s.record (s.vertexOf model) with
  | some record => (record.key env.primaryKey).map Prod.snd
  | none => none

/-- The guard asks that no object has the key of the model.  Reading the key of an invalidated
    model raises. -/
def update (model : Ref) (s : Realm Scalar) :
    Outcome (RepositoryEditResult RealmError Ref × Realm Scalar) :=
  if !repo.isIdentifiable env then .returns (.error .noOriginalObject, s)
  else if s.isInvalidated model then .raises
  else
    match idOf env model s with
    | none => .returns (.error .noOriginalObject, s)
    | some id =>
      if (s.find env (repo.className, id)).isNone then do
        let s ← write (addEntityCascading env fuel (repo.isIdentifiable env) model) s
        return (.success model, s)
      else .returns (.error .noOriginalObject, s)

def delete (model : Ref) (s : Realm Scalar) : Outcome (Option RealmError × Realm Scalar) := do
  let s ← write (cascadeDelete env fuel model) s
  return (none, s)

def deleteList (models : List Ref) (s : Realm Scalar) :
    Outcome (Option RealmError × Realm Scalar) := do
  let s ← write (deleteCascading env fuel models) s
  return (none, s)

def deleteAll (s : Realm Scalar) : Outcome (Option RealmError × Realm Scalar) := do
  let s ← write (deleteResultsCascading env fuel repo.className (repo.objects s)) s
  return (none, s)

def performTranscation (transaction : Realm Scalar → Outcome (Realm Scalar)) (s : Realm Scalar) :
    Outcome (Option RealmError × Realm Scalar) := do
  let s ← write transaction s
  return (none, s)

end RealmRepository

end QBRepository
