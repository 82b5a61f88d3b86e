import QBRepository.Realm.ObjectStore

namespace QBRepository

/-!
# Cascading deletion

The worklist algorithms of `Realm+Cascade.swift`, over a `Set` of accessors from which
`removeFirst` takes any element.

* `ToBeDeleted.insert`, `ToBeDeleted.removeFirst` — the set, as a list without equal elements;
* `resolve` — collect what an element leads to, and then delete it;
* `cascadeStep`, `cascadeLoop` — the loop; accessors of deleted rows are skipped;
* `cascadeDelete`, `cascadeDeleteSubtypes`, `deleteCascading`, `addCascading` — the extension.
-/

variable {Scalar : Type} [DecidableEq Scalar]

namespace Realm

variable (env : RealmEnvironment Scalar) (s : Realm Scalar)

/-- `isEqual`: identity, or accessors of one row if the class has a primary key. -/
def isEqual (a b : Ref) : Bool :=
  a == b ||
    match s.object a, s.object b with
    | some (.managed className row), some (.managed _ row') =>
      (env.primaryKey className).isSome && row == row' && (s.rows.get row).isSome
    | _, _ => false

/-- `element.realm?.delete(element)`: an unmanaged object has no Realm. -/
def deleteMain (element : Ref) : Realm Scalar :=
  match s.object element with
  | some (.managed _ row) => s.deleteRow row
  | some (.unmanaged _) | none => s

end Realm

variable (env : RealmEnvironment Scalar)

/-- `Set.insert`, which hashes the element. -/
def ToBeDeleted.insert (s : Realm Scalar) (element : Ref) (toBeDeleted : List Ref) :
    Outcome (List Ref) :=
  if env.hash s element then
    .returns (if toBeDeleted.any (s.isEqual env · element) then toBeDeleted
      else toBeDeleted ++ [element])
  else .raises

/-- `Set.removeFirst`, for some order of the set. -/
def ToBeDeleted.removeFirst (pick : Nat) (toBeDeleted : List Ref) : Option (Ref × List Ref) :=
  toBeDeleted[pick % toBeDeleted.length]?.map fun element =>
    (element, toBeDeleted.eraseIdx (pick % toBeDeleted.length))

/-- Insert what the element leads to, then delete it if asked to.  Reading the properties of
    an invalidated object raises. -/
def resolve (element : Ref) (deleteMainItem : Bool) (s : Realm Scalar)
    (toBeDeleted : List Ref) : Outcome (Realm Scalar × List Ref) :=
  if s.isInvalidated element then .raises
  else do
    let (values, s) := s.links element
    let toBeDeleted ← Outcome.forEach (ToBeDeleted.insert env s) values toBeDeleted
    return (if deleteMainItem then s.deleteMain element else s, toBeDeleted)

/-- One iteration of the loop, which ends when nothing is to be deleted. -/
def cascadeStep : Realm Scalar × List Ref → Outcome (Option (Realm Scalar × List Ref))
  | (s, toBeDeleted) =>
    match ToBeDeleted.removeFirst (env.pick s.picks) toBeDeleted with
    | none => .returns none
    | some (element, toBeDeleted) =>
      if s.isInvalidated element then
        .returns (some ({ s with picks := s.picks + 1 }, toBeDeleted))
      else do
        return some (← resolve env element true { s with picks := s.picks + 1 } toBeDeleted)

/-- `while !toBeDeleted.isEmpty` -/
def cascadeLoop (fuel : Nat) (state : Realm Scalar × List Ref) :
    Outcome (Realm Scalar × List Ref) :=
  Outcome.loop (cascadeStep env) fuel state

def cascadeDelete (fuel : Nat) (entity : Ref) (s : Realm Scalar) : Outcome (Realm Scalar) := do
  let toBeDeleted ← ToBeDeleted.insert env s entity []
  let (s, _) ← cascadeLoop env fuel (s, toBeDeleted)
  return s

def cascadeDeleteSubtypes (fuel : Nat) (entity : Ref) (s : Realm Scalar) :
    Outcome (Realm Scalar) := do
  let state ← resolve env entity false s []
  let (s, _) ← cascadeLoop env fuel state
  return s

/-- `delete(_:cascade: true)` for a sequence of objects. -/
def deleteCascading (fuel : Nat) (objects : List Ref) (s : Realm Scalar) :
    Outcome (Realm Scalar) :=
  Outcome.forEach (cascadeDelete env fuel) objects s

/-- `delete(_:cascade: true)` for a snapshot of `Results`: its elements are read one after
    another as new accessors, also those deleted meanwhile. -/
def deleteResultsCascading (fuel : Nat) (className : String) (rows : List RowId)
    (s : Realm Scalar) : Outcome (Realm Scalar) :=
  Outcome.forEach (fun row s =>
    let (r, s) := s.accessorOf className row
    cascadeDelete env fuel r s) rows s

/-- `add(_:cascade: true, update:)` for one object. -/
def addEntityCascading (fuel : Nat) (update : Bool) (entity : Ref) (s : Realm Scalar) :
    Outcome (Realm Scalar) := do
  let s ← cascadeDeleteSubtypes env fuel entity s
  add env fuel entity update s

/-- `add(_:cascade: true, update:)` for a sequence of objects. -/
def addCascading (fuel : Nat) (update : Bool) (objects : List Ref) (s : Realm Scalar) :
    Outcome (Realm Scalar) :=
  Outcome.forEach (addEntityCascading env fuel update) objects s

end QBRepository
