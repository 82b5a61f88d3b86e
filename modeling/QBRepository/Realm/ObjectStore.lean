import QBRepository.Lib.Outcome
import QBRepository.Realm.Object

namespace QBRepository

/-!
# Adding objects to a Realm

What the repository uses of Realm's object store: looking up rows by primary key, adding an
object with everything it leads to, and write transactions.

* `Realm.createRow` — the row an object is stored in: the one with its primary key, if updates
  are allowed, or a new one;
* `addObject` — `RLMAddObjectToRealm`: an object becomes an accessor of its row, then the
  objects it leads to are added, and then the row gets its properties;
* `write` — a write transaction; beginning one inside another raises.
-/

/-- The schema of the Realm, and what is left to Swift's `Set`: whether an accessor can be
    hashed, and which element is taken out first. -/
structure RealmEnvironment (Scalar : Type) where
  primaryKey : String → Option String
  hash : Realm Scalar → Ref → Bool
  pick : Nat → Nat

/-- No class has a primary key, every object can be hashed, and sets start at their front. -/
def unkeyed : RealmEnvironment Nat := ⟨fun _ => none, fun _ _ => true, fun _ => 0⟩

variable {Scalar ρ σ : Type}

namespace Record

/-- The primary key of a record: its class and the value of the key property, unless this is
    nil. -/
def key (primaryKey : String → Option String) (record : Record Scalar ρ) :
    Option (String × Scalar) :=
  match primaryKey record.className with
  | none => none
  | some name =>
    match record.properties.lookup name with
    | some (.scalar value) => some (record.className, value)
    | some (.object _) | some (.list _) | none => none

/-- Replacing or dropping targets keeps the primary key. -/
@[simp] theorem key_filterMap (primaryKey : String → Option String) (f : ρ → Option σ)
    (record : Record Scalar ρ) : (record.filterMap f).key primaryKey = record.key primaryKey := by
  have hlookup : ∀ (properties : List (String × Value Scalar ρ)) (name : String),
      (properties.map fun p => (p.1, p.2.filterMap f)).lookup name
        = (properties.lookup name).map (Value.filterMap f) := by
    intro properties name
    induction properties with
    | nil => rfl
    | cons p properties ih =>
      rw [List.map_cons, List.lookup_cons, List.lookup_cons]
      cases name == p.1 with
      | true => rfl
      | false => exact ih
  rw [key, key, className_filterMap]
  cases primaryKey record.className with
  | none => rfl
  | some name =>
    simp only [filterMap, hlookup]
    cases record.properties.lookup name with
    | none => rfl
    | some value => cases value <;> rfl

@[simp] theorem key_map (primaryKey : String → Option String) (f : ρ → σ)
    (record : Record Scalar ρ) : (record.map f).key primaryKey = record.key primaryKey :=
  key_filterMap primaryKey _ record

end Record

variable [DecidableEq Scalar]

namespace Realm

variable (env : RealmEnvironment Scalar) (s : Realm Scalar)

/-- The class of an object. -/
def className (r : Ref) : Option String :=
  match s.object r with
  | some (.unmanaged record) => some record.className
  | some (.managed className _) => some className
  | none => none

/-- The row behind an accessor. -/
def rowOf (r : Ref) : Option RowId :=
  match s.object r with
  | some (.managed _ row) => some row
  | some (.unmanaged _) | none => none

/-- The reference is an accessor. -/
def Managed (r : Ref) : Prop := ∃ row, s.rowOf r = some row

omit [DecidableEq Scalar] in
variable {s} in
/-- A managed object is an accessor. -/
theorem Managed.object {r : Ref} (h : s.Managed r) :
    ∃ className row, s.object r = some (.managed className row) := by
  obtain ⟨row, hrow⟩ := h
  rw [rowOf] at hrow
  split at hrow
  next className row' hobject => exact ⟨className, row', hobject⟩
  next => cases hrow
  next => cases hrow

/-- The row with a primary key. -/
def find (key : String × Scalar) : Option RowId :=
  s.rows.keys.find? fun row =>
    match s.rows.get row with
    | some record => decide (record.key env.primaryKey = some key)
    | none => false

/-- The row an object is stored in. -/
def createRow (update : Bool) (record : Record Scalar Ref) : Outcome (RowId × Realm Scalar) :=
  match (record.key env.primaryKey).bind (s.find env) with
  | some row => if update then .returns (row, s) else .raises
  | none =>
    .returns (s.rows.next, { s with rows := s.rows.alloc (record.filterMap fun _ => none) })

/-- An unmanaged object becomes the accessor of its row. -/
def promote (r : Ref) (className : String) (row : RowId) : Realm Scalar :=
  { s with heap := s.heap.promote r className row }

/-- Set the properties of a row; the objects they lead to have rows by now. -/
def setProperties (row : RowId) (record : Record Scalar Ref) : Realm Scalar :=
  { s with rows := s.rows.update row fun _ => some (record.filterMap s.rowOf) }

end Realm

variable (env : RealmEnvironment Scalar)

/-- `RLMAddObjectToRealm`: adding an accessor is a no-op, and an invalidated one raises. -/
def addObject (update : Bool) : Nat → Ref → Realm Scalar → Outcome (Realm Scalar)
  | 0, _, _ => .diverges
  | fuel + 1, r, s =>
    if s.isInvalidated r then .raises
    else
      match s.object r with
      | some (.managed _ _) | none => .returns s
      | some (.unmanaged record) => do
        let (row, s) ← s.createRow env update record
        let s ← Outcome.forEach (addObject update fuel) record.targets
          (s.promote r record.className row)
        return s.setProperties row record

/-- `Realm.add(_:update:)` -/
def add (fuel : Nat) (object : Ref) (update : Bool) (s : Realm Scalar) : Outcome (Realm Scalar) :=
  if update && ((s.className object).bind env.primaryKey).isNone then .raises
  else addObject env update fuel object s

/-- `Realm.write(_:)` -/
def write (block : Realm Scalar → Outcome (Realm Scalar)) (s : Realm Scalar) :
    Outcome (Realm Scalar) :=
  if s.inWriteTransaction then .raises
  else do
    let s ← block { s with inWriteTransaction := true }
    return { s with inWriteTransaction := false }

omit [DecidableEq Scalar] in
/-- A write transaction inside another one raises. -/
theorem write_eq_raises {block : Realm Scalar → Outcome (Realm Scalar)} {s : Realm Scalar}
    (h : s.inWriteTransaction = true) : write block s = .raises := if_pos h

omit [DecidableEq Scalar] in
/-- If a write transaction returns, it has not been nested, and its block has returned. -/
theorem of_write_eq_returns {block : Realm Scalar → Outcome (Realm Scalar)} {s s' : Realm Scalar}
    (h : write block s = .returns s') : s.inWriteTransaction = false ∧
      ∃ t, block { s with inWriteTransaction := true } = .returns t ∧
        s' = { t with inWriteTransaction := false } := by
  cases hidle : s.inWriteTransaction with
  | true =>
    rw [write_eq_raises hidle] at h
    cases h
  | false =>
    rw [write, hidle, if_neg Bool.false_ne_true] at h
    obtain ⟨t, hblock, hcommit⟩ := Outcome.bind_eq_returns.mp h
    exact ⟨rfl, t, hblock, (Outcome.returns.inj hcommit).symm⟩

omit [DecidableEq Scalar] in
/-- A write transaction returns if its block does. -/
theorem write_converges {block : Nat → Realm Scalar → Outcome (Realm Scalar)}
    {s s' : Realm Scalar} (hidle : s.inWriteTransaction = false)
    (h : Outcome.Converges (fun fuel => block fuel { s with inWriteTransaction := true }) s') :
    Outcome.Converges (fun fuel => write (block fuel) s)
      { s' with inWriteTransaction := false } := by
  obtain ⟨n, hn⟩ := h
  refine ⟨n, fun fuel hfuel => ?_⟩
  have hblock : block fuel { s with inWriteTransaction := true } = .returns s' := hn fuel hfuel
  show write (block fuel) s = _
  rw [write, hidle, if_neg Bool.false_ne_true, hblock]
  rfl

end QBRepository
