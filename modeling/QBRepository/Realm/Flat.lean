import QBRepository.Realm.Batches
import QBRepository.Realm.Identity

namespace QBRepository

/-!
# Objects without links

For an object that leads to nothing the cascades come to their end at once, whatever the order of
the sets is: what a call does to it can be said exactly.

* `Record.detach` — the values of a record, without links;
* `Realm.IsFlat` — an object that leads to nothing;
* `cascadeDeleteSubtypes_flat`, `cascadeDelete_flat`, `addObject_flat` — what the calls do to it;
* `AddedFlat` — the row it has got, and what is as before.
-/

variable {Scalar ρ σ : Type}

/-- The values of a record, without its links. -/
def Record.detach (record : Record Scalar ρ) : Record Scalar Empty :=
  record.filterMap fun _ => none

@[simp] theorem Record.detach_filterMap (f : ρ → Option σ) (record : Record Scalar ρ) :
    (record.filterMap f).detach = record.detach := by
  unfold detach
  rw [filterMap_filterMap]
  exact filterMap_congr fun t _ => by cases f t <;> rfl

variable {env : RealmEnvironment Scalar} {s : Realm Scalar} {r : Ref}

/-- The object leads to no other. -/
def Realm.IsFlat (s : Realm Scalar) (r : Ref) : Prop := s.targets (s.vertexOf r) = []

/-- It is read without reading others. -/
theorem Realm.links_flat (h : s.IsFlat r) : s.links r = ([], s) := by
  unfold IsFlat targets vertexOf at h
  rw [links]
  cases hobject : s.object r with
  | none => rfl
  | some object =>
    rw [hobject] at h
    cases object with
    | unmanaged record =>
      simp only [Realm.record, hobject, Record.targets_map, List.map_eq_nil_iff] at h
      show (record.targets, s) = ([], s)
      rw [h]
    | managed className row =>
      cases hrow : s.rows.get row with
      | none => simp only [hrow]
      | some record =>
        simp only [Realm.record, hrow, Option.map_some, Record.targets_map,
          List.map_eq_nil_iff] at h
        simp only [hrow, h]
        rfl

/-! ### Reading and deleting -/

/-- Resolving an object without links inserts nothing. -/
theorem resolve_flat (hvalid : s.isInvalidated r = false) (hflat : s.IsFlat r)
    (deleteMainItem : Bool) (toBeDeleted : List Ref) :
    resolve env r deleteMainItem s toBeDeleted
      = .returns (if deleteMainItem then s.deleteMain r else s, toBeDeleted) := by
  rw [resolve, hvalid, if_neg Bool.false_ne_true, s.links_flat hflat]
  rfl

/-- Nothing is left to be deleted. -/
theorem cascadeLoop_nil (fuel : Nat) (s : Realm Scalar) :
    cascadeLoop env (fuel + 1) (s, []) = .returns (s, []) :=
  Outcome.loop_of_none rfl fuel

/-- There is nothing to delete below an object without links. -/
theorem cascadeDeleteSubtypes_flat (hvalid : s.isInvalidated r = false)
    (hflat : s.IsFlat r) (fuel : Nat) :
    cascadeDeleteSubtypes env (fuel + 1) r s = .returns s := by
  rw [cascadeDeleteSubtypes, resolve_flat hvalid hflat, Outcome.returns_bind]
  show (cascadeLoop env (fuel + 1) (s, []) >>= _) = _
  rw [cascadeLoop_nil, Outcome.returns_bind]
  rfl

/-- An accessor of a deleted row has no links to read. -/
theorem cascadeDeleteSubtypes_invalidated (hinvalid : s.isInvalidated r = true) (fuel : Nat) :
    cascadeDeleteSubtypes env fuel r s = .raises := by
  rw [cascadeDeleteSubtypes, resolve, hinvalid, if_pos rfl, Outcome.raises_bind]

/-- One element is taken, and deleted alone. -/
theorem cascadeDelete_flat (hhash : env.hash s r = true) (hvalid : s.isInvalidated r = false)
    (hflat : s.IsFlat r) (fuel : Nat) :
    cascadeDelete env (fuel + 2) r s = .returns ({ s with picks := s.picks + 1 }.deleteMain r) := by
  have hvalid' : { s with picks := s.picks + 1 }.isInvalidated r = false := hvalid
  have hflat' : { s with picks := s.picks + 1 }.IsFlat r := hflat
  have hfirst : ToBeDeleted.removeFirst (env.pick s.picks) [r] = some (r, []) := by
    unfold ToBeDeleted.removeFirst
    simp [Nat.mod_one]
  have hstep : cascadeStep env (s, [r])
      = .returns (some ({ s with picks := s.picks + 1 }.deleteMain r, [])) := by
    rw [cascadeStep_of_removeFirst hfirst, hvalid, if_neg Bool.false_ne_true,
      resolve_flat hvalid' hflat', Outcome.returns_bind]
    rfl
  rw [cascadeDelete, ToBeDeleted.insert, hhash, if_pos rfl, Outcome.returns_bind]
  show (cascadeLoop env (fuel + 2) (s, [r]) >>= _) = _
  rw [cascadeLoop, Outcome.loop_of_some hstep, ← cascadeLoop, cascadeLoop_nil, Outcome.returns_bind]
  rfl

/-- What cannot be hashed cannot be deleted. -/
theorem cascadeDelete_unhashed (hhash : env.hash s r = false) (fuel : Nat) :
    cascadeDelete env fuel r s = .raises := by
  rw [cascadeDelete, ToBeDeleted.insert, hhash]
  rfl

/-- The other rows lose their links to a deleted one. -/
theorem Realm.get_deleteRow_of_ne {row k : RowId} (hk : k ≠ row) :
    (s.deleteRow row).rows.get k = (s.rows.get k).map fun record =>
      record.filterMap fun t => if t = row then none else some t := by
  show (s.rows.get k).bind _ = _
  cases s.rows.get k with
  | none => rfl
  | some record => simp [hk]

/-- A deleted row is gone. -/
theorem Realm.get_deleteRow_self {row : RowId} : (s.deleteRow row).rows.get row = none := by
  show (s.rows.get row).bind _ = _
  cases s.rows.get row with
  | none => rfl
  | some record => simp

/-- The key of a row that is there. -/
theorem Realm.rowKey_of_get {row : RowId} {record : Record Scalar RowId}
    (h : s.rows.get row = some record) : s.rowKey env row = record.key env.primaryKey := by
  rw [rowKey, h, Option.bind_some]

/-- The other rows keep their keys. -/
theorem Realm.rowKey_deleteRow {row k : RowId} (hk : k ≠ row) :
    (s.deleteRow row).rowKey env k = s.rowKey env k := by
  rw [rowKey, get_deleteRow_of_ne hk, rowKey, Option.bind_map]
  exact congrArg (s.rows.get k).bind (funext fun record => Record.key_filterMap _ _ record)

/-! ### Adding -/

/-- An object without links has become the accessor of a row with its values. -/
structure AddedFlat (env : RealmEnvironment Scalar) (s : Realm Scalar) (r : Ref)
    (record : Record Scalar Ref) (row : RowId) (t : Realm Scalar) : Prop where
  object : t.object = Function.update s.object r (some (.managed record.className row))
  stored : ∃ stored, t.rows.get row = some stored ∧ stored.targets = [] ∧
    stored.key env.primaryKey = record.key env.primaryKey ∧ stored.detach = record.detach
  other : ∀ k, k ≠ row → t.rows.get k = s.rows.get k
  /-- the row is new, or has had the key of the object -/
  origin : s.rows.next ≤ row ∨
    ∃ key, record.key env.primaryKey = some key ∧ s.rowKey env row = some key
  inWriteTransaction : t.inWriteTransaction = s.inWriteTransaction

namespace AddedFlat

variable {t : Realm Scalar} {record : Record Scalar Ref} {row : RowId}
  (h : AddedFlat env s r record row t)

include h

/-- The other objects stay what they are. -/
theorem object_of_ne {u : Ref} (hu : u ≠ r) : t.object u = s.object u := by
  rw [h.object, Function.update_of_ne hu]

/-- The row has the key of the record. -/
theorem rowKey_self : t.rowKey env row = record.key env.primaryKey := by
  obtain ⟨stored, hstored, -, hsame, -⟩ := h.stored
  exact (Realm.rowKey_of_get hstored).trans hsame

/-- The other rows have the keys they had. -/
theorem rowKey_of_ne {k : RowId} (hk : k ≠ row) : t.rowKey env k = s.rowKey env k := by
  rw [Realm.rowKey, h.other k hk, Realm.rowKey]

/-- Rows that were there keep their keys. -/
theorem rowKey_of_lt {k : RowId} (hlt : k < s.rows.next) : t.rowKey env k = s.rowKey env k := by
  by_cases hk : k = row
  · subst hk
    rcases h.origin with hnew | ⟨key, hkey, hold⟩
    · exact absurd hlt (Nat.not_lt.mpr hnew)
    · exact h.rowKey_self.trans (hkey.trans hold.symm)
  · exact h.rowKey_of_ne hk

end AddedFlat

section Add

variable [DecidableEq Scalar] {record : Record Scalar Ref}

/-- Adding an object without links returns, and makes it the accessor of a row of its own. -/
theorem addObject_flat (hobject : s.object r = some (.unmanaged record))
    (hflat : record.targets = []) (fuel : Nat) : ∃ row t,
      addObject env true (fuel + 1) r s = .returns t ∧ AddedFlat env s r record row t := by
  obtain ⟨row, s', hcreate⟩ : ∃ row s', s.createRow env true record = .returns (row, s') :=
    createRow_total fun h => by cases h
  have hcreated := createRow_spec hcreate
  have hvalid : s.isInvalidated r = false := by rw [Realm.isInvalidated, hobject]
  refine ⟨row, (s'.promote r record.className row).setProperties row record, ?_, ?_, ?_, ?_,
    hcreated.origin, ?_⟩
  · rw [addObject, hvalid, if_neg Bool.false_ne_true, hobject]
    show (s.createRow env true record >>= _) = _
    rw [hcreate, hflat]
    rfl
  · show (s'.heap.objects.update r fun _ => some (.managed record.className row)).get = _
    have hsame : s.heap.objects.get r = some (.unmanaged record) := hobject
    rw [FreshMap.get_update, hcreated.heap, hsame]
    rfl
  · refine ⟨_, Realm.get_setProperties_self hcreated.get_ne_none, ?_, ?_, ?_⟩
    · rw [Record.targets_filterMap, hflat, List.filterMap_nil]
    · rw [Record.key_filterMap]
    · rw [Record.detach_filterMap]
  · intro k hk
    rw [Realm.get_setProperties_of_ne hk]
    exact hcreated.other k hk
  · rcases createRow_cases hcreate with ⟨-, -, -, rfl⟩ | ⟨-, -, rfl⟩ <;> rfl

end Add

/-! ### New accessors -/

/-- The accessors that are read were not there before. -/
theorem Realm.object_accessors_new (s : Realm Scalar) (rows : List RowId) :
    ∀ r ∈ (s.accessors rows).1, s.object r = none := by
  have hnew : ∀ r ∈ (s.accessors rows).1, s.heap.objects.next ≤ r := by
    induction rows generalizing s with
    | nil => exact fun r hr => absurd hr List.not_mem_nil
    | cons row rows ih =>
      intro r hr
      rcases List.mem_cons.mp hr with rfl | hr
      · exact Nat.le_refl _
      · exact (Nat.le_succ _).trans (ih (s.accessor row).2 r hr)
  exact fun r hr => s.heap.objects.fresh r (hnew r hr)

/-- Reading accessors begins no transaction. -/
theorem Realm.inWriteTransaction_accessors (s : Realm Scalar) (rows : List RowId) :
    (s.accessors rows).2.inWriteTransaction = s.inWriteTransaction := by
  induction rows generalizing s with
  | nil => rfl
  | cons row rows ih => exact ih (s.accessor row).2

end QBRepository
