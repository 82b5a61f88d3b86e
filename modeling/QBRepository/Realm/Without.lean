import Mathlib.Data.Set.Insert
import QBRepository.Realm.Object

namespace QBRepository

/-!
# Removing rows

What the rows of a Realm are without some of them: links to a removed row become null, and lists
lose their entries for it.

* `without` — the rows that are left;
* `without_insert_of_none`, `Realm.rows_deleteRow` — one row more.
-/

variable {Scalar : Type}

section Without

variable {rows : FreshMap (Record Scalar RowId)} {gone : Set RowId} {row : RowId}

open Classical in
/-- A link survives unless its row is removed. -/
noncomputable def survivor (rows : FreshMap (Record Scalar RowId)) (gone : Set RowId)
    (t : RowId) : Option RowId :=
  if t ∈ gone ∧ rows.get t ≠ none then none else some t

open Classical in
/-- What is left when the rows in `gone` are deleted. -/
noncomputable def without (rows : FreshMap (Record Scalar RowId)) (gone : Set RowId)
    (row : RowId) : Option (Record Scalar RowId) :=
  if row ∈ gone then none
  else (rows.get row).map fun record => record.filterMap (survivor rows gone)

/-- A link that survives is not changed. -/
theorem eq_of_survivor {t t' : RowId} (h : survivor rows gone t = some t') : t = t' := by
  rw [survivor] at h
  split at h
  · cases h
  · exact Option.some.inj h

/-- A row that is deleted. -/
theorem without_of_mem (h : row ∈ gone) : without rows gone row = none := if_pos h

/-- A row that is left. -/
theorem without_of_notMem (h : row ∉ gone) : without rows gone row
    = (rows.get row).map fun record => record.filterMap (survivor rows gone) := if_neg h

/-- The rows that are left. -/
theorem without_ne_none : without rows gone row ≠ none ↔ rows.get row ≠ none ∧ row ∉ gone := by
  by_cases hrow : row ∈ gone
  · simp [without_of_mem hrow, hrow]
  · simp [without_of_notMem hrow, hrow]

/-- A row that is left has lost some of its links. -/
theorem of_without_eq_some {record : Record Scalar RowId}
    (h : without rows gone row = some record) :
    row ∉ gone ∧ ∃ record₀, rows.get row = some record₀ ∧
      record₀.filterMap (survivor rows gone) = record := by
  by_cases hrow : row ∈ gone
  · rw [without_of_mem hrow] at h
    cases h
  · rw [without_of_notMem hrow] at h
    exact ⟨hrow, Option.map_eq_some_iff.mp h⟩

/-- Removing rows that do not exist changes nothing. -/
theorem without_eq_self (h : ∀ row ∈ gone, rows.get row = none) :
    without rows gone = rows.get := by
  have hkeep : survivor rows gone = some :=
    funext fun t => if_neg fun ⟨ht, hne⟩ => hne (h t ht)
  funext row
  by_cases hrow : row ∈ gone
  · rw [without_of_mem hrow, h row hrow]
  · rw [without_of_notMem hrow, hkeep]
    simp [Record.filterMap_some]

/-- Deleting one more row changes no link to another one. -/
theorem survivor_insert (t : RowId) (h : rows.get row = none ∨ t ≠ row) :
    survivor rows (insert row gone) t = survivor rows gone t := by
  have hiff : (t ∈ insert row gone ∧ rows.get t ≠ none) ↔ t ∈ gone ∧ rows.get t ≠ none := by
    refine ⟨fun ⟨ht, hne⟩ => ⟨ht.resolve_left fun htr => ?_, hne⟩,
      fun ⟨ht, hne⟩ => ⟨Set.mem_insert_of_mem row ht, hne⟩⟩
    rcases h with hnone | hne'
    · exact hne (htr ▸ hnone)
    · exact hne' htr
  by_cases hlost : t ∈ gone ∧ rows.get t ≠ none
  · rw [survivor, survivor, if_pos hlost, if_pos (hiff.mpr hlost)]
  · rw [survivor, survivor, if_neg hlost, if_neg (mt hiff.mp hlost)]

/-- A row that is already gone, or never existed, may be counted among the removed ones. -/
theorem without_insert_of_none (h : without rows gone row = none) :
    without rows (insert row gone) = without rows gone := by
  by_cases hrow : row ∈ gone
  · rw [Set.insert_eq_of_mem hrow]
  · rw [without_of_notMem hrow, Option.map_eq_none_iff] at h
    have hsame : survivor rows (insert row gone) = survivor rows gone :=
      funext fun t => survivor_insert t (Or.inl h)
    funext k
    by_cases hk : k = row
    · rw [hk, without_of_mem (Set.mem_insert row gone), without_of_notMem hrow, h, Option.map_none]
    · by_cases hgone : k ∈ gone
      · rw [without_of_mem hgone, without_of_mem (Set.mem_insert_of_mem row hgone)]
      · rw [without_of_notMem hgone, without_of_notMem fun h => h.elim hk hgone, hsame]

/-- Deleting one more row. -/
theorem Realm.rows_deleteRow {s : Realm Scalar} (hs : s.rows.get = without rows gone)
    (hrow : s.rows.get row ≠ none) :
    (s.deleteRow row).rows.get = without rows (insert row gone) := by
  have hmem : row ∉ gone := by
    intro hmem
    rw [hs, without_of_mem hmem] at hrow
    exact hrow rfl
  have hlive : rows.get row ≠ none := by
    rw [hs, without_of_notMem hmem, ne_eq, Option.map_eq_none_iff] at hrow
    exact hrow
  funext k
  show (s.rows.get k).bind _ = _
  rw [hs]
  by_cases hk : k = row
  · rw [hk, without_of_mem (Set.mem_insert row gone)]
    simp
  by_cases hgone : k ∈ gone
  · rw [without_of_mem hgone, without_of_mem (Set.mem_insert_of_mem row hgone), Option.bind_none]
  rw [without_of_notMem hgone, without_of_notMem fun h => h.elim hk hgone]
  cases rows.get k with
  | none => rfl
  | some record =>
    simp only [Option.map_some, Option.bind_some, if_neg hk, Record.filterMap_filterMap]
    refine congrArg some (Record.filterMap_congr fun t _ => ?_)
    by_cases ht : t = row
    · -- the link to the deleted row survived so far and is lost now
      have hlost : survivor rows (insert row gone) t = none :=
        if_pos ⟨ht ▸ Set.mem_insert row gone, ht ▸ hlive⟩
      rw [hlost]
      cases hsurvivor : survivor rows gone t with
      | none => rfl
      | some t' =>
        obtain rfl := eq_of_survivor hsurvivor
        exact if_pos ht
    · rw [survivor_insert t (Or.inr ht)]
      cases hsurvivor : survivor rows gone t with
      | none => rfl
      | some t' =>
        obtain rfl := eq_of_survivor hsurvivor
        exact if_neg ht

end Without

end QBRepository
