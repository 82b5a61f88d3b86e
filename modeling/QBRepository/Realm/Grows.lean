import QBRepository.Realm.ObjectStore

namespace QBRepository

/-!
# Adding loses nothing

Whatever is added to a Realm, its rows stay, and so do its objects.  `Grows` says this about the
states before and after, whichever objects have been added.

* `Grows` — the relation, which is reflexive and transitive;
* `Grows.of_keeps`, `Grows.promote`, `Grows.setProperties` — single operations.
-/

variable {Scalar : Type} {s s' t : Realm Scalar}

/-- No row is lost, no object becomes unmanaged, and no accessor is invalidated. -/
structure Grows (s t : Realm Scalar) : Prop where
  rows : ∀ row, s.rows.get row ≠ none → t.rows.get row ≠ none
  known : ∀ r, s.object r ≠ none → t.object r ≠ none
  unmanaged : ∀ r record, t.object r = some (.unmanaged record) →
    s.object r = some (.unmanaged record)
  valid : ∀ r, s.object r ≠ none → s.isInvalidated r = false → t.isInvalidated r = false

namespace Realm

variable {r : Ref} {className : String} {row : RowId}

/-- The object becomes managed. -/
theorem object_promote {record : Record Scalar Ref} (h : s.object r = some (.unmanaged record)) :
    (s.promote r className row).object r = some (.managed className row) := by
  rw [object] at h
  rw [object, promote, Heap.promote, FreshMap.get_update, Function.update_self, h, Option.bind_some]

/-- The other objects stay. -/
theorem object_promote_of_ne {r' : Ref} (hne : r' ≠ r) :
    (s.promote r className row).object r' = s.object r' := by
  rw [object, promote, Heap.promote, FreshMap.get_update, Function.update_of_ne hne, object]

/-- The row takes the properties of the record. -/
theorem get_setProperties_self {record : Record Scalar Ref} (h : s.rows.get row ≠ none) :
    (s.setProperties row record).rows.get row = some (record.filterMap s.rowOf) := by
  obtain ⟨stored, hget⟩ := Option.ne_none_iff_exists'.mp h
  rw [setProperties, FreshMap.get_update, Function.update_self, hget, Option.bind_some]

/-- The other rows stay. -/
theorem get_setProperties_of_ne {record : Record Scalar Ref} {row' : RowId} (hne : row' ≠ row) :
    (s.setProperties row record).rows.get row' = s.rows.get row' := by
  rw [setProperties, FreshMap.get_update, Function.update_of_ne hne]

end Realm

namespace Grows

/-- Nothing has been added. -/
theorem refl (s : Realm Scalar) : Grows s s where
  rows _ h := h
  known _ h := h
  unmanaged _ _ h := h
  valid _ _ h := h

/-- More has been added. -/
theorem trans (h : Grows s s') (h' : Grows s' t) : Grows s t where
  rows row hrow := h'.rows row (h.rows row hrow)
  known r hr := h'.known r (h.known r hr)
  unmanaged r record hr := h.unmanaged r record (h'.unmanaged r record hr)
  valid r hr hvalid := h'.valid r (h.known r hr) (h.valid r hr hvalid)

/-- Changes of rows that keep every row. -/
theorem of_keeps (h : s.KeepsObjects t)
    (hrows : ∀ row, s.rows.get row ≠ none → t.rows.get row ≠ none) : Grows s t where
  rows := hrows
  known _ hr := h.known hr
  unmanaged := h.unmanaged
  valid r hr hvalid := by
    obtain ⟨object, hobject⟩ := Option.ne_none_iff_exists'.mp hr
    rw [Realm.isInvalidated_eq_false] at hvalid ⊢
    intro className row hmanaged
    rw [h.object r object hobject] at hmanaged
    exact hrows row (hvalid className row (hobject.trans hmanaged))

/-- An object becomes the accessor of a row that is there. -/
theorem promote {r : Ref} {record : Record Scalar Ref} {className : String} {row : RowId}
    (hr : s.object r = some (.unmanaged record)) (hrow : s.rows.get row ≠ none) :
    Grows s (s.promote r className row) where
  rows _ h := h
  known u hu := by
    by_cases hur : u = r
    · rw [hur, Realm.object_promote hr]
      exact Option.some_ne_none _
    · rwa [Realm.object_promote_of_ne hur]
  unmanaged u record' hu := by
    by_cases hur : u = r
    · rw [hur, Realm.object_promote hr] at hu
      cases hu
    · rwa [Realm.object_promote_of_ne hur] at hu
  valid u _ hvalid := by
    rw [Realm.isInvalidated_eq_false] at hvalid ⊢
    intro className' row' hu
    by_cases hur : u = r
    · rw [hur, Realm.object_promote hr] at hu
      cases hu
      exact hrow
    · rw [Realm.object_promote_of_ne hur] at hu
      exact hvalid className' row' hu

/-- Setting properties deletes nothing. -/
theorem setProperties (s : Realm Scalar) (row : RowId) (record : Record Scalar Ref) :
    Grows s (s.setProperties row record) := by
  refine .of_keeps (.of_heap rfl) fun k hk => ?_
  by_cases hkr : k = row
  · subst hkr
    rw [Realm.get_setProperties_self hk]
    exact Option.some_ne_none _
  · rwa [Realm.get_setProperties_of_ne hkr]

end Grows

end QBRepository
