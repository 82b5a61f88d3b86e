import QBRepository.Realm.AddObject

namespace QBRepository

/-!
# Adding objects over rows with their keys

`Adds` is about objects with distinct keys.  In general several objects may be added to one row:
each of them sets its properties, and the last one to do so wins.  `Upserts` says what adding does
then, and whose links a row can have afterwards.

* `Taken`, `Upserts` — the relation;
* `Upserts.refl`, `Upserts.trans` — adding nothing, and adding more;
* `addObject_upserts` — whatever `addObject` adds.
-/

variable {Scalar : Type}

/-- The row has the properties of an object of `G` that was unmanaged in `s`; it is new, or had
    the key of the object. -/
structure Taken (env : RealmEnvironment Scalar) (G : Set Ref) (s t : Realm Scalar) (r : Ref)
    (record : Record Scalar Ref) (row : RowId) : Prop where
  mem : r ∈ G
  object : s.object r = some (.unmanaged record)
  stored : t.rows.get row = some (record.filterMap t.rowOf)
  promoted : ∀ v ∈ record.targets, ∀ record', t.object v ≠ some (.unmanaged record')
  origin : s.rows.next ≤ row ∨
    ∃ key, record.key env.primaryKey = some key ∧ s.rowKey env row = some key

/-- `t` is `s` with some objects of `G` added, possibly several to a row. -/
structure Upserts (env : RealmEnvironment Scalar) (G : Set Ref) (s t : Realm Scalar) : Prop
    extends Grows s t where
  next : s.rows.next ≤ t.rows.next
  managed : ∀ r className row, s.object r = some (.managed className row) →
    t.object r = some (.managed className row)
  taken : ∀ r record row, s.object r = some (.unmanaged record) → t.rowOf r = some row →
    ∃ u record', Taken env G s t u record' row
  unchanged : ∀ row, t.rows.get row = s.rows.get row ∨
    ∃ u record', Taken env G s t u record' row

variable {env : RealmEnvironment Scalar} {update : Bool} {G : Set Ref} {s s' t : Realm Scalar}

/-- The objects of `G` lead to objects of `G` only. -/
def Realm.Within (s : Realm Scalar) (G : Set Ref) : Prop :=
  ∀ r ∈ G, ∀ record, s.object r = some (.unmanaged record) → ∀ v ∈ record.targets, v ∈ G

/-- What is unmanaged afterwards was unmanaged before, with the same links. -/
theorem Grows.within (h : Grows s t) (hs : s.Within G) : t.Within G :=
  fun r hr record hobject => hs r hr record (h.unmanaged r record hobject)

/-! ### Rows that are taken -/

namespace Taken

variable {r : Ref} {record : Record Scalar Ref} {row : RowId}

/-- Such a row has had its key before, unless it is new. -/
theorem rowKey (h : Taken env G s t r record row) (hlt : row < s.rows.next) :
    s.rowKey env row = t.rowKey env row := by
  rcases h.origin with hle | ⟨key, hkey, hrow⟩
  · exact absurd hlt (Nat.not_lt.mpr hle)
  · rw [hrow, Realm.rowKey, h.stored, Option.bind_some, Record.key_filterMap, hkey]

/-- It is not a deleted row. -/
theorem get_ne_none (h : Taken env G s t r record row) (hlt : row < s.rows.next) :
    s.rows.get row ≠ none := by
  rcases h.origin with hle | ⟨key, -, hrow⟩
  · exact absurd hlt (Nat.not_lt.mpr hle)
  · obtain ⟨_, hget, -⟩ := Option.bind_eq_some_iff.mp hrow
    exact hget ▸ Option.some_ne_none _

end Taken

namespace Upserts

/-- Nothing has been stored. -/
theorem refl (env : RealmEnvironment Scalar) (G : Set Ref) (s : Realm Scalar) :
    Upserts env G s s where
  toGrows := .refl s
  next := le_rfl
  managed _ _ _ h := h
  unchanged _ := Or.inl rfl
  taken r record row hr hrow := by
    rw [Realm.rowOf, hr] at hrow
    cases hrow

/-- A row keeps its key. -/
theorem rowKey (h : Upserts env G s t) {row : RowId} (hlt : row < s.rows.next) :
    s.rowKey env row = t.rowKey env row := by
  rcases h.unchanged row with hsame | ⟨u, record, htaken⟩
  · rw [Realm.rowKey, Realm.rowKey, hsame]
  · exact htaken.rowKey hlt

/-- No row comes back. -/
theorem live (h : Upserts env G s t) {row : RowId} (hlt : row < s.rows.next)
    (hrow : t.rows.get row ≠ none) : s.rows.get row ≠ none := by
  rcases h.unchanged row with hsame | ⟨u, record, htaken⟩
  · rwa [← hsame]
  · exact htaken.get_ne_none hlt

/-- The rows of objects that are not unmanaged stay the same. -/
theorem rowOf (h : Upserts env G s t) {r : Ref} (hknown : s.object r ≠ none)
    (hr : ∀ record, s.object r ≠ some (.unmanaged record)) : t.rowOf r = s.rowOf r := by
  obtain ⟨object, hobject⟩ := Option.ne_none_iff_exists'.mp hknown
  cases object with
  | unmanaged record => exact absurd hobject (hr record)
  | managed className row =>
    rw [Realm.rowOf, Realm.rowOf, hobject, h.managed r className row hobject]

end Upserts

namespace Taken

variable {r : Ref} {record : Record Scalar Ref} {row : RowId}

/-- What was added before does not matter. -/
theorem of_upserts (h : Taken env G s' t r record row) (h₀ : Upserts env G s s') :
    Taken env G s t r record row where
  mem := h.mem
  object := h₀.unmanaged r record h.object
  stored := h.stored
  promoted := h.promoted
  origin := by
    rcases h.origin with hle | ⟨key, hkey, hrow⟩
    · exact Or.inl (h₀.next.trans hle)
    · by_cases hlt : row < s.rows.next
      · exact Or.inr ⟨key, hkey, (h₀.rowKey hlt).trans hrow⟩
      · exact Or.inl (Nat.le_of_not_lt hlt)

/-- What is added later leaves the row as it is, or takes it again. -/
theorem upserts (h : Taken env G s s' r record row) (h₀ : Upserts env G s s')
    (h' : Upserts env G s' t) : ∃ u record', Taken env G s t u record' row := by
  rcases h'.unchanged row with hsame | ⟨u, record', hagain⟩
  · refine ⟨r, record, h.mem, h.object, ?_, ?_, h.origin⟩
    · rw [hsame, h.stored]
      refine congrArg some (Record.filterMap_congr fun v hv => ?_)
      -- the targets have their rows already
      exact (h'.rowOf (h₀.known v (s.heap.closed r record h.object v hv)) (h.promoted v hv)).symm
    · exact fun v hv record' hv' => h.promoted v hv record' (h'.unmanaged v record' hv')
  · exact ⟨u, record', hagain.of_upserts h₀⟩

end Taken

/-- **Adding one set of objects after another** adds both. -/
theorem Upserts.trans (h : Upserts env G s s') (h' : Upserts env G s' t) : Upserts env G s t where
  toGrows := h.toGrows.trans h'.toGrows
  next := h.next.trans h'.next
  managed r className row hr := h'.managed r className row (h.managed r className row hr)
  taken r record row hr hrow := by
    obtain ⟨object, hobject⟩ := Option.ne_none_iff_exists'.mp (h.known r (hr.trans_ne (by simp)))
    cases object with
    | unmanaged record' =>
      obtain ⟨u, record'', htaken⟩ := h'.taken r record' row hobject hrow
      exact ⟨u, record'', htaken.of_upserts h⟩
    | managed className row' =>
      -- the object had its row in `s'` already
      have hrow' := Realm.rowOf_of_object (h'.managed r className row' hobject)
      obtain rfl : row' = row := Option.some.inj (hrow'.symm.trans hrow)
      obtain ⟨u, record', htaken⟩ := h.taken r record row' hr (Realm.rowOf_of_object hobject)
      exact htaken.upserts h h'
  unchanged row := by
    rcases h.unchanged row with hsame | ⟨u, record, htaken⟩
    · rcases h'.unchanged row with hsame' | ⟨u, record, htaken⟩
      · exact Or.inl (hsame'.trans hsame)
      · exact Or.inr ⟨u, record, htaken.of_upserts h⟩
    · exact Or.inr (htaken.upserts h h')

/-! ### The recursion -/

namespace Created

variable {r : Ref} {record : Record Scalar Ref} {row : RowId}

/-- A row that is taken while the targets of `r` are added, unless it is the row of `r`. -/
theorem taken (h : Created env update record s s' row) (hr : s.object r = some (.unmanaged record))
    {u : Ref} {record' : Record Scalar Ref} {k : RowId} (hne : k ≠ row)
    (htaken : Taken env G (s'.promote r record.className row) t u record' k) :
    Taken env G s (t.setProperties row record) u record' k where
  mem := htaken.mem
  object := (h.before hr htaken.object).2
  promoted := htaken.promoted
  stored := (Realm.get_setProperties_of_ne hne).trans htaken.stored
  origin := by
    rcases htaken.origin with hle | ⟨key, hkey, hrow⟩
    · exact Or.inl (h.next.trans hle)
    · exact Or.inr ⟨key, hkey, (h.rowKey_of_ne hne).symm.trans hrow⟩

/-- **Adding an object** after its targets. -/
theorem upserts (h : Created env update record s s' row) (hmem : r ∈ G)
    (hr : s.object r = some (.unmanaged record))
    (htargets : Upserts env G (s'.promote r record.className row) t)
    (hpromoted : ∀ v ∈ record.targets, ∀ record', t.object v ≠ some (.unmanaged record')) :
    Upserts env G s (t.setProperties row record) := by
  have hself : Taken env G s (t.setProperties row record) r record row :=
    ⟨hmem, hr, Realm.get_setProperties_self (htargets.rows row h.get_ne_none), hpromoted, h.origin⟩
  refine ⟨(h.grows hr).trans (htargets.toGrows.trans (.setProperties t row record)),
    h.next.trans htargets.next, ?_, ?_, ?_⟩
  · exact fun u className k hu => htargets.managed u className k (h.managed hr hu)
  · intro u record' k hu hk
    by_cases hkrow : k = row
    · exact ⟨r, record, hkrow ▸ hself⟩
    · have hne : u ≠ r := by
        rintro rfl
        -- `r` has become an accessor of `row`, not of another row
        have hrow := Realm.rowOf_of_object
          (htargets.managed u _ row (h.object_promote record.className hr))
        exact hkrow (Option.some.inj (hk.symm.trans hrow))
      obtain ⟨w, record'', htaken⟩ :=
        htargets.taken u record' k ((h.object_promote_of_ne hne).trans hu) hk
      exact ⟨w, record'', h.taken hr hkrow htaken⟩
  · intro k
    by_cases hkrow : k = row
    · exact Or.inr ⟨r, record, hkrow ▸ hself⟩
    · rw [Realm.get_setProperties_of_ne hkrow]
      rcases htargets.unchanged k with hsame | ⟨u, record', htaken⟩
      · exact Or.inl (hsame.trans (h.other k hkrow))
      · exact Or.inr ⟨u, record', h.taken hr hkrow htaken⟩

end Created

section Add

variable [DecidableEq Scalar]

/-- **Whatever `addObject` adds**, it takes rows for objects of the graph only. -/
theorem addObject_upserts (fuel : Nat) {r : Ref} (hmem : r ∈ G) (hs : s.Within G)
    (h : addObject env update fuel r s = .returns t) : Upserts env G s t := by
  induction fuel generalizing r s t with
  | zero => cases h
  | succ fuel ih =>
    obtain ⟨-, ⟨-, rfl⟩ | ⟨record, row, s', t', hobject, hcreated, htargets, rfl⟩⟩ :=
      addObject_cases h
    · exact .refl env G t
    · have hwithin : (s'.promote r record.className row).Within G :=
        (hcreated.grows hobject).within hs
      have hupserts : Upserts env G (s'.promote r record.className row) t' := by
        refine Outcome.forEach_invariant
          (I := fun _ t => Upserts env G (s'.promote r record.className row) t)
          ?_ (.refl env G _) htargets
        intro pre v post t₁ t₂ hsplit hpre hcall
        have hv : v ∈ G := hs r hmem record hobject v (by simp [hsplit])
        exact hpre.trans (ih hv (hpre.within hwithin) hcall)
      exact hcreated.upserts hmem hobject hupserts (forEach_addObject_promoted htargets)

end Add

end QBRepository
