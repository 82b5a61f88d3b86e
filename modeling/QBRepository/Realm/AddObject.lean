import QBRepository.Realm.Adding
import QBRepository.Realm.Grows

namespace QBRepository

/-!
# `addObject` adds objects

`RLMAddObjectToRealm` turns an object into the accessor of its row before it adds the targets, and
sets the properties of the row afterwards.  `Created` is the state in between.

* `createRow_spec`, `addObject_cases` — what one call does;
* `Created.adds` — adding one object, given what adding its targets does;
* `addObject_grows`, `addObject_promoted` — a call that returns has lost nothing, and the object is
  not unmanaged, without any assumptions;
* `addObject_adds` — for distinct keys, it is related to its start;
* `addObject_converges` — when a call returns, and `Ready.addObject_converges`, the case without
  updates.
-/

variable {Scalar : Type} {env : RealmEnvironment Scalar} {update : Bool} {G : Set Ref}
  {s s' t : Realm Scalar}

/-! ### Adding one object -/

/-- The row of an object has its key; it is new, or the only one with this key. -/
structure Created (env : RealmEnvironment Scalar) (update : Bool) (record : Record Scalar Ref)
    (s s' : Realm Scalar) (row : RowId) : Prop where
  heap : s'.heap = s.heap
  next : s.rows.next ≤ s'.rows.next
  get_ne_none : s'.rows.get row ≠ none
  rowKey : s'.rowKey env row = record.key env.primaryKey
  other : ∀ row', row' ≠ row → s'.rows.get row' = s.rows.get row'
  origin : s.rows.next ≤ row ∨
    ∃ key, record.key env.primaryKey = some key ∧ s.rowKey env row = some key
  unstored : update = false → ∀ key, record.key env.primaryKey = some key →
    ∀ row', s.rowKey env row' ≠ some key

section Create

variable [DecidableEq Scalar] {record : Record Scalar Ref} {row : RowId}

/-- What is found under a key has the key. -/
theorem Realm.rowKey_of_find {key : String × Scalar} (h : s.find env key = some row) :
    s.rowKey env row = some key := by
  have hrow := List.find?_some h
  rw [Realm.rowKey]
  cases hget : s.rows.get row with
  | none => simp [hget] at hrow
  | some record => simpa [hget] using hrow

/-- Nothing is found under a key that no row has. -/
theorem Realm.find_eq_none {key : String × Scalar} :
    s.find env key = none ↔ ∀ row, s.rowKey env row ≠ some key := by
  rw [Realm.find, List.find?_eq_none]
  refine ⟨fun h row hrow => ?_, fun h row _ hrow => h row ?_⟩
  · obtain ⟨record, hget, hkey⟩ := Option.bind_eq_some_iff.mp hrow
    refine h row (s.rows.mem_keys.mpr (by rw [hget, Option.isSome_some])) ?_
    rw [hget]
    exact decide_eq_true hkey
  · rw [Realm.rowKey]
    cases hget : s.rows.get row with
    | none => simp [hget] at hrow
    | some record => simpa [hget] using hrow

/-- What a row is created for a record does to the rows: with `update`, a row with the key of the
    record is taken, if there is one; otherwise there is a new row, whose key no other row has. -/
theorem createRow_spec (h : s.createRow env update record = .returns (row, s')) :
    Created env update record s s' row := by
  rw [Realm.createRow] at h
  split at h
  next row' hfind =>
    obtain ⟨key, hkey, hfind⟩ := Option.bind_eq_some_iff.mp hfind
    split at h
    next hupdate =>
      obtain ⟨rfl, rfl⟩ := Prod.mk.inj (Outcome.returns.inj h)
      have hrow := Realm.rowKey_of_find hfind
      obtain ⟨_, hget, _⟩ := Option.bind_eq_some_iff.mp hrow
      -- the row with the key of the object is taken over
      exact ⟨rfl, le_rfl, hget ▸ Option.some_ne_none _, hrow.trans hkey.symm, fun _ _ => rfl,
        Or.inr ⟨key, hkey, hrow⟩, fun hfalse => by rw [hupdate] at hfalse; cases hfalse⟩
    next => cases h
  next hnone =>
    -- no row has the key, and a new row without links is made
    obtain ⟨rfl, rfl⟩ := Prod.mk.inj (Outcome.returns.inj h)
    refine ⟨rfl, Nat.le_succ _, ?_, ?_, fun row' hne => FreshMap.get_alloc_of_ne _ _ hne,
      Or.inl le_rfl, fun _ key hkey => ?_⟩
    · rw [FreshMap.get_alloc_self]
      exact Option.some_ne_none _
    · rw [Realm.rowKey, FreshMap.get_alloc_self, Option.bind_some, Record.key_filterMap]
    · rw [hkey, Option.bind_some] at hnone
      exact Realm.find_eq_none.mp hnone

/-- With updates, or without a row that has its key, an object gets a row. -/
theorem createRow_total (h : update = false → ∀ key, record.key env.primaryKey = some key →
    ∀ row', s.rowKey env row' ≠ some key) :
    ∃ row s', s.createRow env update record = .returns (row, s') := by
  rw [Realm.createRow]
  split
  next row hfind =>
    obtain ⟨key, hkey, hfind⟩ := Option.bind_eq_some_iff.mp hfind
    cases update with
    | true => exact ⟨row, s, rfl⟩
    | false => exact absurd (Realm.rowKey_of_find hfind) (h rfl key hkey row)
  next => exact ⟨_, _, rfl⟩

end Create

namespace Created

variable {r : Ref} {record : Record Scalar Ref} {row : RowId}

/-- The object becomes an accessor of the row. -/
theorem object_promote (h : Created env update record s s' row) (className : String)
    (hr : s.object r = some (.unmanaged record)) :
    (s'.promote r className row).object r = some (.managed className row) := by
  rw [Realm.object, ← h.heap] at hr
  exact Realm.object_promote hr

/-- The other objects stay what they are. -/
theorem object_promote_of_ne (h : Created env update record s s' row) {className : String}
    {r' : Ref} (hne : r' ≠ r) : (s'.promote r className row).object r' = s.object r' := by
  rw [Realm.object_promote_of_ne hne, Realm.object, h.heap, Realm.object]

/-- Accessors stay accessors of their rows. -/
theorem managed (h : Created env update record s s' row)
    (hr : s.object r = some (.unmanaged record)) {u : Ref} {className : String} {row' : RowId}
    (hu : s.object u = some (.managed className row')) :
    (s'.promote r record.className row).object u = some (.managed className row') := by
  have hne : u ≠ r := by
    rintro rfl
    rw [hr] at hu
    cases hu
  rw [h.object_promote_of_ne hne, hu]

/-- Getting a row loses nothing. -/
theorem grows (h : Created env update record s s' row)
    (hr : s.object r = some (.unmanaged record)) :
    Grows s (s'.promote r record.className row) := by
  have hr' : s'.object r = some (.unmanaged record) := by
    rwa [Realm.object, h.heap]
  refine Grows.trans (.of_keeps (.of_heap h.heap) fun k hk => ?_) (.promote hr' h.get_ne_none)
  by_cases hkr : k = row
  · exact hkr ▸ h.get_ne_none
  · rwa [h.other k hkr]

/-- The objects that are unmanaged while the targets of `r` are added were so before. -/
theorem before (h : Created env update record s s' row)
    (hr : s.object r = some (.unmanaged record)) {u : Ref} {record' : Record Scalar Ref}
    (hu : (s'.promote r record.className row).object u = some (.unmanaged record')) :
    u ≠ r ∧ s.object u = some (.unmanaged record') := by
  have hne : u ≠ r := by
    rintro rfl
    rw [h.object_promote record.className hr] at hu
    cases hu
  rw [h.object_promote_of_ne hne] at hu
  exact ⟨hne, hu⟩

/-- What can be added before a row is created can be added afterwards. -/
theorem addable (h : Created env update record s s' row) (hs : Addable env G s)
    (hr : s.object r = some (.unmanaged record)) :
    Addable env G (s'.promote r record.className row) :=
  hs.mono fun _ _ hu => (h.before hr hu).2

/-- The rows of the targets exist before the row of `r` does. -/
theorem intact (h : Created env update record s s' row)
    (hr : s.object r = some (.unmanaged record)) {v : Ref}
    (hv : (s'.promote r record.className row).Intact v) : s.Intact v := by
  intro className row' hobject hlt
  have hlive := hv className row' (h.managed hr hobject) (Nat.lt_of_lt_of_le hlt h.next)
  by_cases hrow : row' = row
  · subst hrow
    rcases h.origin with hle | ⟨key, _, hkey⟩
    -- a new row cannot be the row of an object that was there before
    · exact absurd hlt (Nat.not_lt.mpr hle)
    · obtain ⟨_, hget, _⟩ := Option.bind_eq_some_iff.mp hkey
      exact hget ▸ Option.some_ne_none _
  · rwa [← h.other row' hrow]

/-- The row of `r` has the key of `r` only. -/
theorem rowKey_ne (h : Created env update record s s' row) (hs : Addable env G s) (hmem : r ∈ G)
    (hr : s.object r = some (.unmanaged record)) {r' : Ref} (hr' : r' ∈ G) (hne : r' ≠ r)
    {record' : Record Scalar Ref} (hrecord' : s.object r' = some (.unmanaged record'))
    {key : String × Scalar} (hkey : record'.key env.primaryKey = some key) :
    s'.rowKey env row ≠ some key := by
  rw [h.rowKey]
  exact hs.distinct r' hr' r hmem hne record' record hrecord' hr key hkey

/-- The keys of other rows are those they had. -/
theorem rowKey_of_ne (h : Created env update record s s' row) {row' : RowId} (hne : row' ≠ row) :
    s'.rowKey env row' = s.rowKey env row' := by
  rw [Realm.rowKey, Realm.rowKey, h.other row' hne]

/-- A target that is stored while `r` is being added has a row of its own. -/
theorem row_ne (h : Created env update record s s' row) (hs : Addable env G s) (hmem : r ∈ G)
    (hr : s.object r = some (.unmanaged record)) {u : Ref} {record' : Record Scalar Ref}
    {row' : RowId} (hne : u ≠ r) (hu : s.object u = some (.unmanaged record'))
    (hstored : Stored env update G (s'.promote r record.className row) t u record' row') :
    row' ≠ row := by
  rintro rfl
  rcases hstored.origin with hle | ⟨key, hkey, hrow⟩
  · obtain ⟨_, hget⟩ := Option.ne_none_iff_exists'.mp h.get_ne_none
    exact absurd (s'.rows.lt_next_of_get hget) (Nat.not_lt.mpr hle)
  · exact h.rowKey_ne hs hmem hr hstored.mem hne hu hkey hrow

/-- A target that is stored while `r` is being added is stored afterwards. -/
theorem stored (h : Created env update record s s' row) (hs : Addable env G s) (hmem : r ∈ G)
    (hr : s.object r = some (.unmanaged record)) {u : Ref} {record' : Record Scalar Ref}
    {row' : RowId} (hne : u ≠ r) (hu : s.object u = some (.unmanaged record'))
    (hstored : Stored env update G (s'.promote r record.className row) t u record' row') :
    Stored env update G s (t.setProperties row record) u record' row' where
  mem := hstored.mem
  object := hstored.object
  promoted := hstored.promoted
  intact v hv := h.intact hr (hstored.intact v hv)
  stored := by
    have hrow := h.row_ne hs hmem hr hne hu hstored
    exact (Realm.get_setProperties_of_ne hrow).trans hstored.stored
  origin := by
    have hrow := h.row_ne hs hmem hr hne hu hstored
    rcases hstored.origin with hle | ⟨key, hkey, hrow'⟩
    · exact Or.inl (h.next.trans hle)
    · exact Or.inr ⟨key, hkey, (h.rowKey_of_ne hrow).symm.trans hrow'⟩
  unstored := by
    intro hupdate key hkey k hk
    by_cases hrow : k = row
    · subst hrow
      rcases h.origin with hle | ⟨key', hkey', hrow'⟩
      · exact absurd (Realm.lt_next_of_rowKey hk) (Nat.not_lt.mpr hle)
      · rw [hk, Option.some.injEq] at hrow'
        exact h.rowKey_ne hs hmem hr hstored.mem hne hu hkey (h.rowKey.trans (hrow' ▸ hkey'))
    · exact hstored.unstored hupdate key hkey k ((h.rowKey_of_ne hrow).trans hk)

/-- Another object that has a row afterwards got it while the targets were added. -/
theorem stored_of_rowOf (h : Created env update record s s' row)
    (hadds : Adds env update G (s'.promote r record.className row) t) {u : Ref}
    {record' : Record Scalar Ref} {row' : RowId} (hne : u ≠ r)
    (hu : s.object u = some (.unmanaged record')) (hrow : t.rowOf u = some row') :
    Stored env update G (s'.promote r record.className row) t u record' row' :=
  hadds.stored_of_rowOf ((h.object_promote_of_ne hne).trans hu) hrow

/-- No other object is given the row. -/
theorem rowOf_ne (h : Created env update record s s' row) (hs : Addable env G s) (hmem : r ∈ G)
    (hr : s.object r = some (.unmanaged record))
    (hadds : Adds env update G (s'.promote r record.className row) t) {u : Ref}
    {record' : Record Scalar Ref} {row' : RowId} (hne : u ≠ r)
    (hu : s.object u = some (.unmanaged record')) (hrow : t.rowOf u = some row') : row' ≠ row :=
  h.row_ne hs hmem hr hne hu (h.stored_of_rowOf hadds hne hu hrow)

/-- No two objects get the same row. -/
theorem injective (h : Created env update record s s' row) (hs : Addable env G s) (hmem : r ∈ G)
    (hr : s.object r = some (.unmanaged record))
    (hadds : Adds env update G (s'.promote r record.className row) t) {u u' : Ref}
    {record₁ record₂ : Record Scalar Ref} {k : RowId}
    (hu : s.object u = some (.unmanaged record₁)) (hu' : s.object u' = some (.unmanaged record₂))
    (hrow : t.rowOf u = some k) (hrow' : t.rowOf u' = some k) : u = u' := by
  have hself : t.rowOf r = some row := Realm.rowOf_of_object
    (hadds.managed r record.className row (h.object_promote record.className hr))
  by_cases hne : u = r
  · by_cases hne' : u' = r
    · rw [hne, hne']
    · rw [hne, hself, Option.some.injEq] at hrow
      exact absurd hrow.symm (h.rowOf_ne hs hmem hr hadds hne' hu' hrow')
  · by_cases hne' : u' = r
    · rw [hne', hself, Option.some.injEq] at hrow'
      exact absurd hrow'.symm (h.rowOf_ne hs hmem hr hadds hne hu hrow)
    · exact hadds.injective u u' record₁ record₂ k (h.stored_of_rowOf hadds hne hu hrow)
        (h.stored_of_rowOf hadds hne' hu' hrow') ((h.object_promote_of_ne hne).trans hu)
        ((h.object_promote_of_ne hne').trans hu')

/-- **Adding an object** adds it and what its targets add. -/
theorem adds (h : Created env update record s s' row) (hs : Addable env G s) (hmem : r ∈ G)
    (hr : s.object r = some (.unmanaged record))
    (hadds : Adds env update G (s'.promote r record.className row) t)
    (hall : ∀ v ∈ record.targets, ∀ record', t.object v ≠ some (.unmanaged record'))
    (hintact : ∀ v ∈ record.targets, (s'.promote r record.className row).Intact v) :
    Adds env update G s (t.setProperties row record) := by
  have hpromoted : t.object r = some (.managed record.className row) :=
    hadds.managed r record.className row (h.object_promote record.className hr)
  have hself : Stored env update G s (t.setProperties row record) r record row :=
    ⟨hmem, hpromoted, Realm.get_setProperties_self (hadds.kept h.get_ne_none), h.origin,
      h.unstored, hall, fun v hv => h.intact hr (hintact v hv)⟩
  -- the object itself is stored in `row`, everything else as its targets have left it
  refine ⟨h.next.trans hadds.next, ?_, ?_, ?_, ?_, ?_⟩
  · exact fun u className row' hu => hadds.managed u className row' (h.managed hr hu)
  · exact fun u record' hu => (h.before hr (hadds.unmanaged u record' hu)).2
  · intro u record' hu
    by_cases hne : u = r
    · subst hne
      obtain rfl : record = record' := by rw [hr] at hu; cases hu; rfl
      exact Or.inr ⟨row, hself⟩
    · rcases hadds.stored u record' ((h.object_promote_of_ne hne).trans hu) with
        hsame | ⟨row', hstored⟩
      · exact Or.inl hsame
      · exact Or.inr ⟨row', h.stored hs hmem hr hne hu hstored⟩
  · intro k
    by_cases hk : k = row
    · exact Or.inr ⟨r, record, hr, hk ▸ hself⟩
    · rw [Realm.get_setProperties_of_ne hk]
      rcases hadds.rows k with hsame | ⟨u, record', hu, hstored⟩
      · exact Or.inl (hsame.trans (h.other k hk))
      · obtain ⟨hne, hu⟩ := h.before hr hu
        exact Or.inr ⟨u, record', hu, h.stored hs hmem hr hne hu hstored⟩
  · intro u u' record₁ record₂ k hstored hstored' hu hu'
    exact h.injective hs hmem hr hadds hu hu' hstored.rowOf hstored'.rowOf

end Created

/-! ### The recursion -/

section Add

variable [DecidableEq Scalar]

/-- **What a call that returns has done**: nothing, for an accessor; and otherwise the object has
    got a row, its targets have been added, and then the row has got its properties. -/
theorem addObject_cases {fuel : Nat} {r : Ref}
    (h : addObject env update (fuel + 1) r s = .returns t) :
    s.isInvalidated r = false ∧
      ((∀ record, s.object r ≠ some (.unmanaged record)) ∧ t = s ∨
        ∃ record row s' t', s.object r = some (.unmanaged record) ∧
          Created env update record s s' row ∧
          Outcome.forEach (addObject env update fuel) record.targets
            (s'.promote r record.className row) = .returns t' ∧
          t = t'.setProperties row record) := by
  rw [addObject] at h
  split at h
  · cases h
  next hvalid =>
  refine ⟨Bool.eq_false_iff.mpr hvalid, ?_⟩
  split at h
  next hobject =>
    exact Or.inl ⟨by rw [hobject]; rintro _ ⟨⟩, (Outcome.returns.inj h).symm⟩
  next hobject =>
    exact Or.inl ⟨by rw [hobject]; rintro _ ⟨⟩, (Outcome.returns.inj h).symm⟩
  next record hobject =>
    obtain ⟨⟨row, s'⟩, hcreate, h⟩ := Outcome.bind_eq_returns.mp h
    obtain ⟨t', htargets, h⟩ := Outcome.bind_eq_returns.mp h
    exact Or.inr ⟨record, row, s', t', hobject, createRow_spec hcreate, htargets,
      (Outcome.returns.inj h).symm⟩

/-- **Whatever `addObject` adds, nothing is lost**, also where it takes over a row. -/
theorem addObject_grows (fuel : Nat) {r : Ref} (h : addObject env update fuel r s = .returns t) :
    Grows s t := by
  induction fuel generalizing r s t with
  | zero => cases h
  | succ fuel ih =>
    obtain ⟨-, ⟨-, rfl⟩ | ⟨record, row, s', t', hobject, hcreated, htargets, rfl⟩⟩ :=
      addObject_cases h
    · exact .refl t
    · have hrest : Grows (s'.promote r record.className row) t' :=
        Outcome.forEach_invariant (I := fun _ t => Grows (s'.promote r record.className row) t)
          (fun _ _ _ _ _ _ hpre hcall => hpre.trans (ih hcall)) (.refl _) htargets
      exact (hcreated.grows hobject).trans (hrest.trans (.setProperties t' row record))

/-- Adding objects one after the other keeps every row. -/
theorem forEach_addObject_grows {fuel : Nat} {refs : List Ref}
    (h : Outcome.forEach (addObject env update fuel) refs s = .returns t) : Grows s t :=
  Outcome.forEach_invariant (I := fun _ t => Grows s t)
    (fun _ _ _ _ _ _ hpre hcall => hpre.trans (addObject_grows fuel hcall)) (.refl s) h

/-- An object that has been added is not unmanaged. -/
theorem addObject_promoted {fuel : Nat} {r : Ref} (h : addObject env update fuel r s = .returns t)
    (record : Record Scalar Ref) : t.object r ≠ some (.unmanaged record) := by
  cases fuel with
  | zero => cases h
  | succ fuel =>
    obtain ⟨-, ⟨hmanaged, rfl⟩ | ⟨record', row, s', t', hobject, hcreated, htargets, rfl⟩⟩ :=
      addObject_cases h
    · exact hmanaged record
    · intro hunmanaged
      -- the object has been an accessor since before its targets were added
      have hbefore := (forEach_addObject_grows htargets).unmanaged r record hunmanaged
      rw [hcreated.object_promote record'.className hobject] at hbefore
      cases hbefore

/-- Neither are the targets of an object, when all of them have been added. -/
theorem forEach_addObject_promoted {fuel : Nat} {refs : List Ref}
    (h : Outcome.forEach (addObject env update fuel) refs s = .returns t) :
    ∀ v ∈ refs, ∀ record, t.object v ≠ some (.unmanaged record) := by
  refine Outcome.forEach_invariant
    (I := fun pre t => ∀ v ∈ pre, ∀ record, t.object v ≠ some (.unmanaged record))
    ?_ (by simp) h
  intro pre v post s₁ s₂ _ hpre hcall w hw record hunmanaged
  rcases List.mem_append.mp hw with hw | hw
  · exact hpre w hw record ((addObject_grows fuel hcall).unmanaged w record hunmanaged)
  · exact addObject_promoted hcall record (List.mem_singleton.mp hw ▸ hunmanaged)

/-! ### Distinct keys -/

/-- An object that can be added has not lost its row. -/
theorem addObject_intact {fuel : Nat} {r : Ref} (h : addObject env update fuel r s = .returns t) :
    s.Intact r := by
  cases fuel with
  | zero => cases h
  | succ fuel =>
    exact fun className row hobject _ =>
      Realm.isInvalidated_eq_false.mp (addObject_cases h).1 className row hobject

/-- The targets one after another, if each of them is added. -/
theorem Adds.forEach {fuel : Nat} (hadd : ∀ v s t, v ∈ G → Addable env G s →
      addObject env update fuel v s = .returns t → Adds env update G s t)
    {refs : List Ref} (hrefs : ∀ v ∈ refs, v ∈ G) (hs : Addable env G s)
    (h : Outcome.forEach (addObject env update fuel) refs s = .returns t) :
    Adds env update G s t ∧ ∀ v ∈ refs, s.Intact v := by
  refine Outcome.forEach_invariant
    (I := fun pre t => Adds env update G s t ∧ ∀ v ∈ pre, s.Intact v)
    ?_ ⟨.refl env update G s, by simp⟩ h
  intro pre v post s₁ s₂ hsplit hinv hcall
  obtain ⟨hpre, hintact⟩ := hinv
  have hv : v ∈ G := hrefs v (by simp [hsplit])
  refine ⟨hpre.trans hs (hadd v s₁ s₂ hv (hpre.addable hs) hcall), fun w hw => ?_⟩
  rcases List.mem_append.mp hw with hw | hw
  · exact hintact w hw
  · rw [List.mem_singleton.mp hw]
    exact hpre.intact (addObject_intact hcall)

/-- **`addObject` adds objects**: if it returns, the object has a row, and so has everything
    it leads to. -/
theorem addObject_adds (fuel : Nat) {r : Ref} (hmem : r ∈ G) (hs : Addable env G s)
    (h : addObject env update fuel r s = .returns t) : Adds env update G s t := by
  induction fuel generalizing r s t with
  | zero => cases h
  | succ fuel ih =>
    obtain ⟨-, ⟨-, rfl⟩ | ⟨record, row, s', t', hobject, hcreated, htargets, rfl⟩⟩ :=
      addObject_cases h
    · exact .refl env update G t
    · obtain ⟨hadds, hintact⟩ := Adds.forEach (fun _ _ _ => ih) (hs.closed r hmem record hobject)
        (hcreated.addable hs hobject) htargets
      exact hcreated.adds hs hmem hobject hadds (forEach_addObject_promoted htargets) hintact

end Add

/-! ### Termination -/

/-- The recursion over the objects of `G` comes to its end: they exist, their rows have not been
    deleted, and the links among the unmanaged ones descend. -/
structure Descending (rank : Ref → Nat) (G : Set Ref) (s : Realm Scalar) : Prop where
  closed : ∀ r ∈ G, ∀ record, s.object r = some (.unmanaged record) → ∀ t ∈ record.targets, t ∈ G
  known : ∀ r ∈ G, s.object r ≠ none
  valid : ∀ r ∈ G, s.isInvalidated r = false
  ranked : ∀ r ∈ G, ∀ record, s.object r = some (.unmanaged record) →
    ∀ t ∈ record.targets, rank t < rank r

/-- What descends does so once there are more rows. -/
theorem Descending.grows {rank : Ref → Nat} (h : Descending rank G s) (hgrows : Grows s t) :
    Descending rank G t where
  closed r hr record hrecord := h.closed r hr record (hgrows.unmanaged r record hrecord)
  known r hr := hgrows.known r (h.known r hr)
  valid r hr := hgrows.valid r (h.known r hr) (h.valid r hr)
  ranked r hr record hrecord := h.ranked r hr record (hgrows.unmanaged r record hrecord)

/-- **`addObject` returns**, if every object gets a row: `I` says that it does, and is kept. -/
theorem addObject_converges [DecidableEq Scalar] {I : Realm Scalar → Prop} {rank : Ref → Nat}
    (hdescending : ∀ s, I s → Descending rank G s)
    (hcreate : ∀ s r record, I s → r ∈ G → s.object r = some (.unmanaged record) →
      ∃ row s', s.createRow env update record = .returns (row, s') ∧
        I (s'.promote r record.className row))
    (hadd : ∀ fuel r s t, I s → r ∈ G → addObject env update fuel r s = .returns t → I t)
    {r : Ref} (hmem : r ∈ G) (hs : I s) :
    ∃ t, Outcome.Converges (fun fuel => addObject env update fuel r s) t := by
  induction hrank : rank r using Nat.strong_induction_on generalizing r s with
  | _ n ih =>
    subst hrank
    have hG := hdescending s hs
    have hvalid := hG.valid r hmem
    cases hobject : s.object r with
    | none => exact absurd hobject (hG.known r hmem)
    | some object =>
      cases object with
      | managed className row =>
        refine ⟨s, (Outcome.Converges.const s).succ fun fuel => ?_⟩
        rw [addObject, hvalid, if_neg Bool.false_ne_true, hobject]
      | unmanaged record =>
        obtain ⟨row, s', hrow, hs'⟩ := hcreate s r record hs hmem hobject
        -- the targets have smaller ranks
        have htargets : ∃ t, Outcome.Converges (fun fuel => Outcome.forEach
            (addObject env update fuel) record.targets (s'.promote r record.className row)) t ∧
            I t := by
          refine Outcome.forEach_converges (I := fun _ t => I t) ?_ hs'
          intro pre v post t hsplit ht
          have hv : v ∈ record.targets := by simp [hsplit]
          have hmemv := hG.closed r hmem record hobject v hv
          obtain ⟨t', n, hn⟩ := ih _ (hG.ranked r hmem record hobject v hv) hmemv ht rfl
          exact ⟨t', ⟨n, hn⟩, hadd n v t t' ht hmemv (hn n le_rfl)⟩
        obtain ⟨t, hrun, -⟩ := htargets
        have hset := hrun.bind (g := fun t _ => .returns (t.setProperties row record)) (.const _)
        refine ⟨t.setProperties row record, hset.succ fun fuel => ?_⟩
        rw [addObject, hvalid, if_neg Bool.false_ne_true, hobject]
        show (s.createRow env update record >>= _) = _
        rw [hrow, Outcome.returns_bind]
        rfl

/-- With updates, every object gets a row. -/
theorem Descending.addObject_converges [DecidableEq Scalar] {rank : Ref → Nat}
    (env : RealmEnvironment Scalar) (h : Descending rank G s) {r : Ref} (hmem : r ∈ G) :
    ∃ t, Outcome.Converges (fun fuel => addObject env true fuel r s) t := by
  refine QBRepository.addObject_converges (I := Descending rank G) (fun _ => id) ?_ ?_ hmem h
  · intro s r record hs hr hobject
    have htotal : ∃ row s', s.createRow env true record = .returns (row, s') :=
      createRow_total fun hfalse => by cases hfalse
    obtain ⟨row, s', hcreate⟩ := htotal
    exact ⟨row, s', hcreate, hs.grows ((createRow_spec hcreate).grows hobject)⟩
  · exact fun fuel r s t hs _ hcall => hs.grows (addObject_grows fuel hcall)

/-- Nothing keeps the objects of `G` from being added: they exist, their rows have not been
    deleted, their keys are free or may be updated, and the links among the unmanaged ones
    descend. -/
structure Ready (env : RealmEnvironment Scalar) (update : Bool) (rank : Ref → Nat) (G : Set Ref)
    (s : Realm Scalar) : Prop extends Addable env G s where
  known : ∀ r ∈ G, s.object r ≠ none
  valid : ∀ r ∈ G, s.isInvalidated r = false
  unstored : update = false → ∀ r ∈ G, ∀ record, s.object r = some (.unmanaged record) →
    ∀ key, record.key env.primaryKey = some key → ∀ row, s.rowKey env row ≠ some key
  ranked : ∀ r ∈ G, ∀ record, s.object r = some (.unmanaged record) →
    ∀ t ∈ record.targets, rank t < rank r

namespace Ready

variable {rank : Ref → Nat}

/-- What is ready descends. -/
theorem descending (h : Ready env update rank G s) : Descending rank G s :=
  ⟨h.closed, h.known, h.valid, h.ranked⟩

/-- What is still to be added can be added. -/
theorem adds (h : Ready env update rank G s) (hadds : Adds env update G s t) :
    Ready env update rank G t where
  toAddable := hadds.addable h.toAddable
  known r hr := hadds.known (h.known r hr)
  ranked r hr record hrecord := h.ranked r hr record (hadds.unmanaged r record hrecord)
  unstored hupdate r hr record hrecord key hkey row hrow :=
    h.unstored hupdate r hr record (hadds.unmanaged r record hrecord) key hkey row
      ((hadds.rowKey h.toAddable hr hrecord hkey row).mp hrow)
  valid r hr := hadds.valid (h.known r hr) (h.valid r hr)

/-- While the targets of an object are added, everything else can still be added. -/
theorem created (h : Ready env update rank G s) {r : Ref} {record : Record Scalar Ref}
    {row : RowId} (hmem : r ∈ G) (hr : s.object r = some (.unmanaged record))
    (hcreated : Created env update record s s' row) :
    Ready env update rank G (s'.promote r record.className row) := by
  have hgrows := h.descending.grows (hcreated.grows hr)
  refine ⟨hcreated.addable h.toAddable hr, hgrows.known, hgrows.valid, ?_, hgrows.ranked⟩
  -- the new row has a key of its own, so it takes none away
  intro hupdate u hu record' hrecord' key hkey k hk
  obtain ⟨hne, hrecord⟩ := hcreated.before hr hrecord'
  by_cases hkr : k = row
  · subst hkr
    exact hcreated.rowKey_ne h.toAddable hmem hr hu hne hrecord hkey hk
  · exact h.unstored hupdate u hu record' hrecord key hkey k
      ((hcreated.rowKey_of_ne hkr).symm.trans hk)

/-- **Adding an object that is ready returns.** -/
theorem addObject_converges [DecidableEq Scalar] {r : Ref} (hmem : r ∈ G)
    (h : Ready env update rank G s) :
    ∃ t, Outcome.Converges (fun fuel => addObject env update fuel r s) t := by
  refine QBRepository.addObject_converges (I := Ready env update rank G)
    (fun _ => descending) ?_ ?_ hmem h
  · intro s r record hs hr hobject
    obtain ⟨row, s', hcreate⟩ := createRow_total fun hupdate =>
      hs.unstored hupdate r hr record hobject
    exact ⟨row, s', hcreate, hs.created hr hobject (createRow_spec hcreate)⟩
  · intro fuel r s t hs hr hcall
    exact hs.adds (addObject_adds fuel hr hs.toAddable hcall)

end Ready

end QBRepository
