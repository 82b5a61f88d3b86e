import QBRepository.Realm.ObjectStore

namespace QBRepository

/-!
# What adding objects does

`Adds` relates a Realm to what it becomes when some objects of a graph `G` are added: each of
them is stored in a row of its own, with links to the rows of its targets, and nothing else
changes.  The relation is transitive, although the targets of an object are added while its row
is still without properties.

* `Addable` — the graph;
* `Stored`, `Adds` — the relation;
* `Adds.refl`, `Adds.trans` — adding nothing, and adding more.
-/

variable {Scalar : Type}

/-- The primary key of a row. -/
def Realm.rowKey (env : RealmEnvironment Scalar) (s : Realm Scalar) (row : RowId) :
    Option (String × Scalar) :=
  (s.rows.get row).bind fun record => record.key env.primaryKey

/-- The row of an accessor has not been deleted. -/
def Realm.Intact (s : Realm Scalar) (r : Ref) : Prop :=
  ∀ className row, s.object r = some (.managed className row) → row < s.rows.next →
    s.rows.get row ≠ none

/-- The objects of `G` lead to objects of `G` only, and the unmanaged ones have distinct keys. -/
structure Addable (env : RealmEnvironment Scalar) (G : Set Ref) (s : Realm Scalar) : Prop where
  closed : ∀ r ∈ G, ∀ record, s.object r = some (.unmanaged record) → ∀ t ∈ record.targets, t ∈ G
  distinct : ∀ r ∈ G, ∀ r' ∈ G, r ≠ r' → ∀ record record',
    s.object r = some (.unmanaged record) → s.object r' = some (.unmanaged record') →
    ∀ key, record.key env.primaryKey = some key → record'.key env.primaryKey ≠ some key

/-- An object that was unmanaged in `s` is stored in a row of `t`, which is new or had the key
    of the object. -/
structure Stored (env : RealmEnvironment Scalar) (update : Bool) (G : Set Ref)
    (s t : Realm Scalar) (r : Ref) (record : Record Scalar Ref) (row : RowId) : Prop where
  mem : r ∈ G
  object : t.object r = some (.managed record.className row)
  stored : t.rows.get row = some (record.filterMap t.rowOf)
  origin : s.rows.next ≤ row ∨
    ∃ key, record.key env.primaryKey = some key ∧ s.rowKey env row = some key
  unstored : update = false → ∀ key, record.key env.primaryKey = some key →
    ∀ row', s.rowKey env row' ≠ some key
  promoted : ∀ v ∈ record.targets, ∀ record', t.object v ≠ some (.unmanaged record')
  intact : ∀ v ∈ record.targets, s.Intact v

/-- `t` is `s` with some objects of `G` added. -/
structure Adds (env : RealmEnvironment Scalar) (update : Bool) (G : Set Ref)
    (s t : Realm Scalar) : Prop where
  next : s.rows.next ≤ t.rows.next
  managed : ∀ r className row, s.object r = some (.managed className row) →
    t.object r = some (.managed className row)
  unmanaged : ∀ r record, t.object r = some (.unmanaged record) →
    s.object r = some (.unmanaged record)
  stored : ∀ r record, s.object r = some (.unmanaged record) →
    t.object r = some (.unmanaged record) ∨ ∃ row, Stored env update G s t r record row
  rows : ∀ row, t.rows.get row = s.rows.get row ∨
    ∃ r record, s.object r = some (.unmanaged record) ∧ Stored env update G s t r record row
  injective : ∀ r r' record record' row, Stored env update G s t r record row →
    Stored env update G s t r' record' row → s.object r = some (.unmanaged record) →
    s.object r' = some (.unmanaged record') → r = r'

variable {env : RealmEnvironment Scalar} {update : Bool} {G : Set Ref} {s s' t : Realm Scalar}

namespace Realm

/-- The row of an accessor. -/
theorem rowOf_of_object {r : Ref} {className : String} {row : RowId}
    (h : s.object r = some (.managed className row)) : s.rowOf r = some row := by
  rw [rowOf, h]

/-- A row with a key has been allocated. -/
theorem lt_next_of_rowKey {row : RowId} {key : String × Scalar} (h : s.rowKey env row = some key) :
    row < s.rows.next := by
  obtain ⟨record, hrow, _⟩ := Option.bind_eq_some_iff.mp h
  exact s.rows.lt_next_of_get hrow

end Realm

/-- With fewer unmanaged objects, there is less to add. -/
theorem Addable.mono (hs : Addable env G s) (h : ∀ r record,
    t.object r = some (.unmanaged record) → s.object r = some (.unmanaged record)) :
    Addable env G t where
  closed r hr record hrecord := hs.closed r hr record (h r record hrecord)
  distinct r hr r' hr' hne record record' hrecord hrecord' :=
    hs.distinct r hr r' hr' hne record record' (h r record hrecord) (h r' record' hrecord')

/-! ### Stored objects -/

namespace Stored

variable {r : Ref} {record : Record Scalar Ref} {row : RowId}

/-- A stored object is an accessor of its row. -/
theorem rowOf (h : Stored env update G s t r record row) : t.rowOf r = some row :=
  Realm.rowOf_of_object h.object

/-- What is stored for some objects is stored for more. -/
theorem mono {G' : Set Ref} (h : Stored env update G s t r record row) (hG : G ⊆ G') :
    Stored env update G' s t r record row :=
  ⟨hG h.mem, h.object, h.stored, h.origin, h.unstored, h.promoted, h.intact⟩

/-- The row has the key of the object. -/
theorem rowKey (h : Stored env update G s t r record row) :
    t.rowKey env row = record.key env.primaryKey := by
  rw [Realm.rowKey, h.stored, Option.bind_some, Record.key_filterMap]

/-- Only rows that exist or are new are used. -/
theorem get_ne_none (h : Stored env update G s t r record row) (hlt : row < s.rows.next) :
    s.rows.get row ≠ none := by
  rcases h.origin with hle | ⟨key, _, hkey⟩
  · exact absurd hlt (Nat.not_lt.mpr hle)
  · obtain ⟨_, hrow, _⟩ := Option.bind_eq_some_iff.mp hkey
    exact hrow ▸ Option.some_ne_none _

/-- No other object of the graph is stored in a row with the key of this one. -/
theorem rowKey_ne (h : Stored env update G s t r record row) (hs : Addable env G s)
    (hr : s.object r = some (.unmanaged record)) {r' : Ref} (hr' : r' ∈ G) (hne : r ≠ r')
    {record' : Record Scalar Ref} (hrecord' : s.object r' = some (.unmanaged record'))
    {key : String × Scalar} (hkey : record'.key env.primaryKey = some key) :
    t.rowKey env row ≠ some key := by
  rw [h.rowKey]
  exact hs.distinct r' hr' r h.mem hne.symm record' record hrecord' hr key hkey

end Stored

namespace Adds

/-- Nothing is added. -/
theorem refl (env : RealmEnvironment Scalar) (update : Bool) (G : Set Ref) (s : Realm Scalar) :
    Adds env update G s s where
  next := le_rfl
  managed _ _ _ h := h
  unmanaged _ _ h := h
  stored _ _ h := Or.inl h
  rows _ := Or.inl rfl
  injective r r' record _ _ h _ hr _ := by
    rw [h.object] at hr
    cases hr

/-- An object that has a row afterwards is stored there. -/
theorem stored_of_rowOf (h : Adds env update G s t) {r : Ref} {record : Record Scalar Ref}
    (hr : s.object r = some (.unmanaged record)) {row : RowId} (hrow : t.rowOf r = some row) :
    Stored env update G s t r record row := by
  rcases h.stored r record hr with hsame | ⟨row', hstored⟩
  · rw [Realm.rowOf, hsame] at hrow
    cases hrow
  · obtain rfl : row = row' := Option.some.inj (hrow.symm.trans hstored.rowOf)
    exact hstored

/-- A known object stays known. -/
theorem known (h : Adds env update G s t) {r : Ref} (hr : s.object r ≠ none) :
    t.object r ≠ none := by
  obtain ⟨object, hobject⟩ := Option.ne_none_iff_exists'.mp hr
  cases object with
  | managed className row => exact h.managed r className row hobject ▸ Option.some_ne_none _
  | unmanaged record =>
    rcases h.stored r record hobject with hsame | ⟨row, hstored⟩
    · exact hsame ▸ Option.some_ne_none _
    · exact hstored.object ▸ Option.some_ne_none _

/-- No row comes back. -/
theorem live (h : Adds env update G s t) {row : RowId} (hlt : row < s.rows.next)
    (hrow : t.rows.get row ≠ none) : s.rows.get row ≠ none := by
  rcases h.rows row with hsame | ⟨r, record, _, hstored⟩
  · rwa [← hsame]
  · exact hstored.get_ne_none hlt

/-- What is intact afterwards was so before. -/
theorem intact (h : Adds env update G s t) {r : Ref} (hr : t.Intact r) : s.Intact r :=
  fun className row hobject hlt => h.live hlt (hr className row
    (h.managed r className row hobject) (Nat.lt_of_lt_of_le hlt h.next))

/-- No row is lost. -/
theorem kept (h : Adds env update G s t) {row : RowId} (hrow : s.rows.get row ≠ none) :
    t.rows.get row ≠ none := by
  rcases h.rows row with hsame | ⟨r, record, _, hstored⟩
  · rwa [hsame]
  · exact hstored.stored ▸ Option.some_ne_none _

/-- An object that is not invalidated stays so. -/
theorem valid (h : Adds env update G s t) {r : Ref} (hr : s.object r ≠ none)
    (hvalid : s.isInvalidated r = false) : t.isInvalidated r = false := by
  rw [Realm.isInvalidated_eq_false]
  intro className row hobject
  obtain ⟨object, hbefore⟩ := Option.ne_none_iff_exists'.mp hr
  cases object with
  | managed className' row' =>
    have hsame := h.managed r className' row' hbefore
    rw [hobject, Option.some.injEq, RLMObject.managed.injEq] at hsame
    obtain ⟨rfl, rfl⟩ := hsame
    exact h.kept (Realm.isInvalidated_eq_false.mp hvalid className row hbefore)
  | unmanaged record =>
    rcases h.stored r record hbefore with hsame | ⟨row', hstored⟩
    · rw [hobject] at hsame
      cases hsame
    · have hrow := hstored.object
      rw [hobject, Option.some.injEq, RLMObject.managed.injEq] at hrow
      obtain ⟨-, rfl⟩ := hrow
      exact hstored.stored ▸ Option.some_ne_none _

/-- What adds some objects adds them among more. -/
theorem mono {G' : Set Ref} (h : Adds env update G s t) (hG : G ⊆ G') :
    Adds env update G' s t where
  next := h.next
  managed := h.managed
  unmanaged := h.unmanaged
  stored r record hr := (h.stored r record hr).imp_right fun ⟨row, hstored⟩ =>
    ⟨row, hstored.mono hG⟩
  rows row := (h.rows row).imp_right fun ⟨r, record, hr, hstored⟩ =>
    ⟨r, record, hr, hstored.mono hG⟩
  injective r r' record record' row hstored hstored' hr hr' :=
    h.injective r r' record record' row (h.stored_of_rowOf hr hstored.rowOf)
      (h.stored_of_rowOf hr' hstored'.rowOf) hr hr'

/-- Reading objects adds nothing. -/
theorem of_keeps (h : s.KeepsObjects t) (hnext : t.rows.next = s.rows.next)
    (hrows : t.rows.get = s.rows.get) : Adds env update G s t where
  next := hnext.ge
  managed r className row hr := h.object r _ hr
  unmanaged := h.unmanaged
  stored r record hr := Or.inl (h.object r _ hr)
  rows row := Or.inl (congrFun hrows row)
  injective r _ record _ _ hstored _ hr _ := by
    have hsame := h.object r _ hr
    rw [hstored.object] at hsame
    cases hsame

/-- The class of an object stays the same. -/
theorem className (h : Adds env update G s t) {r : Ref} {className : String}
    (hr : s.className r = some className) : t.className r = some className := by
  rw [Realm.className] at hr
  rw [Realm.className]
  split at hr
  next record hobject =>
    rcases h.stored r record hobject with hsame | ⟨row, hstored⟩
    · rw [hsame]
      exact hr
    · rw [hstored.object]
      exact hr
  next row hobject =>
    rw [h.managed r _ row hobject]
    exact hr
  next => cases hr

/-- What is left can be added. -/
theorem addable (h : Adds env update G s t) (hs : Addable env G s) : Addable env G t :=
  hs.mono h.unmanaged

/-- The key of an object that is still to be added is in the same rows as before. -/
theorem rowKey (h : Adds env update G s t) (hs : Addable env G s) {r : Ref} (hr : r ∈ G)
    {record : Record Scalar Ref} (hrecord : t.object r = some (.unmanaged record))
    {key : String × Scalar} (hkey : record.key env.primaryKey = some key) (row : RowId) :
    t.rowKey env row = some key ↔ s.rowKey env row = some key := by
  rcases h.rows row with hsame | ⟨r', record', hr', hstored⟩
  · rw [Realm.rowKey, Realm.rowKey, hsame]
  · have hne : r' ≠ r := by
      rintro rfl
      rw [hstored.object] at hrecord
      cases hrecord
    have hrecord₀ := h.unmanaged r record hrecord
    refine iff_of_false (hstored.rowKey_ne hs hr' hr hne hrecord₀ hkey) fun hrow => ?_
    rcases hstored.origin with hle | ⟨key', hkey', hrow'⟩
    · exact absurd (Realm.lt_next_of_rowKey hrow) (Nat.not_lt.mpr hle)
    · rw [hrow, Option.some.injEq] at hrow'
      exact hs.distinct r hr r' hstored.mem hne.symm record record' hrecord₀ hr' key hkey
        (hrow' ▸ hkey')

end Adds

/-! ### Adding more objects -/

namespace Stored

variable {r : Ref} {record : Record Scalar Ref} {row : RowId}

/-- Objects added before do not matter for one that was unmanaged after them. -/
theorem of_adds (h : Stored env update G s' t r record row) (hs : Addable env G s)
    (hadds : Adds env update G s s') (hr : s'.object r = some (.unmanaged record)) :
    Stored env update G s t r record row where
  mem := h.mem
  object := h.object
  stored := h.stored
  promoted := h.promoted
  origin := by
    rcases h.origin with hle | ⟨key, hkey, hrow⟩
    · exact Or.inl (hadds.next.trans hle)
    · exact Or.inr ⟨key, hkey, (hadds.rowKey hs h.mem hr hkey row).mp hrow⟩
  unstored := by
    intro hupdate key hkey row' hrow'
    exact h.unstored hupdate key hkey row' ((hadds.rowKey hs h.mem hr hkey row').mpr hrow')
  intact v hv := hadds.intact (h.intact v hv)

/-- Objects added later are not stored in the row. -/
theorem row_ne (h : Stored env update G s s' r record row) (hs : Addable env G s)
    (hr : s.object r = some (.unmanaged record)) (h₀ : Adds env update G s s') {r' : Ref}
    {record' : Record Scalar Ref} {row' : RowId} (hr' : s'.object r' = some (.unmanaged record'))
    (h' : Stored env update G s' t r' record' row') : row ≠ row' := by
  rintro rfl
  have hne : r ≠ r' := by
    rintro rfl
    rw [h.object] at hr'
    cases hr'
  rcases h'.origin with hle | ⟨key, hkey, hrow⟩
  · exact absurd (s'.rows.lt_next_of_get h.stored) (Nat.not_lt.mpr hle)
  · exact h.rowKey_ne hs hr h'.mem hne (h₀.unmanaged r' record' hr') hkey hrow

/-- Objects added later do not change the row. -/
theorem adds (h : Stored env update G s s' r record row) (hs : Addable env G s)
    (hr : s.object r = some (.unmanaged record)) (h₀ : Adds env update G s s')
    (hadds : Adds env update G s' t) : Stored env update G s t r record row where
  mem := h.mem
  object := hadds.managed r record.className row h.object
  origin := h.origin
  unstored := h.unstored
  intact := h.intact
  promoted v hv record' hobject := h.promoted v hv record' (hadds.unmanaged v record' hobject)
  stored := by
    rcases hadds.rows row with hsame | ⟨r', record', hr', hstored⟩
    · rw [hsame, h.stored]
      refine congrArg some (Record.filterMap_congr fun v hv => ?_)
      -- the targets have their rows already
      rw [Realm.rowOf, Realm.rowOf]
      obtain ⟨object, hobject⟩ :=
        Option.ne_none_iff_exists'.mp (h₀.known (s.heap.closed r record hr v hv))
      cases object with
      | unmanaged record' => exact absurd hobject (h.promoted v hv record')
      | managed className row' => rw [hobject, hadds.managed v className row' hobject]
    · exact absurd rfl (h.row_ne hs hr h₀ hr' hstored)

end Stored

/-- **Adding one set of objects after another** adds both. -/
theorem Adds.trans (hs : Addable env G s) (h : Adds env update G s s')
    (h' : Adds env update G s' t) : Adds env update G s t := by
  -- an object with a row has got it before `s'` or after it
  have hsplit : ∀ r record row, s.object r = some (.unmanaged record) → t.rowOf r = some row →
      Stored env update G s s' r record row ∨
        s'.object r = some (.unmanaged record) ∧ Stored env update G s' t r record row := by
    intro r record row hr hrow
    rcases h.stored r record hr with hsame | ⟨row', hfirst⟩
    · exact Or.inr ⟨hsame, h'.stored_of_rowOf hsame hrow⟩
    · obtain rfl : row = row' :=
        Option.some.inj (hrow.symm.trans (hfirst.adds hs hr h h').rowOf)
      exact Or.inl hfirst
  refine ⟨h.next.trans h'.next, ?_, ?_, ?_, ?_, ?_⟩
  · exact fun r className row hr => h'.managed r className row (h.managed r className row hr)
  · exact fun r record hr => h.unmanaged r record (h'.unmanaged r record hr)
  · intro r record hr
    rcases h.stored r record hr with hsame | ⟨row, hfirst⟩
    · exact (h'.stored r record hsame).imp_right fun ⟨row, hsecond⟩ =>
        ⟨row, hsecond.of_adds hs h hsame⟩
    · exact Or.inr ⟨row, hfirst.adds hs hr h h'⟩
  · intro row
    rcases h'.rows row with hsame' | ⟨r, record, hr, hsecond⟩
    · rcases h.rows row with hsame | ⟨r, record, hr, hfirst⟩
      · exact Or.inl (hsame'.trans hsame)
      · exact Or.inr ⟨r, record, hr, hfirst.adds hs hr h h'⟩
    · exact Or.inr ⟨r, record, h.unmanaged r record hr, hsecond.of_adds hs h hr⟩
  · intro r r' record record' row hrow hrow' hr hr'
    rcases hsplit r record row hr hrow.rowOf with hfirst | ⟨hr₁, hsecond⟩
    · rcases hsplit r' record' row hr' hrow'.rowOf with hfirst' | ⟨hr₁', hsecond'⟩
      · exact h.injective r r' record record' row hfirst hfirst' hr hr'
      · exact absurd rfl (hfirst.row_ne hs hr h hr₁' hsecond')
    · rcases hsplit r' record' row hr' hrow'.rowOf with hfirst' | ⟨hr₁', hsecond'⟩
      · exact absurd rfl (hfirst'.row_ne hs hr' h hr₁ hsecond)
      · exact h'.injective r r' record record' row hsecond hsecond' hr₁ hr₁'

end QBRepository
