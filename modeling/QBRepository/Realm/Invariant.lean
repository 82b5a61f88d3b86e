import QBRepository.Realm.Create
import QBRepository.Realm.Transaction

namespace QBRepository

/-!
# What a Realm keeps

A repository shares its Realm with everyone who holds an object of it.  Whatever they call, the
rows stay consistent, and no object changes its class or its primary key.

* `Realm.Consistent` — keys are unique, links lead to rows, accessors know their class;
* `Evolves` — what is gone stays gone, and what is there stays what it is;
* `Keeps` — both, for the states before and after a call;
* `addObject_keeps`, `cascadeLoop_keeps` — the recursion and the loop, from their primitive changes;
* `RealmRepository.run_keeps` — every run, with transactions at any depth.
-/

variable {Scalar : Type}

/-- The rows and the objects of a Realm fit together. -/
structure Realm.Consistent (env : RealmEnvironment Scalar) (s : Realm Scalar) : Prop where
  unique : s.UniqueKeys env
  alive : s.LinksAlive
  /-- rows of a class with a primary key have one -/
  keyed : ∀ row record, s.rows.get row = some record →
    (env.primaryKey record.className).isSome = true → record.key env.primaryKey ≠ none
  /-- so do unmanaged objects -/
  keyedObject : ∀ r record, s.object r = some (.unmanaged record) →
    (env.primaryKey record.className).isSome = true → record.key env.primaryKey ≠ none
  allocated : ∀ r className row, s.object r = some (.managed className row) → row < s.rows.next
  typed : ∀ r className row record, s.object r = some (.managed className row) →
    s.rows.get row = some record → record.className = className

/-- An object of `s` has become an accessor of a row with its class and its key. -/
def Realm.AddedAs (env : RealmEnvironment Scalar) (t : Realm Scalar) (r : Ref)
    (record : Record Scalar Ref) (row : RowId) : Prop :=
  t.object r = some (.managed record.className row) ∧ row < t.rows.next ∧
    ∀ stored, t.rows.get row = some stored → stored.className = record.className ∧
      stored.key env.primaryKey = record.key env.primaryKey

/-- Rows that are gone stay gone, the others keep their class and their key, accessors keep
    their row, and other objects become accessors at most. -/
structure Evolves (env : RealmEnvironment Scalar) (s t : Realm Scalar) : Prop where
  next : s.rows.next ≤ t.rows.next
  gone : ∀ row, row < s.rows.next → s.rows.get row = none → t.rows.get row = none
  same : ∀ row record stored, s.rows.get row = some record → t.rows.get row = some stored →
    stored.className = record.className ∧ stored.key env.primaryKey = record.key env.primaryKey
  managed : ∀ r className row, s.object r = some (.managed className row) →
    t.object r = some (.managed className row)
  added : ∀ r record, s.object r = some (.unmanaged record) →
    t.object r = some (.unmanaged record) ∨ ∃ row, t.AddedAs env r record row
  unmanaged : ∀ r record, t.object r = some (.unmanaged record) →
    s.object r = some (.unmanaged record)

/-- A consistent Realm stays consistent, and evolves. -/
def Keeps (env : RealmEnvironment Scalar) (s t : Realm Scalar) : Prop :=
  s.Consistent env → t.Consistent env ∧ Evolves env s t

variable {env : RealmEnvironment Scalar} {update : Bool} {s s' t : Realm Scalar}

namespace Evolves

/-- Nothing happens. -/
theorem refl (env : RealmEnvironment Scalar) (s : Realm Scalar) : Evolves env s s where
  next := le_rfl
  gone _ _ h := h
  same row record stored h h' := by
    obtain rfl := Option.some.inj (h.symm.trans h')
    exact ⟨rfl, rfl⟩
  managed _ _ _ h := h
  added _ _ h := Or.inl h
  unmanaged _ _ h := h

/-- A row that is there was there in between, for it would not have come back. -/
theorem between (h' : Evolves env s' t) {row : RowId} {stored : Record Scalar RowId}
    (hlt : row < s'.rows.next) (hrow : t.rows.get row = some stored) :
    ∃ middle, s'.rows.get row = some middle ∧ stored.className = middle.className ∧
      stored.key env.primaryKey = middle.key env.primaryKey := by
  cases hmiddle : s'.rows.get row with
  | none =>
    rw [h'.gone row hlt hmiddle] at hrow
    cases hrow
  | some middle => exact ⟨middle, rfl, h'.same row middle stored hmiddle hrow⟩

/-- What evolves over two stretches does so over both: a row that is gone in between does not come
    back, and so the class and the key of a row are those it had at first. -/
theorem trans (h : Evolves env s s') (h' : Evolves env s' t) : Evolves env s t where
  next := h.next.trans h'.next
  gone row hlt hrow := h'.gone row (Nat.lt_of_lt_of_le hlt h.next) (h.gone row hlt hrow)
  same row record stored hrow hstored := by
    have hlt : row < s.rows.next := FreshMap.lt_next_of_get _ hrow
    obtain ⟨middle, hmiddle, hclass, hkey⟩ :=
      h'.between (Nat.lt_of_lt_of_le hlt h.next) hstored
    obtain ⟨hclass', hkey'⟩ := h.same row record middle hrow hmiddle
    exact ⟨hclass.trans hclass', hkey.trans hkey'⟩
  managed r className row hr := h'.managed r className row (h.managed r className row hr)
  added r record hr := by
    rcases h.added r record hr with hsame | ⟨row, hobject, hlt, hstored⟩
    · exact h'.added r record hsame
    · refine Or.inr ⟨row, h'.managed r _ row hobject, Nat.lt_of_lt_of_le hlt h'.next, ?_⟩
      intro stored hrow
      obtain ⟨middle, hmiddle, hclass, hkey⟩ := h'.between hlt hrow
      obtain ⟨hclass', hkey'⟩ := hstored middle hmiddle
      exact ⟨hclass.trans hclass', hkey.trans hkey'⟩
  unmanaged r record hr := h.unmanaged r record (h'.unmanaged r record hr)

/-- Rows are only deleted, or get other links. -/
theorem of_keeps (h : s.KeepsObjects t) (hnext : t.rows.next = s.rows.next)
    (hrows : ∀ row stored, t.rows.get row = some stored → ∃ record,
      s.rows.get row = some record ∧ stored.className = record.className ∧
        stored.key env.primaryKey = record.key env.primaryKey) : Evolves env s t where
  next := hnext.ge
  gone row _ hrow := by
    by_contra hne
    obtain ⟨stored, hstored⟩ := Option.ne_none_iff_exists'.mp hne
    obtain ⟨record, hrecord, -⟩ := hrows row stored hstored
    rw [hrow] at hrecord
    cases hrecord
  same row record stored hrow hstored := by
    obtain ⟨record', hrow', hsame⟩ := hrows row stored hstored
    obtain rfl := Option.some.inj (hrow.symm.trans hrow')
    exact hsame
  managed r className row hr := h.object r _ hr
  added r record hr := Or.inl (h.object r _ hr)
  unmanaged := h.unmanaged

end Evolves

/-- Nothing happens. -/
theorem Keeps.refl (env : RealmEnvironment Scalar) (s : Realm Scalar) : Keeps env s s :=
  fun hs => ⟨hs, .refl env s⟩

/-- What two calls keep, they keep one after the other. -/
theorem Keeps.trans (h : Keeps env s s') (h' : Keeps env s' t) : Keeps env s t := by
  intro hs
  obtain ⟨hs', hevolves⟩ := h hs
  obtain ⟨ht, hevolves'⟩ := h' hs'
  exact ⟨ht, hevolves.trans hevolves'⟩

/-! ### Reading and deleting -/

namespace Realm

/-- Rows are only deleted, or get other links that lead to rows. -/
theorem Consistent.of_rows (hs : s.Consistent env) (hheap : t.heap = s.heap)
    (hnext : t.rows.next = s.rows.next)
    (hrows : ∀ row stored, t.rows.get row = some stored → ∃ record,
      s.rows.get row = some record ∧ stored.className = record.className ∧
        stored.key env.primaryKey = record.key env.primaryKey)
    (halive : t.LinksAlive) : t.Consistent env ∧ Evolves env s t := by
  have hobject : t.object = s.object := by
    funext r
    rw [object, hheap, object]
  have hkey : ∀ row key, t.rowKey env row = some key → s.rowKey env row = some key := by
    intro row key h
    obtain ⟨stored, hstored, hkey⟩ := Option.bind_eq_some_iff.mp h
    obtain ⟨record, hrecord, -, hsame⟩ := hrows row stored hstored
    rw [rowKey, hrecord, Option.bind_some, ← hsame, hkey]
  refine ⟨⟨?_, halive, ?_, ?_, ?_, ?_⟩, .of_keeps (.of_heap hheap) hnext hrows⟩
  · exact fun row row' key h h' => hs.unique row row' key (hkey row key h) (hkey row' key h')
  · intro row stored hstored hclass
    obtain ⟨record, hrecord, hclass', hsame⟩ := hrows row stored hstored
    rw [hsame]
    exact hs.keyed row record hrecord (hclass' ▸ hclass)
  · exact fun r record hr => hs.keyedObject r record (hobject ▸ hr)
  · exact fun r className row hr => hnext ▸ hs.allocated r className row (hobject ▸ hr)
  · intro r className row stored hr hstored
    obtain ⟨record, hrecord, hclass, -⟩ := hrows row stored hstored
    rw [hclass]
    exact hs.typed r className row record (hobject ▸ hr) hrecord

/-- Beginning and ending transactions changes nothing. -/
theorem keeps_of_eq (hrows : t.rows = s.rows) (hheap : t.heap = s.heap) : Keeps env s t := by
  intro hs
  refine hs.of_rows hheap (by rw [hrows]) ?_ ?_
  · intro row stored hstored
    exact ⟨stored, hrows ▸ hstored, rfl, rfl⟩
  · rw [LinksAlive, hrows]
    exact hs.alive

/-- An object is known from before, or is the new accessor. -/
theorem object_accessorOf_cases {className : String} {row : RowId} {r : Ref}
    {object : RLMObject Scalar} (h : (s.accessorOf className row).2.object r = some object) :
    s.object r = some object ∨ object = .managed className row := by
  by_cases hr : r = s.heap.objects.next
  · subst hr
    rw [Realm.object, accessorOf, Heap.alloc, FreshMap.get_alloc_self] at h
    exact Or.inr (Option.some.inj h).symm
  · rw [Realm.object, accessorOf, Heap.alloc, FreshMap.get_alloc_of_ne _ _ hr] at h
    exact Or.inl h

/-- A new accessor of a row, for its class. -/
theorem Consistent.accessorOf (hs : s.Consistent env) {className : String} {row : RowId}
    (hlt : row < s.rows.next)
    (hclass : ∀ record, s.rows.get row = some record → record.className = className) :
    (s.accessorOf className row).2.Consistent env ∧
      Evolves env s (s.accessorOf className row).2 := by
  have hreads := s.extends_accessorOf className row
  refine ⟨⟨hs.unique, hs.alive, hs.keyed, ?_, ?_, ?_⟩, .of_keeps hreads.toKeepsObjects rfl ?_⟩
  · exact fun r record hr => hs.keyedObject r record (hreads.unmanaged r record hr)
  · intro r className' row' hr
    rcases object_accessorOf_cases hr with hr | hnew
    · exact hs.allocated r className' row' hr
    · cases hnew
      exact hlt
  · intro r className' row' record hr hrow
    rcases object_accessorOf_cases hr with hr | hnew
    · exact hs.typed r className' row' record hr hrow
    · cases hnew
      exact hclass record hrow
  · exact fun row stored hstored => ⟨stored, hstored, rfl, rfl⟩

/-- Reading a row keeps the Realm. -/
theorem keeps_accessor {row : RowId} (hlt : row < s.rows.next) :
    Keeps env s (s.accessor row).2 := by
  intro hs
  refine hs.accessorOf hlt fun record hrow => ?_
  rw [hrow]

/-- So does reading many. -/
theorem keeps_accessors {rows : List RowId} (hlt : ∀ row ∈ rows, row < s.rows.next) :
    Keeps env s (s.accessors rows).2 := by
  induction rows generalizing s with
  | nil => exact .refl env s
  | cons row rows ih =>
    refine (keeps_accessor (hlt row List.mem_cons_self)).trans (ih fun row' hrow' => ?_)
    exact hlt row' (List.mem_cons_of_mem row hrow')

/-- Reading the links of an object. -/
theorem keeps_links (s : Realm Scalar) (r : Ref) : Keeps env s (s.links r).2 := by
  intro hs
  rw [links]
  split
  · exact Keeps.refl env s hs
  · split
    next record hrow =>
      refine keeps_accessors (fun row htarget => ?_) hs
      obtain ⟨stored, hstored⟩ := Option.ne_none_iff_exists'.mp (hs.alive _ record hrow row htarget)
      exact FreshMap.lt_next_of_get _ hstored
    · exact Keeps.refl env s hs
  · exact Keeps.refl env s hs

/-- What a row has been before the deletion of another one. -/
theorem get_deleteRow {row k : RowId} {stored : Record Scalar RowId}
    (h : (s.deleteRow row).rows.get k = some stored) : k ≠ row ∧ ∃ record,
      s.rows.get k = some record ∧
        record.filterMap (fun t => if t = row then none else some t) = stored := by
  obtain ⟨record, hrecord, h⟩ := Option.bind_eq_some_iff.mp h
  by_cases hk : k = row
  · simp [hk] at h
  · exact ⟨hk, record, hrecord, by simpa [hk] using h⟩

/-- Deleting a row keeps the Realm: the links to it are gone as well. -/
theorem keeps_deleteRow (s : Realm Scalar) (row : RowId) : Keeps env s (s.deleteRow row) := by
  intro hs
  refine hs.of_rows rfl rfl ?_ ?_
  · intro k stored hstored
    obtain ⟨-, record, hrecord, rfl⟩ := get_deleteRow hstored
    exact ⟨record, hrecord, rfl, Record.key_filterMap _ _ _⟩
  · intro k stored hstored v hv
    obtain ⟨-, record, hrecord, rfl⟩ := get_deleteRow hstored
    rw [Record.targets_filterMap] at hv
    obtain ⟨v', hv', hkept⟩ := List.mem_filterMap.mp hv
    split at hkept
    · cases hkept
    next hne =>
      obtain rfl := Option.some.inj hkept
      obtain ⟨target, htarget⟩ := Option.ne_none_iff_exists'.mp (hs.alive k record hrecord v' hv')
      -- the rows that are linked to are still there
      show (s.rows.get v').bind _ ≠ none
      simp [htarget, hne]

/-- So does deleting the row of an element. -/
theorem keeps_deleteMain (s : Realm Scalar) (element : Ref) :
    Keeps env s (s.deleteMain element) := by
  rw [deleteMain]
  split
  · exact keeps_deleteRow s _
  · exact .refl env s
  · exact .refl env s

end Realm

/-! ### Adding -/

section Add

variable [DecidableEq Scalar]

/-- The row of an object is the one that has its key, or a new one. -/
theorem createRow_cases {record : Record Scalar Ref} {row : RowId}
    (h : s.createRow env update record = .returns (row, s')) :
    (∃ key, record.key env.primaryKey = some key ∧ s.rowKey env row = some key ∧ s' = s) ∨
    (∀ key, record.key env.primaryKey = some key → ∀ k, s.rowKey env k ≠ some key) ∧
      row = s.rows.next ∧
      s' = { s with rows := s.rows.alloc (record.filterMap fun _ => none) } := by
  rw [Realm.createRow] at h
  split at h
  next row' hfind =>
    obtain ⟨key, hkey, hfind⟩ := Option.bind_eq_some_iff.mp hfind
    split at h
    · obtain ⟨rfl, rfl⟩ := Prod.mk.inj (Outcome.returns.inj h)
      exact Or.inl ⟨key, hkey, Realm.rowKey_of_find hfind, rfl⟩
    · cases h
  next hnone =>
    obtain ⟨rfl, rfl⟩ := Prod.mk.inj (Outcome.returns.inj h)
    refine Or.inr ⟨fun key hkey => ?_, rfl, rfl⟩
    rw [hkey, Option.bind_some] at hnone
    exact Realm.find_eq_none.mp hnone

/-- The row an object is stored in has its class and its key. -/
theorem createRow_stored {record : Record Scalar Ref} {row : RowId}
    (h : s.createRow env update record = .returns (row, s')) :
    ∃ stored, s'.rows.get row = some stored ∧ stored.className = record.className ∧
      stored.key env.primaryKey = record.key env.primaryKey := by
  rcases createRow_cases h with ⟨key, hkey, hrow, rfl⟩ | ⟨-, rfl, rfl⟩
  · obtain ⟨stored, hstored, hkey'⟩ := Option.bind_eq_some_iff.mp hrow
    refine ⟨stored, hstored, ?_, hkey'.trans hkey.symm⟩
    obtain ⟨hclass, -⟩ := Record.class_of_key hkey
    obtain ⟨hclass', -⟩ := Record.class_of_key hkey'
    exact hclass'.trans hclass.symm
  · exact ⟨_, s.rows.get_alloc_self _, rfl, Record.key_filterMap _ _ _⟩

omit [DecidableEq Scalar] in
/-- A new row. -/
theorem Realm.Consistent.alloc {record : Record Scalar RowId} (hs : s.Consistent env)
    (hnew : ∀ key, record.key env.primaryKey = some key → ∀ k, s.rowKey env k ≠ some key)
    (hkeyed : (env.primaryKey record.className).isSome = true → record.key env.primaryKey ≠ none)
    (htargets : record.targets = []) :
    ({ s with rows := s.rows.alloc record } : Realm Scalar).Consistent env := by
  have hrow : ∀ k stored, (s.rows.alloc record).get k = some stored →
      k = s.rows.next ∧ stored = record ∨ s.rows.get k = some stored := by
    intro k stored h
    by_cases hk : k = s.rows.next
    · rw [hk, FreshMap.get_alloc_self] at h
      exact Or.inl ⟨hk, (Option.some.inj h).symm⟩
    · rw [FreshMap.get_alloc_of_ne _ _ hk] at h
      exact Or.inr h
  have hkey : ∀ k key, ((s.rows.alloc record).get k).bind (Record.key env.primaryKey) = some key →
      k = s.rows.next ∧ record.key env.primaryKey = some key ∨ s.rowKey env k = some key := by
    intro k key h
    obtain ⟨stored, hstored, hkey⟩ := Option.bind_eq_some_iff.mp h
    rcases hrow k stored hstored with ⟨hk, rfl⟩ | hold
    · exact Or.inl ⟨hk, hkey⟩
    · exact Or.inr (by rw [Realm.rowKey, hold, Option.bind_some, hkey])
  refine ⟨?_, ?_, ?_, hs.keyedObject, ?_, ?_⟩
  · intro k k' key h h'
    rcases hkey k key h with ⟨hk, hnewKey⟩ | hold
    · rcases hkey k' key h' with ⟨hk', -⟩ | hold'
      · rw [hk, hk']
      · exact absurd hold' (hnew key hnewKey k')
    · rcases hkey k' key h' with ⟨-, hnewKey⟩ | hold'
      · exact absurd hold (hnew key hnewKey k)
      · exact hs.unique k k' key hold hold'
  · intro k stored hstored v hv
    rcases hrow k stored hstored with ⟨-, rfl⟩ | hold
    · rw [htargets] at hv
      cases hv
    · have halive := hs.alive k stored hold v hv
      obtain ⟨target, htarget⟩ := Option.ne_none_iff_exists'.mp halive
      have hne : v ≠ s.rows.next := Nat.ne_of_lt (FreshMap.lt_next_of_get _ htarget)
      show (s.rows.alloc record).get v ≠ none
      rwa [FreshMap.get_alloc_of_ne _ _ hne]
  · intro k stored hstored hclass
    rcases hrow k stored hstored with ⟨-, rfl⟩ | hold
    · exact hkeyed hclass
    · exact hs.keyed k stored hold hclass
  · exact fun r className k hr => Nat.lt_succ_of_lt (hs.allocated r className k hr)
  · intro r className k stored hr hstored
    rcases hrow k stored hstored with ⟨hk, -⟩ | hold
    · exact absurd (hs.allocated r className k hr) (hk ▸ Nat.lt_irrefl k)
    · exact hs.typed r className k stored hr hold

/-- An object gets its row. -/
theorem keeps_createRow {record : Record Scalar Ref} {row : RowId}
    (hkeyed : (env.primaryKey record.className).isSome = true → record.key env.primaryKey ≠ none)
    (h : s.createRow env update record = .returns (row, s')) : Keeps env s s' := by
  intro hs
  rcases createRow_cases h with ⟨-, -, -, rfl⟩ | ⟨hnew, rfl, rfl⟩
  · exact Keeps.refl env _ hs
  · refine ⟨hs.alloc ?_ ?_ ?_, Nat.le_succ _, ?_, ?_, fun _ _ _ hr => hr, fun _ _ => Or.inl,
      fun _ _ hr => hr⟩
    · exact fun key hkey => hnew key (by rwa [Record.key_filterMap] at hkey)
    · rwa [Record.key_filterMap, Record.className_filterMap]
    · rw [Record.targets_filterMap, List.filterMap_eq_nil_iff]
      exact fun _ _ => rfl
    · intro row hlt hrow
      show (s.rows.alloc _).get row = none
      rwa [FreshMap.get_alloc_of_ne _ _ (Nat.ne_of_lt hlt)]
    · intro row record' stored hrow hstored
      have hlt : row < s.rows.next := FreshMap.lt_next_of_get _ hrow
      obtain rfl : record' = stored := by
        rw [← Option.some_inj, ← hrow, ← hstored]
        exact (FreshMap.get_alloc_of_ne _ _ (Nat.ne_of_lt hlt)).symm
      exact ⟨rfl, rfl⟩

omit [DecidableEq Scalar] in
/-- Then it becomes an accessor of this row. -/
theorem Realm.keeps_promote {r : Ref} {record : Record Scalar Ref} {row : RowId}
    {stored : Record Scalar RowId} (hr : s.object r = some (.unmanaged record))
    (hrow : s.rows.get row = some stored) (hclass : stored.className = record.className)
    (hkey : stored.key env.primaryKey = record.key env.primaryKey) :
    Keeps env s (s.promote r record.className row) := by
  intro hs
  have hself : (s.promote r record.className row).object r
      = some (.managed record.className row) := object_promote hr
  have hobject : ∀ u object, (s.promote r record.className row).object u = some object →
      s.object u = some object ∨ object = .managed record.className row := by
    intro u object hu
    by_cases hur : u = r
    · rw [hur, hself] at hu
      exact Or.inr (Option.some.inj hu).symm
    · rw [object_promote_of_ne hur] at hu
      exact Or.inl hu
  have hother : ∀ u object, s.object u = some object → object ≠ .unmanaged record ∨ u ≠ r →
      (s.promote r record.className row).object u = some object := by
    intro u object hu hne
    by_cases hur : u = r
    · rw [hur, hr, Option.some.injEq] at hu
      exact absurd hur (hne.resolve_left fun h => h hu.symm)
    · rwa [object_promote_of_ne hur]
  refine ⟨⟨hs.unique, hs.alive, hs.keyed, ?_, ?_, ?_⟩, le_rfl, fun _ _ h => h, ?_, ?_, ?_, ?_⟩
  · intro u record' hu
    exact hs.keyedObject u record' ((hobject u _ hu).resolve_right (by simp))
  · intro u className k hu
    rcases hobject u _ hu with hu | hnew
    · exact hs.allocated u className k hu
    · cases hnew
      exact FreshMap.lt_next_of_get _ hrow
  · intro u className k stored' hu hstored'
    rcases hobject u _ hu with hu | hnew
    · exact hs.typed u className k stored' hu hstored'
    · cases hnew
      obtain rfl := Option.some.inj (hrow.symm.trans hstored')
      exact hclass
  · exact (Evolves.refl env s).same
  · exact fun u className k hu => hother u _ hu (Or.inl (by simp))
  · intro u record' hu
    by_cases hur : u = r
    · subst hur
      obtain rfl : record = record' := by rw [hr] at hu; cases hu; rfl
      refine Or.inr ⟨row, hself, FreshMap.lt_next_of_get _ hrow, fun stored' hstored' => ?_⟩
      obtain rfl := Option.some.inj (hrow.symm.trans hstored')
      exact ⟨hclass, hkey⟩
    · exact Or.inl (hother u _ hu (Or.inr hur))
  · exact fun u record' hu => (hobject u _ hu).resolve_right (by simp)

omit [DecidableEq Scalar] in
/-- The row of an object gets its properties, once the objects it leads to have rows. -/
theorem Realm.keeps_setProperties {record : Record Scalar Ref} {row : RowId}
    {stored : Record Scalar RowId} (hrow : s.rows.get row = some stored)
    (hclass : stored.className = record.className)
    (hkey : stored.key env.primaryKey = record.key env.primaryKey)
    (htargets : ∀ v ∈ record.targets, ∀ k, s.rowOf v = some k → s.rows.get k ≠ none) :
    Keeps env s (s.setProperties row record) := by
  intro hs
  have hself : (s.setProperties row record).rows.get row = some (record.filterMap s.rowOf) :=
    get_setProperties_self (hrow.trans_ne (Option.some_ne_none _))
  have hget : ∀ k, s.rows.get k ≠ none → (s.setProperties row record).rows.get k ≠ none :=
    (Grows.setProperties s row record).rows
  refine hs.of_rows rfl rfl ?_ ?_
  · intro k stored' hstored'
    by_cases hk : k = row
    · subst hk
      obtain rfl := Option.some.inj (hself.symm.trans hstored')
      exact ⟨stored, hrow, hclass.symm, by rw [Record.key_filterMap, hkey]⟩
    · rw [get_setProperties_of_ne hk] at hstored'
      exact ⟨stored', hstored', rfl, rfl⟩
  · intro k stored' hstored' v hv
    by_cases hk : k = row
    · subst hk
      obtain rfl := Option.some.inj (hself.symm.trans hstored')
      rw [Record.targets_filterMap] at hv
      obtain ⟨u, hu, hrowOf⟩ := List.mem_filterMap.mp hv
      exact hget v (htargets u hu v hrowOf)
    · rw [get_setProperties_of_ne hk] at hstored'
      exact hget v (hs.alive k stored' hstored' v hv)

/-- An object that has been added has not lost its row. -/
theorem addObject_valid {fuel : Nat} {r : Ref} (hknown : s.object r ≠ none)
    (h : addObject env update fuel r s = .returns t) : t.isInvalidated r = false := by
  cases fuel with
  | zero => cases h
  | succ fuel =>
    have hvalid := (addObject_cases h).1
    exact (addObject_grows (fuel + 1) h).valid r hknown hvalid

/-- Neither have the objects it leads to. -/
theorem forEach_addObject_valid {fuel : Nat} {refs : List Ref}
    (hknown : ∀ v ∈ refs, s.object v ≠ none)
    (h : Outcome.forEach (addObject env update fuel) refs s = .returns t) :
    ∀ v ∈ refs, t.isInvalidated v = false := by
  have hall : Grows s t ∧ ∀ v ∈ refs, t.isInvalidated v = false := by
    refine Outcome.forEach_invariant
      (I := fun pre t => Grows s t ∧ ∀ v ∈ pre, t.isInvalidated v = false)
      ?_ ⟨.refl s, by simp⟩ h
    rintro pre v post s₁ s₂ hsplit ⟨hgrows, hpre⟩ hcall
    have hcalled := addObject_grows fuel hcall
    refine ⟨hgrows.trans hcalled, fun w hw => ?_⟩
    have hw' : s₁.object w ≠ none := hgrows.known w (hknown w (by
      rw [hsplit, List.mem_append, List.mem_cons]
      exact (List.mem_append.mp hw).imp id fun hw => Or.inl (List.mem_singleton.mp hw)))
    rcases List.mem_append.mp hw with hw | hw
    · exact hcalled.valid w hw' (hpre w hw)
    · rw [List.mem_singleton.mp hw] at hw' ⊢
      exact addObject_valid hw' hcall
  exact hall.2

omit [DecidableEq Scalar] in
/-- The row of a valid object is there. -/
theorem Realm.get_rowOf_of_valid {r : Ref} {row : RowId} (hrow : s.rowOf r = some row)
    (h : s.isInvalidated r = false) : s.rows.get row ≠ none := by
  obtain ⟨className, row', hobject⟩ := Realm.Managed.object ⟨row, hrow⟩
  obtain rfl := Option.some.inj ((Realm.rowOf_of_object hobject).symm.trans hrow)
  exact Realm.isInvalidated_eq_false.mp h className row' hobject

/-- **Adding an object**, with everything it leads to. -/
theorem addObject_keeps {fuel : Nat} {r : Ref}
    (h : addObject env update fuel r s = .returns t) : Keeps env s t := by
  induction fuel generalizing r s t with
  | zero => cases h
  | succ fuel ih =>
    rw [addObject] at h
    split at h
    · cases h
    split at h
    · exact Outcome.returns.inj h ▸ .refl env s
    · exact Outcome.returns.inj h ▸ .refl env s
    next record hobject =>
    obtain ⟨⟨row, s'⟩, hcreate, h⟩ := Outcome.bind_eq_returns.mp h
    obtain ⟨t', htargets, h⟩ := Outcome.bind_eq_returns.mp h
    obtain rfl := Outcome.returns.inj h
    intro hs
    -- the object gets its row and becomes an accessor of it
    obtain ⟨stored, hstored, hclass, hkey⟩ := createRow_stored hcreate
    have hcreated := createRow_spec hcreate
    have hobject' : s'.object r = some (.unmanaged record) := by
      rwa [Realm.object, hcreated.heap]
    have hbefore : Keeps env s (s'.promote r record.className row) :=
      (keeps_createRow (hs.keyedObject r record hobject) hcreate).trans
        (Realm.keeps_promote hobject' hstored hclass hkey)
    -- then its targets are added
    have hbetween : Keeps env (s'.promote r record.className row) t' :=
      Outcome.forEach_invariant (I := fun _ t => Keeps env (s'.promote r record.className row) t)
        (fun _ _ _ _ _ _ hpre hcall => hpre.trans (ih hcall)) (.refl env _) htargets
    obtain ⟨hs', hevolves⟩ := hbefore hs
    obtain ⟨-, hevolves'⟩ := hbetween hs'
    have hlive : t'.rows.get row ≠ none :=
      (forEach_addObject_grows htargets).rows row (hstored.trans_ne (Option.some_ne_none _))
    obtain ⟨stored', hstored'⟩ := Option.ne_none_iff_exists'.mp hlive
    obtain ⟨hclass', hkey'⟩ := hevolves'.same row stored stored' hstored hstored'
    have hvalid := forEach_addObject_valid (fun v hv => (hcreated.grows hobject).known v
      (s.heap.closed r record hobject v hv)) htargets
    -- and at last the row gets its properties
    have hafter : Keeps env t' (t'.setProperties row record) :=
      Realm.keeps_setProperties hstored' (hclass'.trans hclass) (hkey'.trans hkey)
        fun v hv k hk => Realm.get_rowOf_of_valid hk (hvalid v hv)
    exact (hbefore.trans (hbetween.trans hafter)) hs

end Add

/-! ### Cascades -/

/-- Resolving an element keeps the Realm. -/
theorem resolve_keeps {element : Ref} {deleteMainItem : Bool} {rest toBeDeleted : List Ref}
    (h : resolve env element deleteMainItem s rest = .returns (t, toBeDeleted)) :
    Keeps env s t := by
  obtain ⟨-, -, rfl⟩ := resolve_eq_returns.mp h
  cases deleteMainItem with
  | false => exact Realm.keeps_links s element
  | true => exact (Realm.keeps_links s element).trans (Realm.keeps_deleteMain _ element)

/-- **The loop**, whichever elements are taken. -/
theorem cascadeLoop_keeps {fuel : Nat} {toBeDeleted toBeDeleted' : List Ref}
    (h : cascadeLoop env fuel (s, toBeDeleted) = .returns (t, toBeDeleted')) : Keeps env s t := by
  refine (Outcome.loop_invariant (I := fun state => Keeps env s state.1) ?_ (.refl env s) h).1
  intro state next hstate hstep
  obtain ⟨s₁, pending⟩ := state
  have htake : Keeps env s₁ { s₁ with picks := s₁.picks + 1 } := Realm.keeps_of_eq rfl rfl
  rcases cascadeStep_cases hstep with
    ⟨-, hnone⟩ | ⟨element, rest, -, ⟨-, hskip⟩ | ⟨state', hresolve, hresolved⟩⟩
  · cases hnone
  · obtain rfl := Option.some.inj hskip
    exact hstate.trans htake
  · obtain rfl := Option.some.inj hresolved
    exact hstate.trans (htake.trans (resolve_keeps hresolve))

/-- So does deleting an object with what it leads to. -/
theorem cascadeDelete_keeps {fuel : Nat} {entity : Ref}
    (h : cascadeDelete env fuel entity s = .returns t) : Keeps env s t := by
  obtain ⟨toBeDeleted, -, h⟩ := Outcome.bind_eq_returns.mp h
  obtain ⟨⟨s', rest⟩, hloop, h⟩ := Outcome.bind_eq_returns.mp h
  obtain rfl := Outcome.returns.inj h
  exact cascadeLoop_keeps hloop

/-- So does deleting what it leads to. -/
theorem cascadeDeleteSubtypes_keeps {fuel : Nat} {entity : Ref}
    (h : cascadeDeleteSubtypes env fuel entity s = .returns t) : Keeps env s t := by
  obtain ⟨⟨s', toBeDeleted⟩, hresolve, h⟩ := Outcome.bind_eq_returns.mp h
  obtain ⟨⟨s'', rest⟩, hloop, h⟩ := Outcome.bind_eq_returns.mp h
  obtain rfl := Outcome.returns.inj h
  exact (resolve_keeps hresolve).trans (cascadeLoop_keeps hloop)

/-- A call for one object after another. -/
theorem forEach_keeps {α : Type} {f : α → Realm Scalar → Outcome (Realm Scalar)} {as : List α}
    (hf : ∀ a s t, f a s = .returns t → Keeps env s t) (h : Outcome.forEach f as s = .returns t) :
    Keeps env s t :=
  Outcome.forEach_invariant (I := fun _ t => Keeps env s t)
    (fun _ a _ s₁ s₂ _ hpre hcall => hpre.trans (hf a s₁ s₂ hcall)) (.refl env s) h

/-- A snapshot of rows of one class. -/
theorem deleteResultsCascading_keeps {fuel : Nat} {className : String} {rows : List RowId}
    (hrows : ∀ row ∈ rows, ∃ record, s.rows.get row = some record ∧ record.className = className)
    (h : deleteResultsCascading env fuel className rows s = .returns t) : Keeps env s t := by
  refine Outcome.forEach_invariant (I := fun _ t => Keeps env s t) ?_ (.refl env s) h
  intro pre row post s₁ s₂ hsplit hpre hcall hs
  obtain ⟨hs₁, hevolves⟩ := hpre hs
  obtain ⟨record, hrecord, hclass⟩ := hrows row (by simp [hsplit])
  have hlt : row < s₁.rows.next :=
    Nat.lt_of_lt_of_le (FreshMap.lt_next_of_get _ hrecord) hevolves.next
  -- the row may have been deleted meanwhile, but is not of another class
  have hread : Keeps env s₁ (s₁.accessorOf className row).2 := fun hs₁ =>
    hs₁.accessorOf hlt fun stored hstored =>
      (hevolves.same row record stored hrecord hstored).1.trans hclass
  exact (hpre.trans (hread.trans (cascadeDelete_keeps hcall))) hs

/-- So does storing a model after the cascade. -/
theorem addEntityCascading_keeps [DecidableEq Scalar] {fuel : Nat} {entity : Ref}
    (h : addEntityCascading env fuel update entity s = .returns t) : Keeps env s t := by
  obtain ⟨s', hcascade, hadd⟩ := Outcome.bind_eq_returns.mp h
  exact (cascadeDeleteSubtypes_keeps hcascade).trans (addObject_keeps (addObject_of_add hadd))

/-- A write transaction keeps what its block keeps, and ends. -/
theorem write_keeps {block : Realm Scalar → Outcome (Realm Scalar)}
    (hblock : ∀ t, block { s with inWriteTransaction := true } = .returns t →
      Keeps env { s with inWriteTransaction := true } t)
    (h : write block s = .returns t) :
    Keeps env s t ∧ t.inWriteTransaction = s.inWriteTransaction := by
  obtain ⟨hidle, t', hrun, rfl⟩ := of_write_eq_returns h
  have hbegin : Keeps env s { s with inWriteTransaction := true } := Realm.keeps_of_eq rfl rfl
  have hcommit : Keeps env t' { t' with inWriteTransaction := false } := Realm.keeps_of_eq rfl rfl
  exact ⟨hbegin.trans ((hblock t' hrun).trans hcommit), hidle.symm⟩

/-! ### Runs -/

namespace RealmRepository

variable {repo : RealmRepository} {fuel : Nat}

/-- The objects of the class are the rows of its records. -/
theorem mem_objects {row : RowId} : row ∈ repo.objects s ↔
    ∃ record, s.rows.get row = some record ∧ record.className = repo.className := by
  rw [objects, (s.order.perm _).mem_iff, List.mem_filter, FreshMap.mem_keys]
  cases s.rows.get row with
  | none => simp
  | some record => simp

/-- A command that writes in a transaction of its own. -/
theorem keeps_of_write {Result : Type} {block : Realm Scalar → Outcome (Realm Scalar)}
    {result : Result}
    (hblock : ∀ t, block { s with inWriteTransaction := true } = .returns t →
      Keeps env { s with inWriteTransaction := true } t)
    (h : (do
      let p ← (do
        let s ← write block s
        return (result, s) : Outcome (Result × Realm Scalar))
      return p.2) = Outcome.returns t) :
    Keeps env s t ∧ t.inWriteTransaction = s.inWriteTransaction := by
  obtain ⟨⟨result', t'⟩, hcall, h⟩ := Outcome.bind_eq_returns.mp h
  obtain ⟨t'', hwrite, hcall⟩ := Outcome.bind_eq_returns.mp hcall
  obtain ⟨-, rfl⟩ := Prod.mk.inj (Outcome.returns.inj hcall)
  obtain rfl := Outcome.returns.inj h
  exact write_keeps hblock hwrite

variable [DecidableEq Scalar]

mutual

/-- **Every command** keeps the Realm, and is in a transaction afterwards only if it was before. -/
theorem step_keeps : (command : RealmCommand) → (s t : Realm Scalar) →
    step repo env fuel command s = .returns t →
    Keeps env s t ∧ t.inWriteTransaction = s.inWriteTransaction
  | .create model, s, t, h => by
    rw [step] at h
    exact keeps_of_write (fun t ht => addEntityCascading_keeps ht) h
  | .createAll models, s, t, h => by
    rw [step] at h
    exact keeps_of_write
      (fun t ht => forEach_keeps (fun _ _ _ => addEntityCascading_keeps) ht) h
  | .update model, s, t, h => by
    by_cases hrefuses : RefusesUpdate repo env s model
    · rw [step, update_of_refuses hrefuses] at h
      obtain rfl := Outcome.returns.inj h
      exact ⟨.refl env s, rfl⟩
    · rw [step] at h
      rcases update_of_not_refuses hrefuses fuel with hraises | hwrites
      · rw [hraises] at h
        cases h
      · rw [hwrites] at h
        exact keeps_of_write (fun t ht => addEntityCascading_keeps ht) h
  | .delete model, s, t, h => by
    rw [step] at h
    exact keeps_of_write (fun t ht => cascadeDelete_keeps ht) h
  | .deleteList models, s, t, h => by
    rw [step] at h
    exact keeps_of_write (fun t ht => forEach_keeps (fun _ _ _ => cascadeDelete_keeps) ht) h
  | .deleteAll, s, t, h => by
    rw [step] at h
    exact keeps_of_write
      (fun t ht => deleteResultsCascading_keeps (fun row hrow => mem_objects.mp hrow) ht) h
  | .performTranscation transaction, s, t, h => by
    rw [step] at h
    exact keeps_of_write (fun t ht => (run_keeps transaction _ t ht).1) h

/-- **Every run** does. -/
theorem run_keeps : (commands : List RealmCommand) → (s t : Realm Scalar) →
    run repo env fuel commands s = .returns t →
    Keeps env s t ∧ t.inWriteTransaction = s.inWriteTransaction
  | [], s, t, h => by
    rw [run] at h
    obtain rfl := Outcome.returns.inj h
    exact ⟨.refl env s, rfl⟩
  | command :: commands, s, t, h => by
    rw [run] at h
    obtain ⟨s', hstep, h⟩ := Outcome.bind_eq_returns.mp h
    obtain ⟨hfirst, hidle⟩ := step_keeps command s s' hstep
    obtain ⟨hrest, hidle'⟩ := run_keeps commands s' t h
    exact ⟨hfirst.trans hrest, hidle'.trans hidle⟩

end

end RealmRepository

end QBRepository
