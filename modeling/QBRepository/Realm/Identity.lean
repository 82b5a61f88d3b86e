import QBRepository.Realm.Invariant

namespace QBRepository

/-!
# Objects keep their identity

What those who share a Realm may rely on, whatever is called in between: an object they hold stays
the object it is, and both ways of reading find the same objects.

* `KeepsIdentity` — the states before and after a run, seen through the objects;
* `ReadsAgree` — `getAll()` and `getElement(withId:)` in one state;
* `runShared` — a run of calls on several repositories of one Realm;
* `run_consistent`, `run_keepsIdentity`, `run_readsAgree` — what every such run keeps.
-/

variable {Scalar : Type}

namespace Realm

variable {env : RealmEnvironment Scalar} {s t : Realm Scalar}

/-- The key of an unmanaged object. -/
theorem keyOf_unmanaged {r : Ref} {record : Record Scalar Ref}
    (h : s.object r = some (.unmanaged record)) :
    s.keyOf env r = record.key env.primaryKey := by
  rw [keyOf, s.vertexOf_unmanaged h, Realm.record, h, Option.bind_some, Record.key_map]

/-- The key of an accessor is that of its row. -/
theorem keyOf_managed {r : Ref} {className : String} {row : RowId}
    (h : s.object r = some (.managed className row)) : s.keyOf env r = s.rowKey env row := by
  rw [keyOf, s.vertexOf_managed h, Realm.record, Option.bind_map, rowKey]
  exact congrArg (s.rows.get row).bind (funext fun record => Record.key_map _ _ record)

/-- The row with a key is the one that is found under it. -/
theorem Consistent.find_eq_some [DecidableEq Scalar] (hs : s.Consistent env)
    {key : String × Scalar} {row : RowId} :
    s.find env key = some row ↔ s.rowKey env row = some key := by
  refine ⟨rowKey_of_find, fun h => ?_⟩
  cases hfind : s.find env key with
  | none => exact absurd h (find_eq_none.mp hfind row)
  | some row' => rw [hs.unique row row' key h (rowKey_of_find hfind)]

end Realm

/-- Whoever holds an object of `s` still holds it in `t`: it has the class and the primary key it
    had, an accessor has its row, and one that was invalidated still is.  An unmanaged object is as
    it was, unless it was added, and what was deleted does not come back. -/
structure KeepsIdentity [DecidableEq Scalar] (env : RealmEnvironment Scalar) (s t : Realm Scalar) :
    Prop where
  className : ∀ r, s.object r ≠ none → t.className r = s.className r
  key : ∀ r, s.object r ≠ none → t.isInvalidated r = false → t.keyOf env r = s.keyOf env r
  row : ∀ r row, s.rowOf r = some row → t.rowOf r = some row
  invalidated : ∀ r, s.isInvalidated r = true → t.isInvalidated r = true
  /-- the row of an object is the one that is found under its key -/
  found : ∀ r row key, s.object r ≠ none → t.isInvalidated r = false →
    t.rowOf r = some row → s.keyOf env r = some key → t.find env key = some row
  /-- an unmanaged object that was added is an accessor of a row with its class and its key -/
  unmanaged : ∀ r record, s.object r = some (.unmanaged record) →
    t.object r = some (.unmanaged record) ∨ ∃ row, t.AddedAs env r record row
  /-- no object becomes unmanaged, or changes while it is -/
  unchanged : ∀ r record, t.object r = some (.unmanaged record) →
    s.object r = some (.unmanaged record)
  /-- a row that has been given away is not given to another object -/
  gone : ∀ row, row < s.rows.next → s.rows.get row = none →
    row < t.rows.next ∧ t.rows.get row = none

section Identity

variable [DecidableEq Scalar] {env : RealmEnvironment Scalar} {s t : Realm Scalar}

omit [DecidableEq Scalar] in
/-- What becomes of an object: it stays as it is, or becomes an accessor of a row like it. -/
theorem Evolves.object (h : Evolves env s t) (hs : s.Consistent env) {r : Ref}
    (hknown : s.object r ≠ none) : t.className r = s.className r ∧
      (t.isInvalidated r = false → t.keyOf env r = s.keyOf env r) := by
  obtain ⟨object, hobject⟩ := Option.ne_none_iff_exists'.mp hknown
  cases object with
  | unmanaged record =>
    have hclass : s.className r = some record.className := by rw [Realm.className, hobject]
    rw [hclass, Realm.keyOf_unmanaged hobject]
    rcases h.added r record hobject with hsame | ⟨row, hobject', -, hstored⟩
    · exact ⟨by rw [Realm.className, hsame], fun _ => Realm.keyOf_unmanaged hsame⟩
    · refine ⟨by rw [Realm.className, hobject'], fun hvalid => ?_⟩
      have hlive := Realm.isInvalidated_eq_false.mp hvalid _ row hobject'
      obtain ⟨stored, hrow⟩ := Option.ne_none_iff_exists'.mp hlive
      rw [Realm.keyOf_managed hobject', Realm.rowKey, hrow, Option.bind_some]
      exact (hstored stored hrow).2
  | managed className row =>
    have hobject' := h.managed r className row hobject
    refine ⟨by rw [Realm.className, Realm.className, hobject, hobject'], fun hvalid => ?_⟩
    have hlive := Realm.isInvalidated_eq_false.mp hvalid className row hobject'
    obtain ⟨stored, hrow⟩ := Option.ne_none_iff_exists'.mp hlive
    obtain ⟨record, hrecord, -, hkey⟩ := h.between (hs.allocated r className row hobject) hrow
    rw [Realm.keyOf_managed hobject', Realm.keyOf_managed hobject, Realm.rowKey, Realm.rowKey,
      hrow, hrecord, Option.bind_some, Option.bind_some, hkey]

/-- What evolves keeps its identity, between consistent states. -/
theorem Evolves.keepsIdentity (h : Evolves env s t) (hs : s.Consistent env)
    (ht : t.Consistent env) : KeepsIdentity env s t where
  className r hr := (h.object hs hr).1
  key r hr := (h.object hs hr).2
  row r row hrow := by
    obtain ⟨className, row', hobject⟩ := Realm.Managed.object ⟨row, hrow⟩
    obtain rfl := Option.some.inj ((Realm.rowOf_of_object hobject).symm.trans hrow)
    exact Realm.rowOf_of_object (h.managed r className row' hobject)
  invalidated r hr := by
    cases hobject : s.object r with
    | none => simp [Realm.isInvalidated, hobject] at hr
    | some object =>
      cases object with
      | unmanaged record => simp [Realm.isInvalidated, hobject] at hr
      | managed className row =>
        have hrow : s.rows.get row = none := by simpa [Realm.isInvalidated, hobject] using hr
        have hgone := h.gone row (hs.allocated r className row hobject) hrow
        simp [Realm.isInvalidated, h.managed r className row hobject, hgone]
  found r row key hr hvalid hrow hkey := by
    rw [ht.find_eq_some]
    obtain ⟨className, row', hobject⟩ := Realm.Managed.object ⟨row, hrow⟩
    obtain rfl := Option.some.inj ((Realm.rowOf_of_object hobject).symm.trans hrow)
    rw [← Realm.keyOf_managed hobject, (h.object hs hr).2 hvalid, hkey]
  unmanaged := h.added
  unchanged := h.unmanaged
  gone row hlt hrow := ⟨Nat.lt_of_lt_of_le hlt h.next, h.gone row hlt hrow⟩

end Identity

/-! ### Reading -/

open RealmRepository (idOf)

/-- `getAll()` lists objects with different primary keys, and `getElement(withId:)` finds the same
    ones. -/
structure ReadsAgree [DecidableEq Scalar] (repo : RealmRepository) (env : RealmEnvironment Scalar)
    (s : Realm Scalar) : Prop where
  identified : ∀ r ∈ (repo.getAll s).1, ∃ id, idOf env r (repo.getAll s).2 = some id
  different : ((repo.getAll s).1.map fun r => idOf env r (repo.getAll s).2).Nodup
  found : ∀ r ∈ (repo.getAll s).1, ∀ id, idOf env r (repo.getAll s).2 = some id →
    ∃ r' s', repo.getElement env id s = .returns (some r', s') ∧
      s'.rowOf r' = (repo.getAll s).2.rowOf r ∧ idOf env r' s' = some id
  missing : ∀ id, (∀ r ∈ (repo.getAll s).1, idOf env r (repo.getAll s).2 ≠ some id) →
    repo.getElement env id s = .returns (none, s)

section Reading

variable [DecidableEq Scalar] {env : RealmEnvironment Scalar} {s t : Realm Scalar}
  {repo : RealmRepository}

omit [DecidableEq Scalar] in
/-- The primary key of an accessor of a row, if it belongs to the repository. -/
theorem idOf_of_rowOf {r : Ref} {row : RowId} (h : s.rowOf r = some row) :
    idOf env r s = (s.rowKey env row).map Prod.snd := by
  obtain ⟨className, row', hobject⟩ := Realm.Managed.object ⟨row, h⟩
  obtain rfl := Option.some.inj ((Realm.rowOf_of_object hobject).symm.trans h)
  rw [idOf_eq, Realm.keyOf_managed hobject]

omit [DecidableEq Scalar] in
/-- The rows of a keyed class have keys of this class. -/
theorem Realm.Consistent.rowKey_objects (hs : s.Consistent env)
    (hkeyed : repo.isIdentifiable env = true) {row : RowId} (h : row ∈ repo.objects s) :
    ∃ id, s.rowKey env row = some (repo.className, id) := by
  obtain ⟨record, hrecord, hclass⟩ := RealmRepository.mem_objects.mp h
  obtain ⟨key, hkey⟩ := Option.ne_none_iff_exists'.mp
    (hs.keyed row record hrecord (by rw [hclass]; exact hkeyed))
  obtain ⟨className, id⟩ := key
  obtain ⟨hclass', -⟩ := Record.class_of_key hkey
  refine ⟨id, ?_⟩
  rw [rowKey, hrecord, Option.bind_some, hkey, ← hclass, hclass']

omit [DecidableEq Scalar] in
/-- A row with a key of the class is one of its objects. -/
theorem mem_objects_of_rowKey {row : RowId} {id : Scalar}
    (h : s.rowKey env row = some (repo.className, id)) : row ∈ repo.objects s := by
  obtain ⟨record, hrecord, hkey⟩ := Option.bind_eq_some_iff.mp h
  exact RealmRepository.mem_objects.mpr ⟨record, hrecord, (Record.class_of_key hkey).1⟩

/-- The row of a vertex. -/
def Vertex.asRow : Vertex → Option RowId
  | .row k => some k
  | .object _ => none

omit [DecidableEq Scalar] in
/-- The row of an object, by its vertex. -/
theorem Realm.rowOf_eq (s : Realm Scalar) (r : Ref) : s.rowOf r = (s.vertexOf r).asRow := by
  rw [rowOf, vertexOf]
  cases s.object r with
  | none => rfl
  | some object => cases object <;> rfl

omit [DecidableEq Scalar] in
/-- `getAll()` reads an accessor for each row of the class. -/
theorem rowOf_getAll (repo : RealmRepository) (s : Realm Scalar) :
    (repo.getAll s).1.map (repo.getAll s).2.rowOf = (repo.objects s).map some ∧
      (repo.getAll s).2.rows = s.rows := by
  obtain ⟨hreads, -, hvertices⟩ := s.accessors_spec (repo.objects s)
  refine ⟨?_, hreads.rows⟩
  have hmap := congrArg (List.map Vertex.asRow) hvertices
  simp only [List.map_map, Function.comp_def, ← Realm.rowOf_eq] at hmap
  exact hmap

omit [DecidableEq Scalar] in
/-- No row is listed twice. -/
theorem nodup_objects (repo : RealmRepository) (s : Realm Scalar) : (repo.objects s).Nodup :=
  (s.order.perm _).nodup_iff.mpr ((List.nodup_range.filter _).filter _)

omit [DecidableEq Scalar] in
/-- Each model is an accessor of a row of the class. -/
theorem rowOf_of_mem_getAll {r : Ref} (hr : r ∈ (repo.getAll s).1) :
    ∃ row ∈ repo.objects s, (repo.getAll s).2.rowOf r = some row := by
  have hmem := List.mem_map_of_mem (f := (repo.getAll s).2.rowOf) hr
  rw [(rowOf_getAll repo s).1] at hmem
  obtain ⟨row, hrow, heq⟩ := List.mem_map.mp hmem
  exact ⟨row, hrow, heq.symm⟩

omit [DecidableEq Scalar] in
/-- No two rows of the class have one primary key. -/
theorem nodup_ids (hs : s.Consistent env) (hkeyed : repo.isIdentifiable env = true) :
    ((repo.objects s).map fun row => (s.rowKey env row).map Prod.snd).Nodup := by
  refine (nodup_objects repo s).map_on fun row hmem row' hmem' heq => ?_
  obtain ⟨id, hkey⟩ := hs.rowKey_objects hkeyed hmem
  obtain ⟨id', hkey'⟩ := hs.rowKey_objects hkeyed hmem'
  rw [hkey, hkey', Option.map_some, Option.map_some, Option.some.injEq] at heq
  have hsame : id = id' := heq
  exact hs.unique row row' _ hkey (hsame ▸ hkey')

/-- **Both reads agree** in a consistent Realm. -/
theorem Realm.Consistent.readsAgree (hs : s.Consistent env)
    (hkeyed : repo.isIdentifiable env = true) : ReadsAgree repo env s := by
  obtain ⟨hrowOf, hrows⟩ := rowOf_getAll repo s
  have hidOf : ∀ r row, (repo.getAll s).2.rowOf r = some row →
      idOf env r (repo.getAll s).2 = (s.rowKey env row).map Prod.snd := by
    intro r row hrow
    rw [idOf_of_rowOf hrow, Realm.rowKey, hrows, Realm.rowKey]
  refine ⟨?_, ?_, ?_, ?_⟩
  · intro r hr
    obtain ⟨row, hmem, hrow⟩ := rowOf_of_mem_getAll hr
    obtain ⟨id, hkey⟩ := hs.rowKey_objects hkeyed hmem
    exact ⟨id, by rw [hidOf r row hrow, hkey, Option.map_some]⟩
  · have hids : ((repo.getAll s).1.map fun r => idOf env r (repo.getAll s).2)
        = (repo.objects s).map fun row => (s.rowKey env row).map Prod.snd := by
      have hmap := congrArg (List.map fun row => row.bind fun row =>
        (s.rowKey env row).map Prod.snd) hrowOf
      simp only [List.map_map, Function.comp_def, Option.bind_some] at hmap
      refine Eq.trans (List.map_congr_left fun r hr => ?_) hmap
      obtain ⟨row, -, hrow⟩ := rowOf_of_mem_getAll hr
      rw [hidOf r row hrow, hrow, Option.bind_some]
    rw [hids]
    exact nodup_ids hs hkeyed
  · intro r hr id hid
    obtain ⟨row, hmem, hrow⟩ := rowOf_of_mem_getAll hr
    obtain ⟨id', hkey⟩ := hs.rowKey_objects hkeyed hmem
    rw [hidOf r row hrow, hkey, Option.map_some, Option.some.injEq] at hid
    obtain rfl := hid
    have hfind := (hs.find_eq_some).mpr hkey
    obtain ⟨className, hobject⟩ := s.object_accessor row
    have hrow' := Realm.rowOf_of_object hobject
    refine ⟨(s.accessor row).1, (s.accessor row).2, ?_, ?_, ?_⟩
    · rw [RealmRepository.getElement, hkeyed, if_pos rfl, hfind]
    · rw [hrow', hrow]
    · rw [idOf_of_rowOf hrow']
      show (s.rowKey env row).map Prod.snd = some id'
      rw [hkey, Option.map_some]
  · intro id hnone
    rw [RealmRepository.getElement, hkeyed, if_pos rfl]
    cases hfind : s.find env (repo.className, id) with
    | none => rfl
    | some row =>
      have hkey := Realm.rowKey_of_find hfind
      -- the row would be among all objects
      have hmem := List.mem_map_of_mem (f := some) (mem_objects_of_rowKey hkey)
      rw [← hrowOf] at hmem
      obtain ⟨r, hr, hrow'⟩ := List.mem_map.mp hmem
      refine absurd ?_ (hnone r hr)
      rw [hidOf r row hrow', hkey, Option.map_some]

end Reading

/-! ### Runs -/

namespace RealmRepository

variable [DecidableEq Scalar]

/-- A run on a Realm that several repositories share: each command is called on one of them. -/
def runShared (env : RealmEnvironment Scalar) (fuel : Nat)
    (commands : List (RealmRepository × RealmCommand)) (s : Realm Scalar) :
    Outcome (Realm Scalar) :=
  Outcome.forEach (fun command s => step command.1 env fuel command.2 s) commands s

variable {env : RealmEnvironment Scalar} {fuel : Nat}
  {commands : List (RealmRepository × RealmCommand)} {s t : Realm Scalar}

/-- A run keeps what each of its commands keeps. -/
theorem runShared_keeps (h : runShared env fuel commands s = .returns t) :
    Keeps env s t ∧ t.inWriteTransaction = s.inWriteTransaction := by
  refine Outcome.forEach_invariant
    (I := fun _ t => Keeps env s t ∧ t.inWriteTransaction = s.inWriteTransaction)
    ?_ ⟨.refl env s, rfl⟩ h
  rintro pre command post s₁ s₂ - ⟨hkeeps, hidle⟩ hcall
  obtain ⟨hkeeps', hidle'⟩ := step_keeps command.2 s₁ s₂ hcall
  exact ⟨hkeeps.trans hkeeps', hidle'.trans hidle⟩

/-- **Every run leaves a consistent Realm consistent**, and ends the transactions it begins. -/
theorem run_consistent (hs : s.Consistent env)
    (h : runShared env fuel commands s = .returns t) :
    t.Consistent env ∧ t.inWriteTransaction = s.inWriteTransaction := by
  obtain ⟨hkeeps, hidle⟩ := runShared_keeps h
  exact ⟨(hkeeps hs).1, hidle⟩

/-- **Every run keeps the identity of all objects**, also of those it adds, and of accessors whose
    rows it deletes; it leaves unmanaged objects as they are, but for those it adds, and brings
    nothing back that is gone. -/
theorem run_keepsIdentity (hs : s.Consistent env)
    (h : runShared env fuel commands s = .returns t) : KeepsIdentity env s t := by
  obtain ⟨ht, hevolves⟩ := (runShared_keeps h).1 hs
  exact hevolves.keepsIdentity hs ht

/-- **After every run both reads agree**, in each repository whose class has a primary key. -/
theorem run_readsAgree (hs : s.Consistent env)
    (h : runShared env fuel commands s = .returns t) (repo : RealmRepository)
    (hkeyed : repo.isIdentifiable env = true) : ReadsAgree repo env t :=
  ((runShared_keeps h).1 hs).1.readsAgree hkeyed

end RealmRepository

/-- The stored person and the copy fit together. -/
theorem consistent_copiedPerson : copiedPerson.Consistent numbered where
  unique := uniqueKeys_person rfl
  alive := linksAlive_numberedPerson
  keyed row record hrow _ := by
    match row with
    | 0 =>
      obtain rfl := Option.some.inj hrow
      exact Option.some_ne_none _
    | row + 1 => cases hrow
  keyedObject r record hr _ := by
    match r with
    | 0 =>
      obtain rfl := RLMObject.unmanaged.inj (Option.some.inj hr)
      exact Option.some_ne_none _
    | r + 1 => cases hr
  allocated r className row hr := by
    match r with
    | 0 => cases Option.some.inj hr
    | r + 1 => cases hr
  typed r className row record hr _ := by
    match r with
    | 0 => cases Option.some.inj hr
    | r + 1 => cases hr

/-- The copy, once it is the accessor of the stored person. -/
def adoptedPerson : Realm Nat :=
  (copiedPerson.promote 0 "Person" 0).setProperties 0 ⟨"Person", [("number", .scalar 7)]⟩

/-- The copy is added over the stored person, whom an update in a transaction then finds. -/
theorem run_copiedPerson : RealmRepository.runShared numbered 2
    [(⟨"Person"⟩, .create 0), (⟨"Person"⟩, .performTranscation [.update 0])] copiedPerson
      = .returns adoptedPerson := rfl

/-- The run of the copied person leaves its Realm consistent. -/
theorem run_consistent_copiedPerson : adoptedPerson.Consistent numbered ∧
    adoptedPerson.inWriteTransaction = copiedPerson.inWriteTransaction :=
  RealmRepository.run_consistent consistent_copiedPerson run_copiedPerson

/-- The copy is the same object as before, now with the row of the person. -/
theorem run_keepsIdentity_copiedPerson : KeepsIdentity numbered copiedPerson adoptedPerson :=
  RealmRepository.run_keepsIdentity consistent_copiedPerson run_copiedPerson

/-- Afterwards both reads find the person. -/
theorem run_readsAgree_copiedPerson : ReadsAgree ⟨"Person"⟩ numbered adoptedPerson :=
  RealmRepository.run_readsAgree consistent_copiedPerson run_copiedPerson ⟨"Person"⟩ rfl

end QBRepository
