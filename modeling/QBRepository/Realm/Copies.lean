import QBRepository.Realm.AddObject
import QBRepository.Realm.Hashing

namespace QBRepository

/-!
# Unmanaged copies of stored objects

A model may be given to `update` and `delete` as an unmanaged copy, which has the primary key of
the stored object.  `update` looks the key up, but goes on only if it finds nothing; `delete` does
not look it up at all, and an unmanaged object has no Realm to be deleted from.

* `updatesRecord_iff` — `update` does what it is for only where the key of the model is nil, and
  nothing is stored under nil;
* `deletesRecord_iff` — `delete` does for accessors, and for copies that lead to the stored object.
-/

variable {Scalar : Type} {env : RealmEnvironment Scalar} {s t : Realm Scalar}

/-- The primary key of an object: its class and the value of the key property. -/
def Realm.keyOf (env : RealmEnvironment Scalar) (s : Realm Scalar) (r : Ref) :
    Option (String × Scalar) :=
  (s.record (s.vertexOf r)).bind (Record.key env.primaryKey)

/-- The id of a model is the value of its key. -/
theorem idOf_eq (env : RealmEnvironment Scalar) (model : Ref) (s : Realm Scalar) :
    RealmRepository.idOf env model s = (s.keyOf env model).map Prod.snd := by
  rw [RealmRepository.idOf, Realm.keyOf]
  cases s.record (s.vertexOf model) <;> rfl

/-- A key is that of a class with a primary key. -/
theorem Record.class_of_key {ρ : Type} {primaryKey : String → Option String}
    {record : Record Scalar ρ} {className : String} {id : Scalar}
    (h : record.key primaryKey = some (className, id)) :
    record.className = className ∧ (primaryKey className).isSome = true := by
  rw [key] at h
  split at h
  · cases h
  next name hname =>
    split at h
    next value _ =>
      obtain ⟨rfl, -⟩ := Prod.mk.inj (Option.some.inj h)
      exact ⟨rfl, by rw [hname, Option.isSome_some]⟩
    all_goals cases h

/-- A class whose models have keys is identifiable. -/
theorem isIdentifiable_of_keyOf {repo : RealmRepository} {model : Ref} {id : Scalar}
    (h : s.keyOf env model = some (repo.className, id)) : repo.isIdentifiable env = true := by
  obtain ⟨record, -, hkey⟩ := Option.bind_eq_some_iff.mp h
  exact (Record.class_of_key hkey).2

/-- An object with a key has not lost its row. -/
theorem known_of_keyOf {model : Ref} {key : String × Scalar} (h : s.keyOf env model = some key) :
    s.object model ≠ none ∧ s.isInvalidated model = false := by
  obtain ⟨record, hrecord, -⟩ := Option.bind_eq_some_iff.mp h
  rw [Realm.isInvalidated]
  cases hobject : s.object model with
  | none =>
    rw [Realm.vertexOf, hobject, Realm.record, hobject] at hrecord
    cases hrecord
  | some object =>
    refine ⟨Option.some_ne_none _, ?_⟩
    cases object with
    | unmanaged _ => rfl
    | managed className row =>
      rw [s.vertexOf_managed hobject, Realm.record] at hrecord
      obtain ⟨record₀, hrow, -⟩ := Option.map_eq_some_iff.mp hrecord
      simp [hrow]

/-- A delete that returns has removed the rows the model leads to. -/
theorem delete_returns {model : Ref} (hknown : s.object model ≠ none) {fuel : Nat}
    {result : Option RealmError}
    (h : RealmRepository.delete env fuel model s = .returns (result, t)) :
    t.rows.get = without s.rows (rowsIn (Reachable s.Edge {s.vertexOf model})) := by
  obtain ⟨s', hwrite, h⟩ := Outcome.bind_eq_returns.mp h
  obtain ⟨-, rfl⟩ := Prod.mk.inj (Outcome.returns.inj h)
  obtain ⟨-, s'', hrun, rfl⟩ := of_write_eq_returns hwrite
  obtain ⟨-, done, hend⟩ :=
    (Cascading.start { s with inWriteTransaction := true }).cascadeDelete hknown hrun
  have hrows := hend.finish
  rw [Realm.vertices_nil, insert_empty_eq] at hrows
  exact hrows

variable [DecidableEq Scalar]

/-! ### Updating -/

/-- `update` reports the original as missing, before it would begin a transaction: the class has no
    primary key, the model has none, or an object has the key of the model. -/
def RefusesUpdate (repo : RealmRepository) (env : RealmEnvironment Scalar) (s : Realm Scalar)
    (model : Ref) : Prop :=
  repo.isIdentifiable env = false ∨ s.isInvalidated model = false ∧
    ∀ id, RealmRepository.idOf env model s = some id → s.find env (repo.className, id) ≠ none

/-- An update that is refused fails, and changes nothing. -/
theorem update_of_refuses {repo : RealmRepository} {model : Ref}
    (h : RefusesUpdate repo env s model) (fuel : Nat) :
    repo.update env fuel model s = .returns (.error .noOriginalObject, s) := by
  rw [RealmRepository.update]
  rcases h with hkeyless | ⟨hvalid, hstored⟩
  · rw [hkeyless]
    rfl
  cases repo.isIdentifiable env with
  | false => rfl
  | true =>
    rw [hvalid]
    cases hid : RealmRepository.idOf env model s with
    | none => rfl
    | some id =>
      obtain ⟨row, hrow⟩ := Option.ne_none_iff_exists'.mp (hstored id hid)
      show (if (s.find env (repo.className, id)).isNone then _ else _) = _
      rw [hrow]
      rfl

/-- If it does not refuse, the model is invalidated or is stored. -/
theorem update_of_not_refuses {repo : RealmRepository} {model : Ref}
    (h : ¬ RefusesUpdate repo env s model) (fuel : Nat) :
    repo.update env fuel model s = .raises ∨ repo.update env fuel model s = do
      let s ← write (addEntityCascading env fuel (repo.isIdentifiable env) model) s
      return (.success model, s) := by
  rw [RefusesUpdate, not_or, Bool.not_eq_false, not_and] at h
  obtain ⟨hkeyed, hstored⟩ := h
  rw [RealmRepository.update, hkeyed]
  cases hvalid : s.isInvalidated model with
  | true => exact Or.inl rfl
  | false =>
    obtain ⟨id, hid⟩ := not_forall.mp (hstored hvalid)
    obtain ⟨hid, hnone⟩ := Classical.not_imp.mp hid
    refine Or.inr ?_
    rw [hid]
    show (if (s.find env (repo.className, id)).isNone then _ else _) = _
    rw [not_not.mp hnone]
    rfl

/-- An object of the class is stored in the row under a primary key, which may be nil. -/
def StoredUnder (repo : RealmRepository) (env : RealmEnvironment Scalar) (s : Realm Scalar)
    (key : Option Scalar) (row : RowId) : Prop :=
  ∃ record, s.rows.get row = some record ∧ record.className = repo.className ∧
    (record.key env.primaryKey).map Prod.snd = key

omit [DecidableEq Scalar] in
/-- A row under a key that is not nil. -/
theorem storedUnder_some {repo : RealmRepository} {id : Scalar} {row : RowId} :
    StoredUnder repo env s (some id) row ↔ s.rowKey env row = some (repo.className, id) := by
  rw [Realm.rowKey, Option.bind_eq_some_iff]
  constructor
  · rintro ⟨record, hrow, hclass, hkey⟩
    obtain ⟨⟨className, id'⟩, hrecord, rfl⟩ := Option.map_eq_some_iff.mp hkey
    refine ⟨record, hrow, ?_⟩
    rw [hrecord, ← hclass, (Record.class_of_key hrecord).1]
  · rintro ⟨record, hrow, hkey⟩
    refine ⟨record, hrow, (Record.class_of_key hkey).1, ?_⟩
    rw [hkey, Option.map_some]

/-- Nothing is found under a key exactly if no row is stored under it. -/
theorem find_eq_none_iff {repo : RealmRepository} {id : Scalar} :
    s.find env (repo.className, id) = none ↔ ∀ row, ¬ StoredUnder repo env s (some id) row := by
  rw [Realm.find_eq_none]
  exact forall_congr' fun row => (not_congr storedUnder_some).symm

/-- What `update` is for: if an object with the key of the model is stored, it gets the values of
    the model; if not, this is reported, and nothing changes. -/
structure UpdatesRecord (repo : RealmRepository) (env : RealmEnvironment Scalar) (s : Realm Scalar)
    (model : Ref) (key : Option Scalar) : Prop where
  stored : ∀ row, StoredUnder repo env s key row → ∃ t,
    Outcome.Converges (fun fuel => repo.update env fuel model s) (.success model, t) ∧
      (∃ row', StoredUnder repo env t key row' ∧
        t.record (.row row') = s.record (s.vertexOf model)) ∧
      ∀ other, s.rows.get other ≠ none → ¬ StoredUnder repo env s key other →
        t.rows.get other = s.rows.get other
  absent : (∀ row, ¬ StoredUnder repo env s key row) → ∃ t,
    Outcome.Converges (fun fuel => repo.update env fuel model s) (.error .noOriginalObject, t) ∧
      t.rows.get = s.rows.get

/-- `update` reports a stored object as missing. -/
theorem update_of_stored {repo : RealmRepository} {model : Ref} {id : Scalar} {row : RowId}
    (hvalid : s.isInvalidated model = false)
    (hid : RealmRepository.idOf env model s = some id)
    (hrow : StoredUnder repo env s (some id) row) (fuel : Nat) :
    repo.update env fuel model s = .returns (.error .noOriginalObject, s) := by
  refine update_of_refuses (Or.inr ⟨hvalid, fun id' hid' hfind => ?_⟩) fuel
  obtain rfl := Option.some.inj (hid.symm.trans hid')
  exact find_eq_none_iff.mp hfind row hrow

/-- It does not report a missing one. -/
theorem update_of_absent {repo : RealmRepository} {model : Ref} {id : Scalar}
    (hkeyed : repo.isIdentifiable env = true)
    (hid : RealmRepository.idOf env model s = some id)
    (habsent : ∀ row, ¬ StoredUnder repo env s (some id) row) (fuel : Nat) :
    repo.update env fuel model s ≠ .returns (.error .noOriginalObject, t) := by
  have hstores : ¬ RefusesUpdate repo env s model := by
    rintro (hkeyless | ⟨-, hstored⟩)
    · rw [hkeyed] at hkeyless
      cases hkeyless
    · exact hstored id hid (find_eq_none_iff.mpr habsent)
  intro hreports
  rcases update_of_not_refuses hstores fuel with hraises | hwrites
  · cases hraises.symm.trans hreports
  · obtain ⟨s', -, hreported⟩ := Outcome.bind_eq_returns.mp (hwrites.symm.trans hreports)
    cases hreported

/-- **`update` does what it is for** only where the key of the model is nil, and nothing is stored
    under nil: otherwise it reports a stored object as missing, and stores one that is missing. -/
theorem updatesRecord_iff (repo : RealmRepository) {model : Ref} {record : Record Scalar Ref}
    (hmodel : s.object model = some (.unmanaged record)) (hkeyed : repo.isIdentifiable env = true) :
    UpdatesRecord repo env s model (RealmRepository.idOf env model s) ↔
      RealmRepository.idOf env model s = none ∧ ∀ row, ¬ StoredUnder repo env s none row := by
  have hvalid : s.isInvalidated model = false := by
    rw [Realm.isInvalidated, hmodel]
  cases hid : RealmRepository.idOf env model s with
  | some id =>
    refine iff_of_false (fun h => ?_) fun h => Option.some_ne_none id h.1
    by_cases hstored : ∃ row, StoredUnder repo env s (some id) row
    · obtain ⟨row, hrow⟩ := hstored
      obtain ⟨t, ⟨n, hn⟩, -⟩ := h.stored row hrow
      cases (update_of_stored hvalid hid hrow n).symm.trans (hn n le_rfl)
    · obtain ⟨t, ⟨n, hn⟩, -⟩ := h.absent (not_exists.mp hstored)
      exact update_of_absent hkeyed hid (not_exists.mp hstored) n (hn n le_rfl)
  | none =>
    -- the guard fails at the key
    have hreports : ∀ fuel, repo.update env fuel model s
        = .returns (.error .noOriginalObject, s) :=
      update_of_refuses (Or.inr ⟨hvalid, fun id hid' => by rw [hid] at hid'; cases hid'⟩)
    constructor
    · refine fun h => ⟨rfl, fun row hrow => ?_⟩
      obtain ⟨t, ⟨n, hn⟩, -⟩ := h.stored row hrow
      cases (hreports n).symm.trans (hn n le_rfl)
    · rintro ⟨-, habsent⟩
      exact ⟨fun row hrow => absurd hrow (habsent row), fun _ =>
        ⟨s, ⟨0, fun fuel _ => hreports fuel⟩, rfl⟩⟩

/-- Person 7 is stored, and object 0 is an unmanaged copy of this person. -/
def copiedPerson : Realm Nat where
  rows := FreshMap.empty.alloc ⟨"Person", [("number", .scalar 7)]⟩
  heap := .single ⟨"Person", [("number", .scalar 7)]⟩ fun _ ht => by cases ht
  inWriteTransaction := false
  picks := 0

/-- Persons have a number for a primary key. -/
def numbered : RealmEnvironment Nat := .ofSchema (fun _ => some "number") fun _ => 0

/-- Person 7 is stored, and object 0 is a person whose number is nil. -/
def unnumberedPerson : Realm Nat where
  rows := FreshMap.empty.alloc ⟨"Person", [("number", .scalar 7)]⟩
  heap := .single ⟨"Person", []⟩ fun _ ht => by cases ht
  inWriteTransaction := false
  picks := 0

/-- The copy does not update the person, while updating a person without a number reports that
    there is none. -/
theorem updatesRecord_copiedPerson :
    ¬ UpdatesRecord ⟨"Person"⟩ numbered copiedPerson 0 (some 7) ∧
      UpdatesRecord ⟨"Person"⟩ numbered unnumberedPerson 0 none := by
  refine ⟨fun h => ?_, (updatesRecord_iff ⟨"Person"⟩ rfl rfl).mpr ⟨rfl, ?_⟩⟩
  · cases ((updatesRecord_iff ⟨"Person"⟩ rfl rfl).mp h).1
  · rintro row ⟨record, hrow, -, hkey⟩
    match row with
    | 0 =>
      obtain rfl := Option.some.inj hrow
      cases hkey
    | row + 1 => cases hrow

/-- Updating the stored person with the copy reports that there is no such person. -/
theorem update_copiedPerson :
    ¬ ∃ t, Outcome.Converges
      (fun fuel => RealmRepository.update ⟨"Person"⟩ numbered fuel 0 copiedPerson)
      (.success 0, t) := by
  rintro ⟨t, n, hn⟩
  cases hn n le_rfl

/-! ### Deleting -/

/-- No two rows have the same primary key. -/
def Realm.UniqueKeys (env : RealmEnvironment Scalar) (s : Realm Scalar) : Prop :=
  ∀ row row' key, s.rowKey env row = some key → s.rowKey env row' = some key → row = row'

/-- What a successful `delete` is for: nothing is found under the key of the model, and if that is
    a copy of the object in `row`, nothing is deleted but what this object leads to. -/
structure DeletesRecord (repo : RealmRepository) (env : RealmEnvironment Scalar)
    (s t : Realm Scalar) (model : Ref) (id : Scalar) (row : RowId) : Prop where
  gone : repo.getElement env id t = .returns (none, t)
  only : ¬ s.Managed model → ∀ other, s.rows.get other ≠ none → t.rows.get other = none →
    .row other ∈ Reachable s.Edge {.row row}

/-- A delete leaves nothing under a key exactly if the model leads to the row with this key. -/
theorem getElement_delete_iff {repo : RealmRepository} {id : Scalar} {row : RowId}
    {gone : Set RowId}
    (hstored : s.rowKey env row = some (repo.className, id)) (hunique : s.UniqueKeys env)
    (ht : t.rows.get = without s.rows gone) :
    repo.getElement env id t = .returns (none, t) ↔ row ∈ gone := by
  have hkeyed : repo.isIdentifiable env = true := by
    obtain ⟨record, -, hkey⟩ := Option.bind_eq_some_iff.mp hstored
    exact (Record.class_of_key hkey).2
  -- the rows that are left have the keys they had
  have hkeys : ∀ other key, t.rowKey env other = some key ↔
      other ∉ gone ∧ s.rowKey env other = some key := by
    intro other key
    rw [Realm.rowKey, ht, Realm.rowKey]
    by_cases hgone : other ∈ gone
    · simp [without_of_mem hgone, hgone]
    · rw [without_of_notMem hgone, Option.bind_map]
      simp [hgone]
  have hnone : repo.getElement env id t = .returns (none, t) ↔
      t.find env (repo.className, id) = none := by
    rw [RealmRepository.getElement, hkeyed, if_pos rfl]
    cases t.find env (repo.className, id) <;> simp
  rw [hnone, Realm.find_eq_none]
  constructor
  · intro h
    by_contra hmem
    exact h row ((hkeys row _).mpr ⟨hmem, hstored⟩)
  · intro hmem other hother
    obtain ⟨hleft, hkey⟩ := (hkeys other _).mp hother
    rw [hunique other row _ hkey hstored] at hleft
    exact hleft hmem

/-- **A successful `delete` deletes the record** exactly if the model is an accessor, or a copy that
    leads to the stored object, and to nothing that this does not lead to. -/
theorem deletesRecord_iff (repo : RealmRepository) {model : Ref} {id : Scalar} {row : RowId}
    (hkey : s.keyOf env model = some (repo.className, id))
    (hstored : s.rowKey env row = some (repo.className, id)) (hunique : s.UniqueKeys env)
    (hdelete : Outcome.Converges (fun fuel => RealmRepository.delete env fuel model s) (none, t)) :
    DeletesRecord repo env s t model id row ↔
      s.Managed model ∨ .row row ∈ Reachable s.Edge {s.vertexOf model} ∧
        ∀ other, s.rows.get other ≠ none → .row other ∈ Reachable s.Edge {s.vertexOf model} →
          .row other ∈ Reachable s.Edge {.row row} := by
  obtain ⟨n, hn⟩ := hdelete
  have hrows := delete_returns (known_of_keyOf hkey).1 (hn n le_rfl)
  have hgone := getElement_delete_iff hstored hunique hrows
  have honly : (∀ other, s.rows.get other ≠ none → t.rows.get other = none →
      .row other ∈ Reachable s.Edge {.row row}) ↔
      ∀ other, s.rows.get other ≠ none → .row other ∈ Reachable s.Edge {s.vertexOf model} →
        .row other ∈ Reachable s.Edge {.row row} := by
    refine forall₂_congr fun other hother => imp_congr_left ?_
    rw [hrows, ← not_iff_not, ← ne_eq, without_ne_none]
    exact ⟨fun h => h.2, fun h => ⟨hother, h⟩⟩
  by_cases hmanaged : s.Managed model
  · refine iff_of_true ⟨hgone.mpr ?_, fun h => absurd hmanaged h⟩ (Or.inl hmanaged)
    -- the model is an accessor of the only row with its key
    obtain ⟨className, row', hobject⟩ := hmanaged.object
    rw [Realm.keyOf, s.vertexOf_managed hobject, Realm.record] at hkey
    have hkey' : s.rowKey env row' = some (repo.className, id) := by
      rw [Option.bind_map] at hkey
      simpa [Realm.rowKey, Function.comp_def] using hkey
    rw [hunique row row' _ hstored hkey', s.vertexOf_managed hobject]
    exact subset_reachable rfl
  · constructor
    · exact fun h => Or.inr ⟨hgone.mp h.gone, honly.mp (h.only hmanaged)⟩
    · rintro (h | ⟨hreached, hall⟩)
      · exact absurd h hmanaged
      · exact ⟨hgone.mpr hreached, fun _ => honly.mpr hall⟩

/-- The only person has a number of their own. -/
theorem uniqueKeys_person {s : Realm Nat}
    (h : s.rows = FreshMap.empty.alloc ⟨"Person", [("number", .scalar 7)]⟩) :
    s.UniqueKeys numbered := by
  have hrow : ∀ row key, s.rowKey numbered row = some key → row = 0 := by
    intro row key hkey
    rw [Realm.rowKey, h] at hkey
    cases row with
    | zero => rfl
    | succ row => cases hkey
  intro row row' key hkey hkey'
  rw [hrow row key hkey, hrow row' key hkey']

/-- Nobody is left once the person is deleted. -/
theorem deletesRecord_numberedPerson :
    DeletesRecord ⟨"Person"⟩ numbered numberedPerson
      { numberedPerson.deleteRow 0 with picks := 1 } 0 7 0 :=
  (deletesRecord_iff ⟨"Person"⟩ rfl rfl (uniqueKeys_person rfl)
    (.of_add 3 fun _ => rfl)).mpr (Or.inl managed_numberedPerson)

/-- Deleting the copy is reported as a success, and deletes nobody. -/
theorem not_deletesRecord_copiedPerson :
    ∃ t, Outcome.Converges (fun fuel => RealmRepository.delete numbered fuel 0 copiedPerson)
        (none, t) ∧
      ¬ DeletesRecord ⟨"Person"⟩ numbered copiedPerson t 0 7 0 := by
  refine ⟨{ copiedPerson with picks := 1 }, .of_add 3 fun _ => rfl, fun h => ?_⟩
  cases h.gone

end QBRepository
