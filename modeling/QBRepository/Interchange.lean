import QBRepository.FileSystem.Reports
import QBRepository.Realm.TableRun

namespace QBRepository

open IdentifiableCodable renaming id → idOf

/-!
# Repositories are interchangeable

A client that keeps values in a repository, and only knows its methods and how models are made of
values and read, gets the same answers from a directory and from a Realm, whatever it calls; but for
the order in which all values are listed.  It keeps values and ids only: a model is made or found
for one call and dropped after it, and the collection of `getAll` is read at once.  It may not call
`update`, which overwrites the file of a model and refuses to overwrite an object, and it cannot ask
whether `deleteAll` had a directory to delete.

* `ValueRepository` — what the client uses; `ValueRepository.perform` — what it calls;
* `ValueAnswers` — what the answers say of the map from ids to values, `ValueAnswer.Alike`;
* `FileSystemRepository.Stores.perform_answers`, `ObjectMapping.perform_answers` — one call;
* `interchangeable` — every sequence of calls.
-/

/-! ### The client -/

/-- What a client uses of a repository: its methods, and how it makes and reads models. -/
structure ValueRepository (m : Type → Type) (Id Value Model Error : Type) where
  make : Value → m Model
  read : Model → m Value
  getAll : m (List Model)
  getElement : Id → m (Option Model)
  create : Model → m (RepositoryEditResult Error Model)
  createAll : List Model → m (RepositoryEditResult Error (List Model))
  delete : Model → m (Option Error)
  deleteAll : m (Option Error)

/-- What the client wants; none of it outlives the call but values and ids. -/
inductive ValueCall (Id Value : Type) where
  | save (value : Value)
  | saveAll (values : List Value)
  | find (id : Id)
  | list
  | remove (id : Id)
  | removeAll

/-- What it learns. -/
inductive ValueAnswer (Value : Type) where
  | saved (succeeds : Bool)
  | found (value : Option Value)
  | listed (values : List Value)
  | removed (succeeds : Bool)
  | removedAll

/-- Whether a model was edited. -/
def RepositoryEditResult.isSuccess {Error Model : Type} : RepositoryEditResult Error Model → Bool
  | .success _ => true
  | .error _ => false

namespace ValueRepository

variable {m : Type → Type} [Monad m] {Id Value Model Error : Type}
  (repository : ValueRepository m Id Value Model Error)

/-- What the client calls, to get what it wants. -/
def perform : ValueCall Id Value → m (ValueAnswer Value)
  | .save value => do
    let model ← repository.make value
    let result ← repository.create model
    return .saved result.isSuccess
  | .saveAll values => do
    let models ← values.mapM repository.make
    let result ← repository.createAll models
    return .saved result.isSuccess
  | .find id => do
    match ← repository.getElement id with
    | some model =>
      let value ← repository.read model
      return .found (some value)
    | none => return .found none
  | .list => do
    let models ← repository.getAll
    let values ← models.mapM repository.read
    return .listed values
  | .remove id => do
    match ← repository.getElement id with
    | some model =>
      let error ← repository.delete model
      return .removed error.isNone
    | none => return .removed true
  | .removeAll => do
    let _ ← repository.deleteAll
    return .removedAll

end ValueRepository

/-! ### The specification -/

section Specification

variable {Id Value : Type} [IdentifiableCodable Value Id]

/-- The ids that a call is about, or that its values have. -/
def ValueCall.ids : ValueCall Id Value → Set Id
  | .save value => {idOf value}
  | .saveAll values => {id | ∃ value ∈ values, idOf value = id}
  | .find id | .remove id => {id}
  | .list | .removeAll => ∅

variable [DecidableEq Id]

/-- What a call may answer, and what becomes of the values. -/
inductive ValueAnswers (live : Live Id Value) :
    ValueCall Id Value → ValueAnswer Value → Live Id Value → Prop where
  | save {value : Value} : ValueAnswers live (.save value) (.saved true) (live.store value)
  | saveAll {values : List Value} :
      ValueAnswers live (.saveAll values) (.saved true) (values.foldl Live.store live)
  | find {id : Id} : ValueAnswers live (.find id) (.found (live id)) live
  | list {values : List Value} (hnodup : values.Nodup)
      (hmem : ∀ value, value ∈ values ↔ live (idOf value) = some value) :
      ValueAnswers live .list (.listed values) live
  | remove {id : Id} : ValueAnswers live (.remove id) (.removed true) (Function.update live id none)
  | removeAll : ValueAnswers live .removeAll .removedAll fun _ => none

/-- The same answer, but for the order of a list. -/
inductive ValueAnswer.Alike : ValueAnswer Value → ValueAnswer Value → Prop where
  | refl (answer : ValueAnswer Value) : Alike answer answer
  | listed {values values' : List Value} (h : values.Perm values') :
      Alike (.listed values) (.listed values')

/-- The specification leaves a choice only in the order of lists. -/
theorem ValueAnswers.alike {live live₁ live₂ : Live Id Value} {call : ValueCall Id Value}
    {answer₁ answer₂ : ValueAnswer Value} (h₁ : ValueAnswers live call answer₁ live₁)
    (h₂ : ValueAnswers live call answer₂ live₂) : answer₁.Alike answer₂ ∧ live₁ = live₂ := by
  cases h₁ with
  | list hnodup hmem =>
    cases h₂ with
    | list hnodup' hmem' =>
      refine ⟨.listed ?_, rfl⟩
      exact (List.perm_ext_iff_of_nodup hnodup hnodup').mpr fun value =>
        (hmem value).trans (hmem' value).symm
  | save => cases h₂; exact ⟨.refl _, rfl⟩
  | saveAll => cases h₂; exact ⟨.refl _, rfl⟩
  | find => cases h₂; exact ⟨.refl _, rfl⟩
  | remove => cases h₂; exact ⟨.refl _, rfl⟩
  | removeAll => cases h₂; exact ⟨.refl _, rfl⟩

end Specification

/-! ### A directory -/

namespace FileSystemRepository

variable {Id Model Data : Type} [IdentifiableCodable Model Id]

/-- A directory, for a client whose values are the models. -/
def valueRepository (repo : FileSystemRepository Model Data) (env : Environment Id) :
    ValueRepository (StateM (FileManager Data)) Id Model Model FileSystemError where
  make model := return model
  read model := return model
  getAll := repo.getAll env
  getElement id := do return repo.getElement env (.modelId id) (← get)
  create := repo.create env
  createAll := repo.createAll env
  delete := repo.delete env
  deleteAll := repo.deleteAll env

variable {repo : FileSystemRepository Model Data} {env : Environment Id} [DecidableEq Id]
  {S : Set Id} {fm : FileManager Data} {live : Live Id Model}

omit [DecidableEq Id] in
/-- A lookup reads the file of the id. -/
theorem run_getElement (id : Id) (fm : FileManager Data) :
    ((repo.valueRepository env).getElement id).run fm
      = (repo.getElement env (.modelId id) fm, fm) := rfl

omit [DecidableEq Id] in
/-- A value is its own model. -/
theorem mapM_make (models : List Model) :
    models.mapM (repo.valueRepository env).make = pure models := by
  show models.mapM (fun model => pure model) = _
  rw [List.mapM_pure, List.map_id']

omit [DecidableEq Id] in
/-- A model is its own value. -/
theorem mapM_read (models : List Model) :
    models.mapM (repo.valueRepository env).read = pure models := by
  show models.mapM (fun model => pure model) = _
  rw [List.mapM_pure, List.map_id']

/-- **One call on a directory** does what the specification says. -/
theorem Stores.perform_answers (h : repo.Stores env S fm live) (hq : env.Quiet)
    (hinj : Set.InjOn env.hashValue S)
    (hcodec : ∀ model, repo.decode (repo.encode model) = some model) (call : ValueCall Id Model)
    (hids : call.ids ⊆ S) :
    ∃ live', ValueAnswers live call
        (((repo.valueRepository env).perform call).run fm).1 live' ∧
      repo.Stores env S (((repo.valueRepository env).perform call).run fm).2 live' := by
  cases call with
  | save model =>
    have hm : idOf model ∈ S := hids rfl
    have hrun : ((repo.create env model).run fm).1 = .success model := by
      rcases repo.create_cases env model fm with ⟨fm', hrun, -⟩ | ⟨_, _, _, hnq, _⟩
      · rw [hrun]
      · exact absurd hq hnq
    have hstored := h.create hq hinj hm
    refine ⟨live.store model, ?_, hstored⟩
    show ValueAnswers live _ (.saved ((repo.create env model).run fm).1.isSuccess) _
    rw [hrun]
    exact .save
  | saveAll models =>
    have hused : idsUsed [Op.createAll models] ⊆ S := by
      rintro _ ⟨model, ⟨op, hop, hmem⟩, rfl⟩
      obtain rfl := List.mem_singleton.mp hop
      exact hids ⟨model, hmem, rfl⟩
    have hstored := h.run hq hinj [.createAll models] hused
    have hrun : ((repo.valueRepository env).perform (.saveAll models)).run fm
        = (.saved (batchResult models ((models.mapM (repo.create env)).run fm).1).isSuccess,
          repo.step env fm (.createAll models)) := by
      rw [ValueRepository.perform, mapM_make]
      rfl
    rw [hrun, batchResult_eq]
    exact ⟨models.foldl Live.store live, .saveAll, hstored⟩
  | find id =>
    have hfound := h.getElement hinj hcodec (hids rfl)
    have hrun : ((repo.valueRepository env).perform (.find id)).run fm
        = (.found (repo.getElement env (.modelId id) fm), fm) := by
      rw [ValueRepository.perform, StateT.run_bind, run_getElement]
      cases repo.getElement env (.modelId id) fm <;> rfl
    rw [hrun, hfound]
    exact ⟨live, .find, h⟩
  | list =>
    obtain ⟨hnodup, hmem⟩ := h.getAll hq hcodec
    have hrun : ((repo.valueRepository env).perform .list).run fm
        = (.listed ((repo.getAll env).run fm).1, ((repo.getAll env).run fm).2) := by
      simp only [ValueRepository.perform, mapM_read]
      rfl
    rw [hrun]
    exact ⟨live, .list hnodup hmem,
      h.congr (repo.getAll_preserves env FileManager.node_tick fm)⟩
  | remove id =>
    have hid : id ∈ S := hids rfl
    have hfound := h.getElement hinj hcodec hid
    cases hlive : live id with
    | none =>
      have hrun : ((repo.valueRepository env).perform (.remove id)).run fm
          = (.removed true, fm) := by
        rw [ValueRepository.perform, StateT.run_bind, run_getElement, hfound, hlive]
        rfl
      have hsame : Function.update live id none = live := by
        rw [← hlive, Function.update_eq_self]
      rw [hrun]
      exact ⟨_, .remove, by rwa [hsame]⟩
    | some model =>
      obtain rfl := h.keyed id model hlive
      have hrun : ((repo.valueRepository env).perform (.remove (idOf model))).run fm
          = (.removed ((repo.delete env model).run fm).1.isNone,
            repo.step env fm (.delete model)) := by
        rw [ValueRepository.perform, StateT.run_bind, run_getElement, hfound, hlive]
        rfl
      have herror : ((repo.delete env model).run fm).1 = none := by
        rcases repo.delete_cases env model fm with ⟨fm', hdelete, -⟩ | ⟨_, _, _, hnq, _⟩
        · rw [hdelete]
        · exact absurd hq hnq
      rw [hrun, herror]
      exact ⟨live.forget model, .remove, h.delete hq hinj hid⟩
  | removeAll => exact ⟨fun _ => none, .removeAll, stores_deleteAll hq fm⟩

end FileSystemRepository

/-! ### New objects -/

/-- A new object without links, which no Realm manages yet. -/
def Heap.new {Scalar : Type} (heap : Heap Scalar) (record : Record Scalar Ref)
    (hflat : record.targets = []) : Heap Scalar where
  objects := heap.objects.alloc (.unmanaged record)
  closed r stored hr t ht := by
    rw [FreshMap.get_alloc] at hr ⊢
    have ht' : heap.objects.get t ≠ none := by
      by_cases hnew : r = heap.objects.next
      · rw [hnew, Function.update_self] at hr
        obtain rfl := RLMObject.unmanaged.inj (Option.some.inj hr)
        rw [hflat] at ht
        cases ht
      · rw [Function.update_of_ne hnew] at hr
        exact heap.closed r stored hr t ht
    rw [Function.update_of_ne]
    · exact ht'
    · rintro rfl
      exact ht' (heap.objects.fresh _ (Nat.le_refl _))

namespace Realm

variable {Scalar : Type} {env : RealmEnvironment Scalar} {s : Realm Scalar}
  {record : Record Scalar Ref} (hflat : record.targets = [])

/-- The program makes a new object. -/
def newObject (s : Realm Scalar) (record : Record Scalar Ref) (hflat : record.targets = []) :
    Ref × Realm Scalar :=
  (s.heap.objects.next, { s with heap := s.heap.new record hflat })

/-- The new object is unmanaged. -/
theorem object_newObject : (s.newObject record hflat).2.object
    = Function.update s.object s.heap.objects.next (some (.unmanaged record)) := rfl

/-- It takes a reference that no object had. -/
theorem object_next : s.object s.heap.objects.next = none :=
  s.heap.objects.fresh _ (Nat.le_refl _)

/-- The other objects stay. -/
theorem object_newObject_of_known {r : Ref} (hr : s.object r ≠ none) :
    (s.newObject record hflat).2.object r = s.object r := by
  rw [object_newObject, Function.update_of_ne]
  rintro rfl
  exact hr object_next

/-- A new object with a key keeps the Realm consistent. -/
theorem Consistent.newObject (hs : s.Consistent env) (hkey : record.key env.primaryKey ≠ none) :
    (s.newObject record hflat).2.Consistent env where
  unique := hs.unique
  alive := hs.alive
  keyed := hs.keyed
  keyedObject r stored hr hkeyed := by
    rw [object_newObject] at hr
    by_cases hnew : r = s.heap.objects.next
    · rw [hnew, Function.update_self] at hr
      obtain rfl := RLMObject.unmanaged.inj (Option.some.inj hr)
      exact hkey
    · rw [Function.update_of_ne hnew] at hr
      exact hs.keyedObject r stored hr hkeyed
  allocated r className row hr := by
    rw [object_newObject] at hr
    by_cases hnew : r = s.heap.objects.next
    · rw [hnew, Function.update_self] at hr
      cases hr
    · rw [Function.update_of_ne hnew] at hr
      exact hs.allocated r className row hr
  typed r className row stored hr hrow := by
    rw [object_newObject] at hr
    by_cases hnew : r = s.heap.objects.next
    · rw [hnew, Function.update_self] at hr
      cases hr
    · rw [Function.update_of_ne hnew] at hr
      exact hs.typed r className row stored hr hrow

end Realm

section NewObject

variable {Scalar : Type} {repo : RealmRepository} {primaryKey : String → Option String}
  {pick : Nat → Nat} {s : Realm Scalar} {table : ModelTable Scalar}

/-- A new object is a new model. -/
theorem Tabulates.newObject (h : Tabulates repo primaryKey pick s table)
    {record : Record Scalar Ref} (hflat : record.targets = []) {id : Scalar}
    (hkey : record.key primaryKey = some (repo.className, id)) :
    Tabulates repo primaryKey pick (s.newObject record hflat).2
      (table.give s.heap.objects.next id record.detach) where
  consistent := h.consistent.newObject hflat (ne_of_eq_of_ne hkey (Option.some_ne_none _))
  idle := h.idle
  flatRow := h.flatRow
  flatObject r stored hr hclass := by
    rw [Realm.object_newObject] at hr
    by_cases hnew : r = s.heap.objects.next
    · rw [hnew, Function.update_self] at hr
      obtain rfl := RLMObject.unmanaged.inj (Option.some.inj hr)
      exact hflat
    · rw [Function.update_of_ne hnew] at hr
      exact h.flatObject r stored hr hclass
  value := h.value
  handle r handle hr := by
    rw [KeyedTable.handle_give] at hr
    by_cases hnew : r = s.heap.objects.next
    · rw [hnew, Function.update_self] at hr
      obtain rfl := Option.some.inj hr
      exact ⟨record, by rw [hnew, Realm.object_newObject, Function.update_self], hkey, rfl⟩
    · rw [Function.update_of_ne hnew] at hr
      have hobject : (s.newObject record hflat).2.object r = s.object r := by
        rw [Realm.object_newObject, Function.update_of_ne hnew]
      have hstands := h.handle r handle hr
      cases handle with
      | own id value =>
        obtain ⟨record', hr', hrest⟩ := hstands
        exact ⟨record', hobject.trans hr', hrest⟩
      | stored id =>
        obtain ⟨row, hr', hrest⟩ := hstands
        exact ⟨row, hobject.trans hr', hrest⟩
      | lost =>
        obtain ⟨row, hr', hrest⟩ := hstands
        exact ⟨row, hobject.trans hr', hrest⟩

end NewObject

/-! ### A Realm -/

/-- How a client keeps its values as objects of a class without links. -/
structure ObjectMapping (className : String) (primaryKey : String → Option String)
    (Scalar Value : Type) [IdentifiableCodable Value Scalar] where
  keyed : (primaryKey className).isSome = true
  record : Value → Record Scalar Ref
  value : Record Scalar Empty → Value
  targets_record : ∀ v, (record v).targets = []
  key_record : ∀ v, (record v).key primaryKey = some (className, idOf v)
  value_detach : ∀ v, value (record v).detach = v

variable {Scalar Value : Type} [IdentifiableCodable Value Scalar] [DecidableEq Scalar]
  {repo : RealmRepository} {primaryKey : String → Option String}

/-- A Realm, for a client with a mapping. -/
def RealmRepository.valueRepository (repo : RealmRepository) (pick : Nat → Nat) (fuel : Nat)
    (mapping : ObjectMapping repo.className primaryKey Scalar Value) :
    ValueRepository (StateT (Realm Scalar) Outcome) Scalar Value Ref RealmError where
  make value s := return s.newObject (mapping.record value) (mapping.targets_record value)
  read model s := do
    let record ← s.read model
    return (mapping.value record, s)
  getAll s := return repo.getAll s
  getElement := repo.getElement (.ofSchema primaryKey pick)
  create := repo.create (.ofSchema primaryKey pick) fuel
  createAll := repo.createAll (.ofSchema primaryKey pick) fuel
  delete := RealmRepository.delete (.ofSchema primaryKey pick) fuel
  deleteAll := repo.deleteAll (.ofSchema primaryKey pick) fuel

/-- Records under keys are those of the values. -/
structure ObjectMapping.Fills (mapping : ObjectMapping repo.className primaryKey Scalar Value)
    (records : Scalar → Option (Record Scalar Empty)) (live : Live Scalar Value) : Prop where
  record : ∀ id, records id = (live id).map fun value => (mapping.record value).detach
  keyed : ∀ id value, live id = some value → idOf value = id

/-- A Realm that holds the values. -/
def HoldsValues (mapping : ObjectMapping repo.className primaryKey Scalar Value)
    (pick : Nat → Nat) (s : Realm Scalar) (live : Live Scalar Value) : Prop :=
  ∃ table, Tabulates repo primaryKey pick s table ∧ mapping.Fills table.value live

namespace ObjectMapping

variable (mapping : ObjectMapping repo.className primaryKey Scalar Value) {pick : Nat → Nat}
  (fuel : Nat) {s : Realm Scalar} {table : ModelTable Scalar} {live : Live Scalar Value}

namespace Fills

variable {mapping} {records : Scalar → Option (Record Scalar Empty)}

/-- A value is stored under its id. -/
theorem store (h : mapping.Fills records live) (value : Value) :
    mapping.Fills (Function.update records (idOf value) (some (mapping.record value).detach))
      (live.store value) where
  record id := by
    rw [Live.store]
    by_cases hid : id = idOf value
    · rw [hid, Function.update_self, Function.update_self, Option.map_some]
    · rw [Function.update_of_ne hid, Function.update_of_ne hid, h.record]
  keyed id value' hlive := by
    rw [Live.store] at hlive
    by_cases hid : id = idOf value
    · rw [hid, Function.update_self] at hlive
      rw [← Option.some.inj hlive, hid]
    · rw [Function.update_of_ne hid] at hlive
      exact h.keyed id value' hlive

/-- Values are stored one after the other. -/
theorem storeAll (h : mapping.Fills records live) (values : List Value) :
    mapping.Fills (values.foldl (fun records value =>
        Function.update records (idOf value) (some (mapping.record value).detach)) records)
      (values.foldl Live.store live) := by
  induction values generalizing records live with
  | nil => exact h
  | cons value values ih => exact ih (h.store value)

/-- An id is removed. -/
theorem erase (h : mapping.Fills records live) (id : Scalar) :
    mapping.Fills (fun key => if key == id then none else records key)
      (Function.update live id none) where
  record key := by
    by_cases hkey : key = id
    · rw [hkey, beq_self_eq_true, if_pos rfl, Function.update_self, Option.map_none]
    · rw [beq_false_of_ne hkey, if_neg Bool.false_ne_true, Function.update_of_ne hkey, h.record]
  keyed key value hlive := by
    by_cases hkey : key = id
    · rw [hkey, Function.update_self] at hlive
      cases hlive
    · rw [Function.update_of_ne hkey] at hlive
      exact h.keyed key value hlive

omit [DecidableEq Scalar] in
/-- There is a record where there is a value. -/
theorem ne_none (h : mapping.Fills records live) {id : Scalar} :
    records id ≠ none ↔ ∃ value, live id = some value := by
  rw [h.record, ne_eq, Option.map_eq_none_iff, ← ne_eq, Option.ne_none_iff_exists']

end Fills

/-! ### Reading values -/

section Reading

variable (h : Tabulates repo primaryKey pick s table) (hfills : mapping.Fills table.value live)

include h hfills

omit [DecidableEq Scalar] in
/-- The value of a stored model. -/
theorem read_stored {model : Ref} {id : Scalar} {value : Value}
    (hhandle : table.handle model = some (.stored id)) (hlive : live id = some value) :
    s.read model = .returns (mapping.record value).detach := by
  have hvalueOf : table.valueOf model = some (mapping.record value).detach := by
    rw [KeyedTable.valueOf, hhandle]
    show table.value id = _
    rw [hfills.record, hlive, Option.map_some]
  rcases h.read (ne_of_eq_of_ne hhandle (Option.some_ne_none _)) with
    ⟨record, hrun, hrecord⟩ | ⟨-, hlost⟩
  · rw [hrun, Option.some.inj (hrecord.symm.trans hvalueOf)]
  · rw [hhandle] at hlost
    cases hlost

/-- What `getElement(withId:)` finds. -/
theorem getElement_fills (id : Scalar) : ∃ t table', Tabulates repo primaryKey pick t table' ∧
    mapping.Fills table'.value live ∧
    (live id = none ∧ repo.getElement (.ofSchema primaryKey pick) id s = .returns (none, t) ∨
    ∃ value model, live id = some value ∧
      repo.getElement (.ofSchema primaryKey pick) id s = .returns (some model, t) ∧
      table'.handle model = some (.stored id)) := by
  obtain ⟨found, t, table', hrun, hanswers, ht⟩ := h.getElement mapping.keyed id
  cases hanswers with
  | missing hnone =>
    refine ⟨t, table, ht, hfills, Or.inl ⟨?_, hrun⟩⟩
    rwa [hfills.record, Option.map_eq_none_iff] at hnone
  | @found _ model names hnew hnames hheld =>
    have hname : names model = some id := (hnames model id).mpr ⟨rfl, rfl⟩
    obtain ⟨value, hlive⟩ := hfills.ne_none.mp (hheld model id hname)
    refine ⟨t, _, ht, hfills, Or.inr ⟨value, model, hlive, hrun, ?_⟩⟩
    rw [KeyedTable.handle_hold, hname]
    rfl

omit h hfills in
/-- Reading models one after another. -/
theorem mapM_read {f : Ref → Value} {models : List Ref}
    (hread : ∀ r ∈ models, s.read r = .returns (mapping.record (f r)).detach) :
    (models.mapM (repo.valueRepository pick fuel mapping).read).run s
      = .returns (models.map f, s) := by
  induction models with
  | nil => rfl
  | cons r models ih =>
    have hfirst : ((repo.valueRepository pick fuel mapping).read r).run s = .returns (f r, s) := by
      show (s.read r >>= fun record => .returns (mapping.value record, s)) = _
      rw [hread r List.mem_cons_self, Outcome.returns_bind, mapping.value_detach]
    have hrest := ih fun r' hr' => hread r' (List.mem_cons_of_mem r hr')
    rw [List.mapM_cons, StateT.run_bind, hfirst, Outcome.returns_bind, StateT.run_bind, hrest]
    rfl

/-- What `getAll()` lists is read as the values, each once. -/
theorem getAll_fills : ∃ t values, HoldsValues mapping pick t live ∧
    values.Nodup ∧ (∀ value, value ∈ values ↔ live (idOf value) = some value) ∧
    ((repo.valueRepository pick fuel mapping).perform .list).run s
      = .returns (.listed values, t) := by
  obtain ⟨names, hlists, ht⟩ := h.getAll mapping.keyed
  let table' := table.hold names hlists.held
  let read : Ref → Value := fun r => mapping.value ((table'.valueOf r).getD ⟨"", []⟩)
  -- each model is named by an id, and read as the value of the id
  have hmodel : ∀ r id, names r = some id → live id = some (read r) ∧
      (repo.getAll s).2.read r = .returns (mapping.record (read r)).detach := by
    intro r id hname
    have hhandle : table'.handle r = some (.stored id) := by
      rw [KeyedTable.handle_hold, hname]
      rfl
    obtain ⟨value, hlive⟩ := hfills.ne_none.mp (hlists.held r id hname)
    have hvalue : table'.valueOf r = some (mapping.record value).detach := by
      rw [KeyedTable.valueOf, hhandle]
      show table.value id = _
      rw [hfills.record, hlive, Option.map_some]
    have hread : read r = value := by
      show mapping.value ((table'.valueOf r).getD _) = value
      rw [hvalue, Option.getD_some, mapping.value_detach]
    rw [hread]
    exact ⟨hlive, read_stored mapping ht hfills hhandle hlive⟩
  have hname : ∀ r ∈ (repo.getAll s).1, names r = some (idOf (read r)) := by
    intro r hr
    obtain ⟨id, hid⟩ := Option.ne_none_iff_exists'.mp ((hlists.named r).mpr hr)
    rw [hid, hfills.keyed id _ (hmodel r id hid).1]
  have hnames : (repo.getAll s).1.map names
      = ((repo.getAll s).1.map read).map fun value => some (idOf value) := by
    rw [List.map_map]
    exact List.map_congr_left hname
  refine ⟨(repo.getAll s).2, (repo.getAll s).1.map read, ⟨table', ht, hfills⟩, ?_, ?_, ?_⟩
  · have hnodup := hlists.once
    rw [hnames] at hnodup
    exact List.Nodup.of_map _ hnodup
  · intro value
    constructor
    · intro hmem
      obtain ⟨r, hr, rfl⟩ := List.mem_map.mp hmem
      exact (hmodel r _ (hname r hr)).1
    · intro hlive
      have hheld := (hlists.all (idOf value)).mpr (hfills.ne_none.mpr ⟨value, hlive⟩)
      obtain ⟨r, hr, hid⟩ := List.mem_map.mp hheld
      have hread := (hmodel r _ hid).1
      rw [hlive] at hread
      exact List.mem_map.mpr ⟨r, hr, (Option.some.inj hread).symm⟩
  · have hread : ((repo.getAll s).1.mapM (repo.valueRepository pick fuel mapping).read).run
        (repo.getAll s).2 = .returns ((repo.getAll s).1.map read, (repo.getAll s).2) :=
      mapM_read mapping fuel fun r hr => (hmodel r _ (hname r hr)).2
    have hall : (repo.valueRepository pick fuel mapping).getAll.run s
        = .returns (repo.getAll s) := rfl
    rw [ValueRepository.perform, StateT.run_bind, hall, Outcome.returns_bind, StateT.run_bind,
      hread]
    rfl

end Reading

/-! ### Making models -/

section Making

/-- Making models one after another: each is new, and has its value for its own. -/
theorem mapM_make (h : Tabulates repo primaryKey pick s table) (values : List Value) :
    ∃ models t table', (values.mapM (repo.valueRepository pick fuel mapping).make).run s
        = .returns (models, t) ∧
      Tabulates repo primaryKey pick t table' ∧ table'.value = table.value ∧
      models.Nodup ∧ (∀ r ∈ models, s.object r = none) ∧
      List.Forall₂ (fun r value => table'.handle r
        = some (.own (idOf value) (mapping.record value).detach)) models values ∧
      ∀ r, s.object r ≠ none → table'.handle r = table.handle r := by
  induction values generalizing s table with
  | nil => exact ⟨[], s, table, rfl, h, rfl, .nil, fun _ hr => absurd hr List.not_mem_nil, .nil,
      fun _ _ => rfl⟩
  | cons value values ih =>
    have hflat := mapping.targets_record value
    obtain ⟨models, t, table', hrun, ht, hvalue, hnodup, hnew, hown, hkept⟩ :=
      ih (h.newObject hflat (mapping.key_record value))
    have hknown : (s.newObject (mapping.record value) hflat).2.object s.heap.objects.next
        = some (.unmanaged (mapping.record value)) := by
      rw [Realm.object_newObject, Function.update_self]
    have hold : ∀ r, s.object r ≠ none → r ≠ s.heap.objects.next := by
      rintro _ hr rfl
      exact hr Realm.object_next
    refine ⟨s.heap.objects.next :: models, t, table', ?_, ht, hvalue, ?_, ?_, .cons ?_ hown, ?_⟩
    · have hfirst : ((repo.valueRepository pick fuel mapping).make value).run s
          = .returns (s.newObject (mapping.record value) hflat) := rfl
      rw [List.mapM_cons, StateT.run_bind, hfirst, Outcome.returns_bind, StateT.run_bind, hrun]
      rfl
    · refine List.nodup_cons.mpr ⟨fun hmem => ?_, hnodup⟩
      have hnone := hnew _ hmem
      rw [hknown] at hnone
      cases hnone
    · intro r hr
      rcases List.mem_cons.mp hr with rfl | hr
      · exact Realm.object_next
      · by_contra hne
        have hnone := hnew r hr
        rw [Realm.object_newObject_of_known hflat hne] at hnone
        exact hne hnone
    · rw [hkept _ (ne_of_eq_of_ne hknown (Option.some_ne_none _)), KeyedTable.handle_give,
        Function.update_self]
    · intro r hr
      rw [hkept r (by rwa [Realm.object_newObject_of_known hflat hr]), KeyedTable.handle_give,
        Function.update_of_ne (hold r hr)]

end Making

/-! ### Changing values -/

section Changing

omit [DecidableEq Scalar] in
/-- The only model of the list has its handle. -/
theorem handle_of_mem_singleton {model : Ref} {handle : Handle Scalar (Record Scalar Empty)}
    (hmodel : table.handle model = some handle) : ∀ r ∈ [model], table.handle r ≠ none := by
  intro r hr
  obtain rfl := List.mem_singleton.mp hr
  exact ne_of_eq_of_ne hmodel (Option.some_ne_none _)

variable (h : Tabulates repo primaryKey pick s table) (hfills : mapping.Fills table.value live)

include h hfills

/-- `create(_ model:)` of a model that was made of a value. -/
theorem create_fills {model : Ref} {value : Value}
    (hown : table.handle model = some (.own (idOf value) (mapping.record value).detach)) :
    ∃ t, repo.create (.ofSchema primaryKey pick) (fuel + 2) model s
        = .returns (.success model, t) ∧ HoldsValues mapping pick t (live.store value) := by
  rcases h.call mapping.keyed fuel (.create model) (handle_of_mem_singleton hown) with
    ⟨answer, t, table', hrun, hanswers, ht⟩ | ⟨-, hlost⟩
  · obtain ⟨⟨result, t'⟩, hcreate, hreturns⟩ := Outcome.bind_eq_returns.mp hrun
    cases hanswers with
    | create hadd =>
      cases hreturns
      rw [KeyedTable.add, hown] at hadd
      obtain rfl := Option.some.inj hadd
      exact ⟨t, hcreate, _, ht, hfills.store value⟩
  · exact absurd (hown.symm.trans hlost) (by simp)

/-- `create(_ models:)` of models that were made of values. -/
theorem createAll_fills {models : List Ref} {values : List Value} (hnodup : models.Nodup)
    (hown : List.Forall₂ (fun r value => table.handle r
      = some (.own (idOf value) (mapping.record value).detach)) models values) :
    ∃ t, repo.createAll (.ofSchema primaryKey pick) (fuel + 2) models s
        = .returns (.success models, t) ∧
      HoldsValues mapping pick t (values.foldl Live.store live) := by
  obtain ⟨table₁, hadd₁, hvalue⟩ := KeyedTable.foldlM_add_own hnodup hown
  have hboth : List.Forall₂ (fun r _ => table.handle r ≠ none ∧ True) models values :=
    hown.imp fun r value hr => ⟨ne_of_eq_of_ne hr (Option.some_ne_none _), trivial⟩
  have hgiven : ∀ r ∈ models, table.handle r ≠ none :=
    ((List.forall₂_and_left models values).mp hboth).1
  rcases h.call mapping.keyed fuel (.createAll models) hgiven with
    ⟨answer, t, table', hrun, hanswers, ht⟩ | ⟨-, hnone⟩
  · obtain ⟨⟨result, t'⟩, hcreate, hreturns⟩ := Outcome.bind_eq_returns.mp hrun
    cases hanswers with
    | createAll hadd =>
      cases hreturns
      obtain rfl := Option.some.inj (hadd₁.symm.trans hadd)
      exact ⟨t, hcreate, _, ht, hvalue ▸ hfills.storeAll values⟩
  · exact absurd (hadd₁.symm.trans hnone) (Option.some_ne_none _)

/-- `delete(_ model:)` of a stored model. -/
theorem delete_fills {model : Ref} {id : Scalar}
    (hhandle : table.handle model = some (.stored id)) :
    ∃ t, RealmRepository.delete (.ofSchema primaryKey pick) (fuel + 2) model s
        = .returns (none, t) ∧ HoldsValues mapping pick t (Function.update live id none) := by
  rcases h.call mapping.keyed fuel (.delete model) (handle_of_mem_singleton hhandle) with
    ⟨answer, t, table', hrun, hanswers, ht⟩ | ⟨-, hlost⟩
  · obtain ⟨⟨error, t'⟩, hdelete, hreturns⟩ := Outcome.bind_eq_returns.mp hrun
    cases hanswers with
    | delete hdrop =>
      cases hreturns
      rw [KeyedTable.drop, hhandle] at hdrop
      obtain rfl := Option.some.inj hdrop
      exact ⟨t, hdelete, _, ht, hfills.erase id⟩
  · exact absurd (hhandle.symm.trans hlost) (by simp)

omit hfills in
/-- `deleteAll()` -/
theorem deleteAll_fills : ∃ error t,
    repo.deleteAll (.ofSchema primaryKey pick) (fuel + 2) s = .returns (error, t) ∧
      HoldsValues mapping pick t (fun _ => none : Live Scalar Value) := by
  rcases h.call mapping.keyed fuel .deleteAll fun _ hr => absurd hr List.not_mem_nil with
    ⟨answer, t, table', hrun, hanswers, ht⟩ | ⟨-, hnever⟩
  · obtain ⟨⟨error, t'⟩, hdelete, hreturns⟩ := Outcome.bind_eq_returns.mp hrun
    cases hanswers with
    | deleteAll =>
      cases hreturns
      exact ⟨none, t, hdelete, _, ht, fun _ => rfl, fun _ _ hlive => by cases hlive⟩
  · exact hnever.elim

end Changing

/-- **One call on a Realm** does what the specification says. -/
theorem perform_answers (h : HoldsValues mapping pick s live) (call : ValueCall Scalar Value) :
    ∃ answer t live', ((repo.valueRepository pick (fuel + 2) mapping).perform call).run s
        = .returns (answer, t) ∧
      ValueAnswers live call answer live' ∧ HoldsValues mapping pick t live' := by
  obtain ⟨table, h, hfills⟩ := h
  cases call with
  | save value =>
    have hmade := h.newObject (mapping.targets_record value) (mapping.key_record value)
    obtain ⟨t, hrun, ht⟩ := create_fills mapping fuel hmade hfills (Function.update_self ..)
    refine ⟨.saved true, t, live.store value, ?_, .save, ht⟩
    show (repo.create _ _ _ (s.newObject (mapping.record value) _).2 >>= _) = _
    rw [hrun]
    rfl
  | saveAll values =>
    obtain ⟨models, s', table', hmade, h', hvalue, hnodup, -, hown, -⟩ :=
      mapM_make mapping (fuel + 2) h values
    obtain ⟨t, hrun, ht⟩ := createAll_fills mapping fuel h' (hvalue ▸ hfills) hnodup hown
    refine ⟨.saved true, t, values.foldl Live.store live, ?_, .saveAll, ht⟩
    rw [ValueRepository.perform, StateT.run_bind, hmade]
    show (repo.createAll _ _ _ _ >>= _) = _
    rw [hrun]
    rfl
  | find id =>
    obtain ⟨t, table', ht, hfills', ⟨hlive, hrun⟩ | ⟨value, model, hlive, hrun, hhandle⟩⟩ :=
      getElement_fills mapping h hfills id
    · refine ⟨.found none, t, live, ?_, hlive ▸ .find, table', ht, hfills'⟩
      show (repo.getElement _ _ _ >>= _) = _
      rw [hrun]
      rfl
    · refine ⟨.found (some value), t, live, ?_, hlive ▸ .find, table', ht, hfills'⟩
      show (repo.getElement _ _ _ >>= _) = _
      rw [hrun]
      show ((t.read model >>= _) >>= _) = _
      rw [read_stored mapping ht hfills' hhandle hlive, Outcome.returns_bind, mapping.value_detach]
      rfl
  | list =>
    obtain ⟨t, values, ht, hnodup, hmem, hrun⟩ := getAll_fills mapping (fuel + 2) h hfills
    exact ⟨.listed values, t, live, hrun, .list hnodup hmem, ht⟩
  | remove id =>
    obtain ⟨t, table', ht, hfills', ⟨hlive, hrun⟩ | ⟨value, model, hlive, hrun, hhandle⟩⟩ :=
      getElement_fills mapping h hfills id
    · have hsame : Function.update live id none = live := by
        rw [← hlive, Function.update_eq_self]
      refine ⟨.removed true, t, Function.update live id none, ?_, .remove, table', ht, ?_⟩
      · show (repo.getElement _ _ _ >>= _) = _
        rw [hrun]
        rfl
      · rwa [hsame]
    · obtain ⟨t', hdelete, ht'⟩ := delete_fills mapping fuel ht hfills' hhandle
      refine ⟨.removed true, t', Function.update live id none, ?_, .remove, ht'⟩
      show (repo.getElement _ _ _ >>= _) = _
      rw [hrun]
      show (RealmRepository.delete _ _ _ _ >>= _) = _
      rw [hdelete]
      rfl
  | removeAll =>
    obtain ⟨error, t, hrun, ht⟩ := deleteAll_fills mapping fuel h
    refine ⟨.removedAll, t, fun _ => none, ?_, .removeAll, ht⟩
    show (repo.deleteAll _ _ _ >>= _) = _
    rw [hrun]
    rfl

/-- **Every sequence of calls on a Realm** does. -/
theorem mapM_answers (h : HoldsValues mapping pick s live)
    (calls : List (ValueCall Scalar Value)) :
    ∃ answers t live', (calls.mapM (repo.valueRepository pick (fuel + 2) mapping).perform).run s
        = .returns (answers, t) ∧
      Machine.Runs ValueAnswers live calls answers live' ∧ HoldsValues mapping pick t live' := by
  induction calls generalizing s live with
  | nil => exact ⟨[], s, live, rfl, .nil live, h⟩
  | cons call calls ih =>
    obtain ⟨answer, s', live', hcall, hanswers, h'⟩ := perform_answers mapping fuel h call
    obtain ⟨answers, t, live'', hrun, hruns, ht⟩ := ih h'
    refine ⟨answer :: answers, t, live'', ?_, .cons hanswers hruns, ht⟩
    rw [List.mapM_cons, StateT.run_bind, hcall, Outcome.returns_bind, StateT.run_bind, hrun]
    rfl

end ObjectMapping

/-! ### Both -/

/-- **A client cannot tell a directory from a Realm**: if both hold the same values, then a sequence
    of calls gets the same answers from both, but for the order of lists, and leaves the same values
    in both. -/
theorem interchangeable {Data : Type} {directory : FileSystemRepository Value Data}
    {env : Environment Scalar} {S : Set Scalar} {fm : FileManager Data} {live : Live Scalar Value}
    {s : Realm Scalar} {pick : Nat → Nat}
    (mapping : ObjectMapping repo.className primaryKey Scalar Value) (fuel : Nat)
    (hcodec : ∀ value, directory.decode (directory.encode value) = some value)
    (hq : env.Quiet) (hinj : Set.InjOn env.hashValue S) (hfm : directory.Stores env S fm live)
    (hs : HoldsValues mapping pick s live) (calls : List (ValueCall Scalar Value))
    (hids : ∀ call ∈ calls, call.ids ⊆ S) :
    ∃ answers t, (calls.mapM (repo.valueRepository pick (fuel + 2) mapping).perform).run s
        = .returns (answers, t) ∧
      List.Forall₂ ValueAnswer.Alike
        ((calls.mapM (directory.valueRepository env).perform).run fm).1 answers ∧
      ∃ live', HoldsValues mapping pick t live' ∧ directory.Stores env S
        ((calls.mapM (directory.valueRepository env).perform).run fm).2 live' := by
  obtain ⟨answers, t, live', hrun, hruns, ht⟩ := mapping.mapM_answers fuel hs calls
  obtain ⟨live'', hruns', hstores⟩ := Machine.Runs.simulates
    (R := fun fm live => directory.Stores env S fm live) (P := fun _ call => call.ids ⊆ S)
    (fun fm live call hcall h => h.perform_answers hq hinj hcodec call hcall) calls
    (Machine.Along.of_mem (fun _ => hids) fm) hfm
  obtain ⟨halike, rfl⟩ := hruns'.agree hruns ValueAnswers.alike
  refine ⟨answers, t, hrun, ?_, live'', ht, ?_⟩
  · rw [Machine.run_mapM]
    exact halike
  · rw [Machine.run_mapM]
    exact hstores

/-! ### Employees -/

namespace Sample

/-- The objects of the employees. -/
def employeeObjects : RealmRepository := ⟨"Employee"⟩

/-- An employee, as an object. -/
def employeeMapping :
    ObjectMapping employeeObjects.className (fun _ => some "number") Nat Employee where
  keyed := rfl
  record employee := ⟨"Employee", [("number", .scalar employee.number),
    ("age", .scalar employee.age)]⟩
  value record :=
    match record.properties with
    | [(_, .scalar number), (_, .scalar age)] => ⟨number, age⟩
    | _ => ⟨0, 0⟩
  targets_record _ := rfl
  key_record _ := rfl
  value_detach _ := rfl

/-- A Realm without rows, of a program without objects. -/
def emptyRealm : Realm Nat where
  rows := .empty
  heap := ⟨.empty, not_unmanaged_empty⟩
  inWriteTransaction := false
  picks := 0

/-- No models, and no values under their ids. -/
def emptyTable : ModelTable Nat where
  value _ := none
  handle _ := none
  held _ _ h := absurd h.symm (Option.some_ne_none _)

/-- The empty Realm is consistent. -/
theorem consistent_emptyRealm (env : RealmEnvironment Nat) : emptyRealm.Consistent env where
  unique _ _ _ h := by cases h
  alive _ _ h := by cases h
  keyed _ _ h := by cases h
  keyedObject _ _ h := by cases h
  allocated _ _ _ h := by cases h
  typed _ _ _ _ h := by cases h

/-- The empty table tabulates it. -/
theorem tabulates_emptyRealm : Tabulates employeeObjects (fun _ => some "number") (fun _ => 0)
    emptyRealm emptyTable where
  consistent := consistent_emptyRealm _
  idle := rfl
  flatRow _ _ h := by cases h
  flatObject _ _ h := by cases h
  value id value := by
    constructor
    · intro h
      cases h
    · rintro ⟨_, _, h, -⟩
      cases h
  handle _ _ h := by cases h

/-- It holds no values. -/
theorem holdsValues_emptyRealm :
    HoldsValues employeeMapping (fun _ => 0) emptyRealm fun _ => none :=
  ⟨emptyTable, tabulates_emptyRealm, fun _ => rfl, fun _ _ h => by cases h⟩

/-- Two employees are saved, and one of them again; one is removed. -/
def replaceEmployees : List (ValueCall Nat Employee) :=
  [.saveAll [⟨1, 21⟩, ⟨2, 24⟩], .save ⟨1, 22⟩, .remove 2, .find 1, .list]

end Sample

/-- Employees in a Realm and in a directory, both empty at the start. -/
theorem interchangeable_employees :
    ∃ answers t, (Sample.replaceEmployees.mapM (Sample.employeeObjects.valueRepository
        (fun _ => 0) 2 Sample.employeeMapping).perform).run Sample.emptyRealm
        = .returns (answers, t) ∧
      List.Forall₂ ValueAnswer.Alike ((Sample.replaceEmployees.mapM
        (Sample.employees.valueRepository (Sample.process Int.ofNat)).perform).run
          Sample.blank).1 answers ∧
      ∃ live', HoldsValues Sample.employeeMapping (fun _ => 0) t live' ∧
        Sample.employees.Stores (Sample.process Int.ofNat) Set.univ
          ((Sample.replaceEmployees.mapM
            (Sample.employees.valueRepository (Sample.process Int.ofNat)).perform).run
              Sample.blank).2 live' :=
  interchangeable Sample.employeeMapping 0 Sample.employees_codec
    (Sample.process_quiet Int.ofNat) (fun _ _ _ _ h => Int.ofNat.inj h)
    (FileSystemRepository.stores_fresh (Or.inl rfl)) Sample.holdsValues_emptyRealm
    Sample.replaceEmployees fun _ _ => Set.subset_univ _

end QBRepository
