import QBRepository.Lib.KeyedTable
import QBRepository.Realm.Flat

namespace QBRepository

/-!
# A class without links is a table

The specification of a repository for a class that has a primary key and no links: a table of
values under their keys, with the models of the program as its handles.  The Realm meets it with
its rows, accessors and worklists.

* `RepositoryCall`, `RepositoryAnswer`, `RealmRepository.call` — the calls, and what they do;
* `Answers`, `Raises` — what they may answer, and when they raise, in terms of a table;
* `Tabulates` — a Realm and its table; `Tabulates.deleteRow`, `Tabulates.store` — a row is deleted,
  and a model gets one;
* `Tabulates.add`, `Tabulates.drop`, `Tabulates.deleteAll` — what the calls do in a transaction;
* `Tabulates.getAll`, `Tabulates.getElement`, `Tabulates.read` — what is read.
-/

/-! ### The calls -/

/-- A call on a repository, or reading the properties of a model; `getAll` reads its collection at
    once. -/
inductive RepositoryCall (Scalar : Type) where
  | getAll
  | getElement (id : Scalar)
  | read (model : Ref)
  | create (model : Ref)
  | createAll (models : List Ref)
  | update (model : Ref)
  | delete (model : Ref)
  | deleteList (models : List Ref)
  | deleteAll

/-- What a call answers. -/
inductive RepositoryAnswer (Scalar : Type) where
  | models (models : List Ref)
  | model (model : Option Ref)
  | record (record : Record Scalar Empty)
  | edit (result : RepositoryEditResult RealmError Ref)
  | edits (result : RepositoryEditResult RealmError (List Ref))
  | error (error : Option RealmError)

/-- The models a call is given. -/
def RepositoryCall.given {Scalar : Type} : RepositoryCall Scalar → List Ref
  | .read model | .create model | .update model | .delete model => [model]
  | .createAll models | .deleteList models => models
  | .getAll | .getElement _ | .deleteAll => []

variable {Scalar : Type}

/-- The values of the properties of an object; reading those of an invalidated one raises. -/
def Realm.read (s : Realm Scalar) (model : Ref) : Outcome (Record Scalar Empty) :=
  match s.record (s.vertexOf model) with
  | some record => .returns record.detach
  | none => .raises

variable [DecidableEq Scalar]

/-- A call, its answer, and the Realm it leaves. -/
def RealmRepository.call (repo : RealmRepository) (env : RealmEnvironment Scalar) (fuel : Nat)
    (s : Realm Scalar) : RepositoryCall Scalar → Outcome (RepositoryAnswer Scalar × Realm Scalar)
  | .getAll => return (.models (repo.getAll s).1, (repo.getAll s).2)
  | .getElement id => do
    let (model, s) ← repo.getElement env id s
    return (.model model, s)
  | .read model => do
    let record ← s.read model
    return (.record record, s)
  | .create model => do
    let (result, s) ← repo.create env fuel model s
    return (.edit result, s)
  | .createAll models => do
    let (result, s) ← repo.createAll env fuel models s
    return (.edits result, s)
  | .update model => do
    let (result, s) ← repo.update env fuel model s
    return (.edit result, s)
  | .delete model => do
    let (error, s) ← RealmRepository.delete env fuel model s
    return (.error error, s)
  | .deleteList models => do
    let (error, s) ← RealmRepository.deleteList env fuel models s
    return (.error error, s)
  | .deleteAll => do
    let (error, s) ← repo.deleteAll env fuel s
    return (.error error, s)

/-! ### The specification -/

/-- A table of values under primary keys, with models as handles. -/
abbrev ModelTable (Scalar : Type) := KeyedTable Ref Scalar (Record Scalar Empty)

/-- A list of new models, one for each value of the table; `names` says for which. -/
structure ModelTable.Lists (table : ModelTable Scalar) (models : List Ref)
    (names : Ref → Option Scalar) : Prop where
  new : ∀ model ∈ models, table.handle model = none
  named : ∀ model, names model ≠ none ↔ model ∈ models
  all : ∀ id, some id ∈ models.map names ↔ table.value id ≠ none
  once : (models.map names).Nodup

omit [DecidableEq Scalar] in
/-- A name of the list is that of a value. -/
theorem ModelTable.Lists.held {table : ModelTable Scalar} {models : List Ref}
    {names : Ref → Option Scalar} (h : table.Lists models names) (model : Ref) (id : Scalar)
    (hname : names model = some id) : table.value id ≠ none := by
  refine (h.all id).mp ?_
  rw [← hname]
  exact List.mem_map_of_mem ((h.named model).mp (hname ▸ Option.some_ne_none id))

/-- What a call may answer, and the table it leaves. -/
inductive Answers (table : ModelTable Scalar) :
    RepositoryCall Scalar → RepositoryAnswer Scalar → ModelTable Scalar → Prop where
  | getAll {models : List Ref} {names : Ref → Option Scalar} (h : table.Lists models names) :
      Answers table .getAll (.models models) (table.hold names h.held)
  | found {id : Scalar} {model : Ref} {names : Ref → Option Scalar}
      (hnew : table.handle model = none)
      (hnames : ∀ model' id', names model' = some id' ↔ model' = model ∧ id' = id)
      (h : ∀ model' id', names model' = some id' → table.value id' ≠ none) :
      Answers table (.getElement id) (.model (some model)) (table.hold names h)
  | missing {id : Scalar} (h : table.value id = none) :
      Answers table (.getElement id) (.model none) table
  | read {model : Ref} {record : Record Scalar Empty} (h : table.valueOf model = some record) :
      Answers table (.read model) (.record record) table
  | create {model : Ref} {table' : ModelTable Scalar} (h : table.add model = some table') :
      Answers table (.create model) (.edit (.success model)) table'
  | createAll {models : List Ref} {table' : ModelTable Scalar}
      (h : models.foldlM KeyedTable.add table = some table') :
      Answers table (.createAll models) (.edits (.success models)) table'
  | update {model : Ref} {id : Scalar} {table' : ModelTable Scalar}
      (hid : table.keyOf model = some id) (hnone : table.value id = none)
      (h : table.add model = some table') :
      Answers table (.update model) (.edit (.success model)) table'
  | updateRefused {model : Ref} {id : Scalar} (hid : table.keyOf model = some id)
      (h : table.value id ≠ none) :
      Answers table (.update model) (.edit (.error .noOriginalObject)) table
  | delete {model : Ref} {table' : ModelTable Scalar} (h : table.drop model = some table') :
      Answers table (.delete model) (.error none) table'
  | deleteList {models : List Ref} {table' : ModelTable Scalar}
      (h : models.foldlM KeyedTable.drop table = some table') :
      Answers table (.deleteList models) (.error none) table'
  | deleteAll : Answers table .deleteAll (.error none) (table.remove fun _ => true)

/-- A call raises if it comes to a model that has lost its value. -/
def Raises (table : ModelTable Scalar) : RepositoryCall Scalar → Prop
  | .getAll | .getElement _ | .deleteAll => False
  | .read model | .create model | .update model | .delete model =>
    table.handle model = some .lost
  | .createAll models => models.foldlM KeyedTable.add table = none
  | .deleteList models => models.foldlM KeyedTable.drop table = none

/-! ### The table of a Realm -/

omit [DecidableEq Scalar] in
/-- An object is what a handle stands for. -/
def Realm.StandsFor (repo : RealmRepository) (primaryKey : String → Option String)
    (pick : Nat → Nat) (s : Realm Scalar) (r : Ref) :
    Handle Scalar (Record Scalar Empty) → Prop
  | .own id value => ∃ record, s.object r = some (.unmanaged record) ∧
      record.key primaryKey = some (repo.className, id) ∧ record.detach = value
  | .stored id => ∃ row, s.object r = some (.managed repo.className row) ∧
      s.rowKey (.ofSchema primaryKey pick) row = some (repo.className, id)
  | .lost => ∃ row, s.object r = some (.managed repo.className row) ∧ s.rows.get row = none

omit [DecidableEq Scalar] in
/-- A consistent Realm, where the class of the repository has no links, and its table. -/
structure Tabulates (repo : RealmRepository) (primaryKey : String → Option String)
    (pick : Nat → Nat) (s : Realm Scalar) (table : ModelTable Scalar) : Prop where
  consistent : s.Consistent (.ofSchema primaryKey pick)
  idle : s.inWriteTransaction = false
  flatRow : ∀ row record, s.rows.get row = some record →
    record.className = repo.className → record.targets = []
  flatObject : ∀ r record, s.object r = some (.unmanaged record) →
    record.className = repo.className → record.targets = []
  value : ∀ id value, table.value id = some value ↔ ∃ row record,
    s.rows.get row = some record ∧ record.key primaryKey = some (repo.className, id) ∧
      record.detach = value
  /-- there may be objects that are no handles -/
  handle : ∀ r handle, table.handle r = some handle → s.StandsFor repo primaryKey pick r handle

namespace Tabulates

variable {repo : RealmRepository} {primaryKey : String → Option String} {pick : Nat → Nat}
  {s t : Realm Scalar} {table : ModelTable Scalar}

section Changes

omit [DecidableEq Scalar]

variable (h : Tabulates repo primaryKey pick s table)

include h

/-- A value of the table is that of a row. -/
theorem value_ne_none {id : Scalar} : table.value id ≠ none ↔
    ∃ row, s.rowKey (.ofSchema primaryKey pick) row = some (repo.className, id) := by
  rw [Option.ne_none_iff_exists']
  constructor
  · rintro ⟨value, hvalue⟩
    obtain ⟨row, record, hrow, hkey, -⟩ := (h.value id value).mp hvalue
    exact ⟨row, (Realm.rowKey_of_get hrow).trans hkey⟩
  · rintro ⟨row, hkey⟩
    obtain ⟨record, hrow, hkey⟩ := Option.bind_eq_some_iff.mp hkey
    exact ⟨record.detach, (h.value id _).mpr ⟨row, record, hrow, hkey, rfl⟩⟩

/-- Reading objects changes nothing. -/
theorem of_extends (hext : s.Extends t) (ht : t.Consistent (.ofSchema primaryKey pick))
    (hidle : t.inWriteTransaction = false) : Tabulates repo primaryKey pick t table where
  consistent := ht
  idle := hidle
  flatRow := by
    rw [hext.rows]
    exact h.flatRow
  flatObject r record hr := h.flatObject r record (hext.unmanaged r record hr)
  value := by
    rw [hext.rows]
    exact h.value
  handle r handle hr := by
    have hstands := h.handle r handle hr
    cases handle with
    | own id value =>
      obtain ⟨record, hobject, hrest⟩ := hstands
      exact ⟨record, hext.object r _ hobject, hrest⟩
    | stored id =>
      obtain ⟨row, hobject, hkey⟩ := hstands
      refine ⟨row, hext.object r _ hobject, ?_⟩
      rwa [Realm.rowKey, hext.rows]
    | lost =>
      obtain ⟨row, hobject, hgone⟩ := hstands
      refine ⟨row, hext.object r _ hobject, ?_⟩
      rwa [hext.rows]

/-- So does taking elements out of sets. -/
theorem picked : Tabulates repo primaryKey pick { s with picks := s.picks + 1 } table := by
  have hkeeps : Keeps (.ofSchema primaryKey pick) s { s with picks := s.picks + 1 } :=
    Realm.keeps_of_eq rfl rfl
  exact h.of_extends ⟨.of_heap rfl, rfl⟩ (hkeeps h.consistent).1 h.idle

/-- Accessors become handles. -/
theorem hold {names : Ref → Option Scalar}
    (hnames : ∀ r id, names r = some id → table.value id ≠ none)
    (hobjects : ∀ r id, names r = some id → s.StandsFor repo primaryKey pick r (.stored id)) :
    Tabulates repo primaryKey pick s (table.hold names hnames) where
  consistent := h.consistent
  idle := h.idle
  flatRow := h.flatRow
  flatObject := h.flatObject
  value := h.value
  handle r handle hr := by
    rw [KeyedTable.handle_hold] at hr
    cases hname : names r with
    | none =>
      rw [hname] at hr
      exact h.handle r handle hr
    | some id =>
      rw [hname] at hr
      cases hr
      exact hobjects r id hname

/-- A row is deleted. -/
theorem deleteRow [DecidableEq Scalar] {row : RowId} {id : Scalar}
    (hkey : s.rowKey (.ofSchema primaryKey pick) row = some (repo.className, id)) :
    Tabulates repo primaryKey pick (s.deleteRow row) (table.remove fun k => k == id) := by
  -- no other row has the key
  have hne : ∀ k id', s.rowKey (.ofSchema primaryKey pick) k = some (repo.className, id') →
      (k = row ↔ id' = id) := by
    intro k id' hk
    constructor
    · rintro rfl
      rw [hkey, Option.some.injEq, Prod.mk.injEq] at hk
      exact hk.2.symm
    · rintro rfl
      exact h.consistent.unique k row _ hk hkey
  refine ⟨(Realm.keeps_deleteRow s row h.consistent).1, h.idle, ?_, h.flatObject, ?_, ?_⟩
  · intro k stored hstored hclass
    obtain ⟨-, record, hrecord, rfl⟩ := Realm.get_deleteRow hstored
    rw [Record.targets_filterMap, h.flatRow k record hrecord hclass, List.filterMap_nil]
  · intro id' value
    rw [KeyedTable.value_remove]
    constructor
    · intro hvalue
      split at hvalue
      · cases hvalue
      next hid =>
        obtain ⟨k, record, hrow, hk, hdetach⟩ := (h.value id' value).mp hvalue
        have hkept : k ≠ row := fun hsame => hid (beq_iff_eq.mpr
          ((hne k id' ((Realm.rowKey_of_get hrow).trans hk)).mp hsame))
        refine ⟨k, _, by rw [Realm.get_deleteRow_of_ne hkept, hrow]; rfl, ?_, ?_⟩
        · rwa [Record.key_filterMap]
        · rwa [Record.detach_filterMap]
    · rintro ⟨k, stored, hstored, hk, hdetach⟩
      obtain ⟨hkept, record, hrow, rfl⟩ := Realm.get_deleteRow hstored
      rw [Record.key_filterMap] at hk
      rw [Record.detach_filterMap] at hdetach
      have hid : id' ≠ id := fun hsame => hkept
        ((hne k id' ((Realm.rowKey_of_get hrow).trans hk)).mpr hsame)
      rw [if_neg (by simpa using hid)]
      exact (h.value id' value).mpr ⟨k, record, hrow, hk, hdetach⟩
  · intro r handle hr
    rw [KeyedTable.handle_remove] at hr
    obtain ⟨before, hbefore, rfl⟩ := Option.map_eq_some_iff.mp hr
    have hstands := h.handle r before hbefore
    cases before with
    | own id' value => exact hstands
    | stored id' =>
      obtain ⟨k, hobject, hk⟩ := hstands
      rw [Handle.lose_stored]
      by_cases hid : id' = id
      · have hlost : k = row := (hne k id' hk).mpr hid
        rw [if_pos (beq_iff_eq.mpr hid)]
        exact ⟨k, hobject, hlost ▸ Realm.get_deleteRow_self⟩
      · have hkept : k ≠ row := fun hsame => hid ((hne k id' hk).mp hsame)
        rw [if_neg (by simpa using hid)]
        exact ⟨k, hobject, (Realm.rowKey_deleteRow hkept).trans hk⟩
    | lost =>
      obtain ⟨k, hobject, hgone⟩ := hstands
      refine ⟨k, hobject, ?_⟩
      show (s.rows.get k).bind _ = none
      rw [hgone, Option.bind_none]

section Store

variable {model : Ref} {record : Record Scalar Ref} {row : RowId} {id : Scalar}
  (hkey : record.key primaryKey = some (repo.className, id))
  (hadded : AddedFlat (.ofSchema primaryKey pick) s model record row t)

include hkey hadded

/-- The values of the class are those there were, and that of the model. -/
theorem value_store [DecidableEq Scalar] (ht : t.Consistent (.ofSchema primaryKey pick))
    (id' : Scalar) (value : Record Scalar Empty) :
    (table.store model id record.detach).value id' = some value ↔ ∃ k record',
      t.rows.get k = some record' ∧ record'.key primaryKey = some (repo.className, id') ∧
        record'.detach = value := by
  obtain ⟨stored, hstored, -, hsame, hdetach⟩ := hadded.stored
  have hrow : t.rowKey (.ofSchema primaryKey pick) row = some (repo.className, id) :=
    hadded.rowKey_self.trans hkey
  rw [KeyedTable.value_store]
  by_cases hid : id' = id
  · subst hid
    rw [Function.update_self]
    constructor
    · intro hvalue
      exact ⟨row, stored, hstored, hsame.trans hkey, hdetach.trans (Option.some.inj hvalue)⟩
    · rintro ⟨k, record', hk, hkey', rfl⟩
      obtain rfl : k = row := ht.unique k row _ ((Realm.rowKey_of_get hk).trans hkey') hrow
      obtain rfl := Option.some.inj (hstored.symm.trans hk)
      rw [hdetach]
  · rw [Function.update_of_ne hid, h.value id' value]
    -- the row has the key of the model, before and after
    have hne : ∀ k, t.rowKey (.ofSchema primaryKey pick) k = some (repo.className, id') →
        k ≠ row := by
      rintro k hk rfl
      exact hid (Prod.mk.inj (Option.some.inj (hk.symm.trans hrow))).2
    constructor
    · rintro ⟨k, record', hk, hrest⟩
      have hkept := hne k ((hadded.rowKey_of_lt (s.rows.lt_next_of_get hk)).trans
        ((Realm.rowKey_of_get hk).trans hrest.1))
      exact ⟨k, record', (hadded.other k hkept).trans hk, hrest⟩
    · rintro ⟨k, record', hk, hrest⟩
      have hkept := hne k ((Realm.rowKey_of_get hk).trans hrest.1)
      exact ⟨k, record', (hadded.other k hkept).symm.trans hk, hrest⟩

/-- Other models stand for what they stood for. -/
theorem standsFor_store {r : Ref} {handle : Handle Scalar (Record Scalar Empty)}
    (hr : r ≠ model) (hstands : s.StandsFor repo primaryKey pick r handle) :
    t.StandsFor repo primaryKey pick r handle := by
  have hobject := hadded.object_of_ne hr
  cases handle with
  | own id' value =>
    obtain ⟨record', hr, hrest⟩ := hstands
    exact ⟨record', hobject.trans hr, hrest⟩
  | stored id' =>
    obtain ⟨k, hr, hk⟩ := hstands
    have hlt := h.consistent.allocated r _ k hr
    exact ⟨k, hobject.trans hr, (hadded.rowKey_of_lt hlt).trans hk⟩
  | lost =>
    obtain ⟨k, hr, hgone⟩ := hstands
    refine ⟨k, hobject.trans hr, ?_⟩
    have hne : k ≠ row := by
      rintro rfl
      have hk := hadded.rowKey_of_lt (h.consistent.allocated r _ k hr)
      rw [hadded.rowKey_self.trans hkey, Realm.rowKey, hgone] at hk
      cases hk
    rw [hadded.other k hne, hgone]

/-- A model gets a row. -/
theorem store [DecidableEq Scalar] (ht : t.Consistent (.ofSchema primaryKey pick)) :
    Tabulates repo primaryKey pick t (table.store model id record.detach) := by
  refine ⟨ht, hadded.inWriteTransaction.trans h.idle, ?_, ?_, h.value_store hkey hadded ht, ?_⟩
  · intro k record' hk hclass
    by_cases hne : k = row
    · obtain ⟨stored, hstored, htargets, -⟩ := hadded.stored
      subst hne
      obtain rfl := Option.some.inj (hstored.symm.trans hk)
      exact htargets
    · exact h.flatRow k record' ((hadded.other k hne).symm.trans hk) hclass
  · intro u record' hu hclass
    by_cases hne : u = model
    · rw [hadded.object, hne, Function.update_self] at hu
      cases hu
    · exact h.flatObject u record' ((hadded.object_of_ne hne).symm.trans hu) hclass
  · intro r handle hr
    rw [KeyedTable.handle_store] at hr
    by_cases hmodel : r = model
    · subst hmodel
      rw [Function.update_self] at hr
      obtain rfl := Option.some.inj hr
      refine ⟨row, ?_, hadded.rowKey_self.trans hkey⟩
      rw [hadded.object, Function.update_self, (Record.class_of_key hkey).1]
    · rw [Function.update_of_ne hmodel] at hr
      exact h.standsFor_store hkey hadded hmodel (h.handle r handle hr)

end Store

end Changes

/-! ### What a call does to a model -/

section Models

variable {model : Ref} {handle : Handle Scalar (Record Scalar Empty)}

omit [DecidableEq Scalar] in
/-- A model is of the class of the repository and leads to nothing, and it is invalidated exactly if
    it is lost. -/
theorem standing (h : Tabulates repo primaryKey pick s table)
    (hstands : s.StandsFor repo primaryKey pick model handle) :
    s.className model = some repo.className ∧ s.IsFlat model ∧
      (s.isInvalidated model = true ↔ handle = .lost) := by
  unfold Realm.className Realm.IsFlat Realm.targets Realm.vertexOf Realm.isInvalidated
  cases handle with
  | own id value =>
    obtain ⟨record, hobject, hkey, -⟩ := hstands
    have hclass := (Record.class_of_key hkey).1
    simp only [hobject, Realm.record, Record.targets_map, h.flatObject model record hobject hclass]
    exact ⟨congrArg some hclass, rfl, by simp⟩
  | stored id =>
    obtain ⟨row, hobject, hkey⟩ := hstands
    obtain ⟨record, hrow, hkey⟩ := Option.bind_eq_some_iff.mp hkey
    simp only [hobject, Realm.record, hrow, Option.map_some, Record.targets_map,
      h.flatRow row record hrow (Record.class_of_key hkey).1]
    exact ⟨trivial, rfl, by simp⟩
  | lost =>
    obtain ⟨row, hobject, hgone⟩ := hstands
    simp only [hobject, Realm.record, hgone]
    exact ⟨trivial, rfl, by simp⟩

omit [DecidableEq Scalar] in
/-- A model that is not lost is not invalidated. -/
theorem valid (h : Tabulates repo primaryKey pick s table)
    (hstands : s.StandsFor repo primaryKey pick model handle) (hne : handle ≠ .lost) :
    s.isInvalidated model = false := by
  rw [← Bool.not_eq_true, (h.standing hstands).2.2]
  exact hne

omit [DecidableEq Scalar] in
/-- An accessor is deleted with its row. -/
theorem cascadeDelete_accessor (h : Tabulates repo primaryKey pick s table) {row : RowId}
    {id : Scalar} (hobject : s.object model = some (.managed repo.className row))
    (hkey : s.rowKey (.ofSchema primaryKey pick) row = some (repo.className, id)) (fuel : Nat) :
    cascadeDelete (.ofSchema primaryKey pick) (fuel + 2) model s
      = .returns ({ s with picks := s.picks + 1 }.deleteRow row) := by
  have hstands : s.StandsFor repo primaryKey pick model (.stored id) := ⟨row, hobject, hkey⟩
  obtain ⟨-, hflat, -⟩ := h.standing hstands
  have hvalid := h.valid hstands fun hlost => by cases hlost
  have hobject' : { s with picks := s.picks + 1 }.object model
      = some (.managed repo.className row) := hobject
  rw [cascadeDelete_flat (Realm.hashes_of_valid hvalid) hvalid hflat, Realm.deleteMain, hobject']

omit [DecidableEq Scalar] in
/-- A lost model cannot be hashed. -/
theorem hashes_lost (h : Tabulates repo primaryKey pick s table)
    (hkeyed : (primaryKey repo.className).isSome = true)
    (hlost : table.handle model = some .lost) : s.hashes primaryKey model = false := by
  obtain ⟨row, hobject, hgone⟩ := h.handle model .lost hlost
  rw [← Bool.not_eq_true, Realm.hashes_managed hobject]
  exact fun halive => halive hkeyed hgone

variable (h : Tabulates repo primaryKey pick s table)
  (hkeyed : (primaryKey repo.className).isSome = true) (hknown : table.handle model ≠ none)

include h hkeyed hknown

/-- **Adding** a model. -/
theorem add (fuel : Nat) :
    Outcome.Meets (Tabulates repo primaryKey pick)
      (addEntityCascading (.ofSchema primaryKey pick) (fuel + 1)
        (repo.isIdentifiable (.ofSchema primaryKey pick : RealmEnvironment Scalar)) model s)
      (table.add model) := by
  have hupdate : repo.isIdentifiable (.ofSchema primaryKey pick : RealmEnvironment Scalar) = true :=
    hkeyed
  obtain ⟨handle, hhandle⟩ := Option.ne_none_iff_exists'.mp hknown
  have hstands := h.handle model handle hhandle
  obtain ⟨hclass, hflat, hlost⟩ := h.standing hstands
  rw [addEntityCascading, KeyedTable.add, hhandle]
  cases handle with
  | own id value =>
    have hvalid := h.valid hstands fun hlost => by cases hlost
    obtain ⟨record, hobject, hkey, rfl⟩ := hstands
    have htargets := h.flatObject model record hobject (Record.class_of_key hkey).1
    obtain ⟨row, t, hrun, hadded⟩ : ∃ row t,
        addObject (.ofSchema primaryKey pick) true (fuel + 1) model s = .returns t ∧
          AddedFlat (.ofSchema primaryKey pick) s model record row t :=
      addObject_flat hobject htargets fuel
    rw [cascadeDeleteSubtypes_flat hvalid hflat, Outcome.returns_bind, add_eq_addObject hclass,
      hupdate, hrun]
    exact .returns (h.store hkey hadded (addObject_keeps hrun h.consistent).1)
  | stored id =>
    have hvalid := h.valid hstands fun hlost => by cases hlost
    obtain ⟨row, hobject, -⟩ := hstands
    rw [cascadeDeleteSubtypes_flat hvalid hflat, Outcome.returns_bind, add_eq_addObject hclass,
      addObject, hvalid, if_neg Bool.false_ne_true, hobject]
    exact .returns h
  | lost =>
    rw [cascadeDeleteSubtypes_invalidated (hlost.mpr rfl), Outcome.raises_bind]
    exact Or.inr ⟨rfl, rfl⟩

/-- **Deleting** a model. -/
theorem drop (fuel : Nat) :
    Outcome.Meets (Tabulates repo primaryKey pick)
      (cascadeDelete (.ofSchema primaryKey pick) (fuel + 2) model s) (table.drop model) := by
  obtain ⟨handle, hhandle⟩ := Option.ne_none_iff_exists'.mp hknown
  have hstands := h.handle model handle hhandle
  rw [KeyedTable.drop, hhandle]
  cases handle with
  | own id value =>
    obtain ⟨-, hflat, -⟩ := h.standing hstands
    have hvalid := h.valid hstands fun hlost => by cases hlost
    obtain ⟨record, hobject, -⟩ := hstands
    have hobject' : { s with picks := s.picks + 1 }.object model = some (.unmanaged record) :=
      hobject
    rw [cascadeDelete_flat (Realm.hashes_of_valid hvalid) hvalid hflat, Realm.deleteMain, hobject']
    exact .returns h.picked
  | stored id =>
    obtain ⟨row, hobject, hkey⟩ := hstands
    rw [h.cascadeDelete_accessor hobject hkey]
    exact .returns (h.picked.deleteRow hkey)
  | lost =>
    have hhash : (RealmEnvironment.ofSchema primaryKey pick).hash s model = false :=
      h.hashes_lost hkeyed hhandle
    rw [cascadeDelete_unhashed hhash]
    exact Or.inr ⟨rfl, rfl⟩

end Models

/-! ### What a call does to several models -/

omit [DecidableEq Scalar] in
/-- A call for each of some models. -/
theorem each {f : Ref → Realm Scalar → Outcome (Realm Scalar)}
    {change : ModelTable Scalar → Ref → Option (ModelTable Scalar)}
    (hf : ∀ s table model, Tabulates repo primaryKey pick s table → table.handle model ≠ none →
      Outcome.Meets (Tabulates repo primaryKey pick) (f model s) (change table model))
    (hchange : ∀ {table table' model}, change table model = some table' → table.Keeps table')
    {models : List Ref} (h : Tabulates repo primaryKey pick s table)
    (hknown : ∀ model ∈ models, table.handle model ≠ none) :
    Outcome.Meets (Tabulates repo primaryKey pick) (Outcome.forEach f models s)
      (models.foldlM change table) := by
  have hstep : ∀ model ∈ models, ∀ s₁ table₁,
      (Tabulates repo primaryKey pick s₁ table₁ ∧ table.Keeps table₁) →
      Outcome.Meets (fun s₁ table₁ => Tabulates repo primaryKey pick s₁ table₁ ∧
        table.Keeps table₁) (f model s₁) (change table₁ model) := by
    rintro model hmem s₁ table₁ ⟨h₁, hkeeps⟩
    rcases hf s₁ table₁ model h₁ (hkeeps model (hknown model hmem)) with
      ⟨s₂, table₂, hrun, hchanged, h₂⟩ | hraises
    · exact Or.inl ⟨s₂, table₂, hrun, hchanged, h₂,
        fun r hr => hchange hchanged r (hkeeps r hr)⟩
    · exact Or.inr hraises
  rcases Outcome.Meets.forEach hstep ⟨h, .refl table⟩ with
    ⟨t, table', hrun, hchanged, h', -⟩ | hraises
  · exact Or.inl ⟨t, table', hrun, hchanged, h'⟩
  · exact Or.inr hraises

/-- The list is added one model after the other. -/
theorem addAll (hkeyed : (primaryKey repo.className).isSome = true) (fuel : Nat)
    (h : Tabulates repo primaryKey pick s table) {models : List Ref}
    (hknown : ∀ model ∈ models, table.handle model ≠ none) :
    Outcome.Meets (Tabulates repo primaryKey pick)
      (addCascading (.ofSchema primaryKey pick) (fuel + 1)
        (repo.isIdentifiable (.ofSchema primaryKey pick : RealmEnvironment Scalar)) models s)
      (models.foldlM KeyedTable.add table) :=
  each (fun _ _ _ h hknown => h.add hkeyed hknown fuel) KeyedTable.keeps_add h hknown

/-- So is it deleted. -/
theorem dropAll (hkeyed : (primaryKey repo.className).isSome = true) (fuel : Nat)
    (h : Tabulates repo primaryKey pick s table) {models : List Ref}
    (hknown : ∀ model ∈ models, table.handle model ≠ none) :
    Outcome.Meets (Tabulates repo primaryKey pick)
      (deleteCascading (.ofSchema primaryKey pick) (fuel + 2) models s)
      (models.foldlM KeyedTable.drop table) :=
  each (fun _ _ _ h hknown => h.drop hkeyed hknown fuel) KeyedTable.keeps_drop h hknown

omit [DecidableEq Scalar] in
/-- An accessor is read. -/
theorem accessorOf (h : Tabulates repo primaryKey pick s table) {row : RowId} {id : Scalar}
    (hkey : s.rowKey (.ofSchema primaryKey pick) row = some (repo.className, id)) :
    Tabulates repo primaryKey pick (s.accessorOf repo.className row).2 table := by
  obtain ⟨record, hrow, hkey'⟩ := Option.bind_eq_some_iff.mp hkey
  refine h.of_extends (s.extends_accessorOf _ _)
    (h.consistent.accessorOf (s.rows.lt_next_of_get hrow) fun stored hstored => ?_).1 h.idle
  obtain rfl := Option.some.inj (hrow.symm.trans hstored)
  exact (Record.class_of_key hkey').1

/-- **Deleting** rows of the class, one after another. -/
theorem deleteRows (fuel : Nat) {rows : List RowId} (hnodup : rows.Nodup)
    (h : Tabulates repo primaryKey pick s table)
    (hrows : ∀ row ∈ rows, ∃ id,
      s.rowKey (.ofSchema primaryKey pick) row = some (repo.className, id)) :
    ∃ t, deleteResultsCascading (.ofSchema primaryKey pick) (fuel + 2) repo.className rows s
        = .returns t ∧
      Tabulates repo primaryKey pick t (table.remove fun id => rows.any fun row =>
        s.rowKey (.ofSchema primaryKey pick) row == some (repo.className, id)) := by
  induction rows generalizing s table with
  | nil =>
    refine ⟨s, rfl, ?_⟩
    show Tabulates repo primaryKey pick s (table.remove fun _ => false)
    rw [KeyedTable.remove_false]
    exact h
  | cons row rows ih =>
    obtain ⟨hnew, hnodup⟩ := List.nodup_cons.mp hnodup
    obtain ⟨id, hkey⟩ := hrows row List.mem_cons_self
    have h₁ := h.accessorOf hkey
    have hcall := h₁.cascadeDelete_accessor (s.object_accessorOf repo.className row) hkey fuel
    have h₂ := h₁.picked.deleteRow hkey
    -- the rows that are left have the keys they had
    have hrest : ∀ row' ∈ rows, ({ (s.accessorOf repo.className row).2 with
          picks := (s.accessorOf repo.className row).2.picks + 1 }.deleteRow row).rowKey
            (.ofSchema primaryKey pick) row' = s.rowKey (.ofSchema primaryKey pick) row' := by
      intro row' hmem
      have hne : row' ≠ row := fun hsame => hnew (hsame ▸ hmem)
      rw [Realm.rowKey_deleteRow hne]
      rfl
    obtain ⟨t, hrun, ht⟩ := ih hnodup h₂ fun row' hmem => by
      rw [hrest row' hmem]
      exact hrows row' (List.mem_cons_of_mem row hmem)
    refine ⟨t, ?_, ?_⟩
    · have hfirst : deleteResultsCascading (.ofSchema primaryKey pick) (fuel + 2) repo.className
          (row :: rows) s = cascadeDelete (.ofSchema primaryKey pick) (fuel + 2)
            (s.accessorOf repo.className row).1 (s.accessorOf repo.className row).2 >>=
          deleteResultsCascading (.ofSchema primaryKey pick) (fuel + 2) repo.className rows := rfl
      rw [hfirst, hcall]
      exact hrun
    · rw [KeyedTable.remove_remove] at ht
      convert ht using 2
      funext id'
      rw [Bool.eq_iff_iff]
      simp only [Bool.or_eq_true, List.any_cons, List.any_eq_true, beq_iff_eq, hkey,
        Option.some.injEq, Prod.mk.injEq, true_and]
      exact or_congr eq_comm
        (exists_congr fun row' => and_congr_right fun hmem => by rw [hrest row' hmem])

/-- **Deleting** all objects of the class. -/
theorem deleteAll (hkeyed : (primaryKey repo.className).isSome = true) (fuel : Nat)
    (h : Tabulates repo primaryKey pick s table) :
    ∃ t, deleteResultsCascading (.ofSchema primaryKey pick) (fuel + 2) repo.className
        (repo.objects s) s = .returns t ∧
      Tabulates repo primaryKey pick t (table.remove fun _ => true) := by
  obtain ⟨t, hrun, ht⟩ := h.deleteRows fuel (nodup_objects repo s)
    fun row hrow => h.consistent.rowKey_objects hkeyed hrow
  have hall : ∀ id, table.value id ≠ none → ((repo.objects s).any fun row =>
      s.rowKey (.ofSchema primaryKey pick) row == some (repo.className, id)) = true := by
    intro id hvalue
    obtain ⟨row, hkey⟩ := h.value_ne_none.mp hvalue
    rw [List.any_eq_true]
    exact ⟨row, mem_objects_of_rowKey hkey, beq_iff_eq.mpr hkey⟩
  exact ⟨t, hrun, KeyedTable.remove_congr hall ▸ ht⟩

/-! ### What is read -/

section Reading

omit [DecidableEq Scalar] in
/-- An accessor of a row with a key stands for the key. -/
theorem standsFor_of_rowOf (h : Tabulates repo primaryKey pick s table) {r : Ref} {row : RowId}
    {id : Scalar} (hrow : s.rowOf r = some row)
    (hkey : s.rowKey (.ofSchema primaryKey pick) row = some (repo.className, id)) :
    s.StandsFor repo primaryKey pick r (.stored id) := by
  obtain ⟨className, row', hobject⟩ := Realm.Managed.object ⟨row, hrow⟩
  obtain rfl := Option.some.inj ((Realm.rowOf_of_object hobject).symm.trans hrow)
  obtain ⟨record, hrecord, hkey'⟩ := Option.bind_eq_some_iff.mp hkey
  have hclass := h.consistent.typed r className row' record hobject hrecord
  rw [(Record.class_of_key hkey').1] at hclass
  exact ⟨row', hclass ▸ hobject, hkey⟩

omit [DecidableEq Scalar] in
/-- Objects that were not there before are no handles. -/
theorem handle_eq_none (h : Tabulates repo primaryKey pick s table) {r : Ref}
    (hnew : s.object r = none) : table.handle r = none := by
  cases hhandle : table.handle r with
  | none => rfl
  | some handle =>
    obtain ⟨hclass, -⟩ := h.standing (h.handle r handle hhandle)
    rw [Realm.className, hnew] at hclass
    cases hclass

/-- The primary key of a row of the class. -/
def idOfRow (primaryKey : String → Option String) (pick : Nat → Nat) (s : Realm Scalar)
    (row : RowId) : Option Scalar :=
  (s.rowKey (.ofSchema primaryKey pick) row).map Prod.snd

omit [DecidableEq Scalar] in
/-- The rows of the class have the keys of the table, each once. -/
theorem map_idOfRow (hkeyed : (primaryKey repo.className).isSome = true)
    (h : Tabulates repo primaryKey pick s table) :
    (∀ id, some id ∈ (repo.objects s).map (idOfRow primaryKey pick s) ↔ table.value id ≠ none) ∧
      ((repo.objects s).map (idOfRow primaryKey pick s)).Nodup := by
  have hkeys : ∀ row ∈ repo.objects s, ∀ id, idOfRow primaryKey pick s row = some id →
      s.rowKey (.ofSchema primaryKey pick) row = some (repo.className, id) := by
    intro row hrow id hid
    obtain ⟨id', hkey⟩ := h.consistent.rowKey_objects hkeyed hrow
    rw [idOfRow, hkey, Option.map_some, Option.some.injEq] at hid
    exact hid ▸ hkey
  constructor
  · intro id
    rw [h.value_ne_none, List.mem_map]
    constructor
    · rintro ⟨row, hrow, hid⟩
      exact ⟨row, hkeys row hrow id hid⟩
    · rintro ⟨row, hkey⟩
      exact ⟨row, mem_objects_of_rowKey hkey, by rw [idOfRow, hkey, Option.map_some]⟩
  · exact nodup_ids h.consistent hkeyed

omit [DecidableEq Scalar] in
/-- **`getAll()`** lists the values of the table. -/
theorem getAll (hkeyed : (primaryKey repo.className).isSome = true)
    (h : Tabulates repo primaryKey pick s table) :
    ∃ names, ∃ hlists : table.Lists (repo.getAll s).1 names,
      Tabulates repo primaryKey pick (repo.getAll s).2 (table.hold names hlists.held) := by
  obtain ⟨hrowOf, hrows⟩ := rowOf_getAll repo s
  obtain ⟨hext, -, -⟩ := s.accessors_spec (repo.objects s)
  have hlt : ∀ row ∈ repo.objects s, row < s.rows.next := by
    intro row hrow
    obtain ⟨record, hrecord, -⟩ := RealmRepository.mem_objects.mp hrow
    exact s.rows.lt_next_of_get hrecord
  have ht : Tabulates repo primaryKey pick (repo.getAll s).2 table :=
    h.of_extends hext (Realm.keeps_accessors hlt h.consistent).1
      ((s.inWriteTransaction_accessors _).trans h.idle)
  let names : Ref → Option Scalar := fun r =>
    if r ∈ (repo.getAll s).1 then ((repo.getAll s).2.rowOf r).bind (idOfRow primaryKey pick s)
    else none
  have hnames : (repo.getAll s).1.map names
      = (repo.objects s).map (idOfRow primaryKey pick s) := by
    have hmap : (repo.getAll s).1.map names = ((repo.getAll s).1.map (repo.getAll s).2.rowOf).map
        fun row => row.bind (idOfRow primaryKey pick s) := by
      rw [List.map_map]
      exact List.map_congr_left fun r hr => if_pos hr
    rw [hmap, hrowOf, List.map_map]
    rfl
  -- each model is an accessor of a row of the class, which has a key
  have hmodel : ∀ r ∈ (repo.getAll s).1, ∃ id, names r = some id ∧
      (repo.getAll s).2.StandsFor repo primaryKey pick r (.stored id) := by
    intro r hr
    obtain ⟨row, hrow, hr'⟩ := rowOf_of_mem_getAll hr
    obtain ⟨id, hkey⟩ := h.consistent.rowKey_objects hkeyed hrow
    refine ⟨id, (if_pos hr).trans ?_, ht.standsFor_of_rowOf hr' ?_⟩
    · rw [hr', Option.bind_some, idOfRow, hkey, Option.map_some]
    · rwa [Realm.rowKey, hrows]
  have hnot : ∀ r, r ∉ (repo.getAll s).1 → names r = none := fun r hr => if_neg hr
  obtain ⟨hall, hnodup⟩ := h.map_idOfRow hkeyed
  refine ⟨names, ⟨?_, ?_, ?_, ?_⟩, ht.hold _ ?_⟩
  · exact fun r hr => h.handle_eq_none (s.object_accessors_new _ r hr)
  · intro r
    refine ⟨fun hname => by_contra fun hr => hname (hnot r hr), fun hr => ?_⟩
    obtain ⟨id, hname, -⟩ := hmodel r hr
    rw [hname]
    exact Option.some_ne_none id
  · rwa [hnames]
  · rwa [hnames]
  · intro r id hname
    by_cases hr : r ∈ (repo.getAll s).1
    · obtain ⟨id', hname', hstands⟩ := hmodel r hr
      obtain rfl := Option.some.inj (hname.symm.trans hname')
      exact hstands
    · rw [hnot r hr] at hname
      cases hname

/-- **`getElement(withId:)`** finds the value under the key. -/
theorem getElement (hkeyed : (primaryKey repo.className).isSome = true)
    (h : Tabulates repo primaryKey pick s table) (id : Scalar) :
    ∃ model t table', repo.getElement (.ofSchema primaryKey pick) id s = .returns (model, t) ∧
      Answers table (.getElement id) (.model model) table' ∧
      Tabulates repo primaryKey pick t table' := by
  have hupdate : repo.isIdentifiable (.ofSchema primaryKey pick : RealmEnvironment Scalar) = true :=
    hkeyed
  rw [RealmRepository.getElement, hupdate, if_pos rfl]
  cases hfind : s.find (.ofSchema primaryKey pick) (repo.className, id) with
  | none =>
    refine ⟨none, s, table, rfl, .missing ?_, h⟩
    by_contra hvalue
    obtain ⟨row, hkey⟩ := h.value_ne_none.mp hvalue
    exact Realm.find_eq_none.mp hfind row hkey
  | some row =>
    have hkey := Realm.rowKey_of_find hfind
    obtain ⟨record, hrow, -⟩ := Option.bind_eq_some_iff.mp hkey
    have ht : Tabulates repo primaryKey pick (s.accessor row).2 table :=
      h.of_extends (s.extends_accessor row)
        (Realm.keeps_accessor (s.rows.lt_next_of_get hrow) h.consistent).1 h.idle
    have hvalue : table.value id ≠ none := h.value_ne_none.mpr ⟨row, hkey⟩
    obtain ⟨className, hobject⟩ := s.object_accessor row
    let names : Ref → Option Scalar := fun r => if r = (s.accessor row).1 then some id else none
    have hnames : ∀ r id', names r = some id' ↔ r = (s.accessor row).1 ∧ id' = id := by
      intro r id'
      show (if r = (s.accessor row).1 then some id else none) = some id' ↔ _
      split
      next hr => simp [hr, eq_comm]
      next hr => simp [hr]
    have hheld : ∀ r id', names r = some id' → table.value id' ≠ none := by
      intro r id' hname
      rw [((hnames r id').mp hname).2]
      exact hvalue
    refine ⟨some (s.accessor row).1, (s.accessor row).2, table.hold names hheld, rfl,
      .found (h.handle_eq_none (s.heap.objects.fresh _ (Nat.le_refl _))) hnames hheld,
      ht.hold hheld ?_⟩
    intro r id' hname
    obtain ⟨rfl, rfl⟩ := (hnames r id').mp hname
    exact ht.standsFor_of_rowOf (Realm.rowOf_of_object hobject) hkey

omit [DecidableEq Scalar] in
/-- **Reading** the properties of a model. -/
theorem read (h : Tabulates repo primaryKey pick s table) {model : Ref}
    (hknown : table.handle model ≠ none) :
    (∃ record, s.read model = .returns record ∧ table.valueOf model = some record) ∨
      s.read model = .raises ∧ table.handle model = some .lost := by
  obtain ⟨handle, hhandle⟩ := Option.ne_none_iff_exists'.mp hknown
  have hstands := h.handle model handle hhandle
  unfold Realm.read Realm.vertexOf KeyedTable.valueOf
  rw [hhandle]
  cases handle with
  | own id value =>
    obtain ⟨record, hobject, -, rfl⟩ := hstands
    simp only [hobject, Realm.record]
    exact Or.inl ⟨_, rfl, by rw [Record.map, Record.detach_filterMap]⟩
  | stored id =>
    obtain ⟨row, hobject, hkey⟩ := hstands
    obtain ⟨record, hrow, hkey⟩ := Option.bind_eq_some_iff.mp hkey
    simp only [hobject, Realm.record, hrow, Option.map_some]
    refine Or.inl ⟨_, rfl, ?_⟩
    rw [Record.map, Record.detach_filterMap]
    exact (h.value id _).mpr ⟨row, record, hrow, hkey, rfl⟩
  | lost =>
    obtain ⟨row, hobject, hgone⟩ := hstands
    simp only [hobject, Realm.record, hgone]
    exact Or.inr ⟨rfl, trivial⟩

omit [DecidableEq Scalar] in
/-- The table has the id of every model it knows. -/
theorem idOf_eq_keyOf (h : Tabulates repo primaryKey pick s table) {model : Ref}
    (hknown : table.handle model ≠ none) :
    RealmRepository.idOf (.ofSchema primaryKey pick) model s = table.keyOf model := by
  obtain ⟨handle, hhandle⟩ := Option.ne_none_iff_exists'.mp hknown
  have hstands := h.handle model handle hhandle
  rw [idOf_eq, KeyedTable.keyOf, hhandle]
  cases handle with
  | own id value =>
    obtain ⟨record, hobject, hkey, -⟩ := hstands
    rw [Realm.keyOf_unmanaged hobject]
    exact congrArg (Option.map Prod.snd) hkey
  | stored id =>
    obtain ⟨row, hobject, hkey⟩ := hstands
    rw [Realm.keyOf_managed hobject, hkey, Option.map_some]
  | lost =>
    obtain ⟨row, hobject, hgone⟩ := hstands
    rw [Realm.keyOf_managed hobject, Realm.rowKey, hgone]
    rfl

end Reading

end Tabulates

end QBRepository
