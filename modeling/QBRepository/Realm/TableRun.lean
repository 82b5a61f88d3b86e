import QBRepository.Realm.Table

namespace QBRepository

/-!
# Programs on a class without links

Every program that calls the repository and reads its models, deciding on its next call by the
answers so far, does what its specification says of a table.

* `Tabulates.call` — one call;
* `RepositoryProgram` — the programs, and how they run;
* `Typed` — they only pass models they hold; `Allows`, `MayRaise` — what the specification says;
* `run_meetsTable` — every run.
-/

variable {Scalar : Type} [DecidableEq Scalar] {repo : RealmRepository}
  {primaryKey : String → Option String} {pick : Nat → Nat} {s : Realm Scalar}
  {table : ModelTable Scalar}

/-! ### One call -/

namespace Tabulates

variable (hkeyed : (primaryKey repo.className).isSome = true) (fuel : Nat)
  (h : Tabulates repo primaryKey pick s table)

include hkeyed h

omit hkeyed in
/-- A write transaction does what is added in it. -/
theorem write_add (model : Ref) :
    write (addEntityCascading (.ofSchema primaryKey pick) fuel
        (repo.isIdentifiable (.ofSchema primaryKey pick : RealmEnvironment Scalar)) model) s
      = addEntityCascading (.ofSchema primaryKey pick) fuel
        (repo.isIdentifiable (.ofSchema primaryKey pick : RealmEnvironment Scalar)) model s :=
  write_eq (fun _ => addEntityCascading_commutes (hashesAlike_ofSchema primaryKey pick) model)
    h.idle

/-- **`update`** stores a model whose key is not in the table, and refuses the others. -/
theorem update {model : Ref} (hknown : table.handle model ≠ none) :
    (∃ result t table', repo.update (.ofSchema primaryKey pick) (fuel + 1) model s
        = .returns (result, t) ∧
      Answers table (.update model) (.edit result) table' ∧
      Tabulates repo primaryKey pick t table') ∨
    repo.update (.ofSchema primaryKey pick) (fuel + 1) model s = .raises ∧
      table.handle model = some .lost := by
  have hupdate : repo.isIdentifiable (.ofSchema primaryKey pick : RealmEnvironment Scalar) = true :=
    hkeyed
  obtain ⟨handle, hhandle⟩ := Option.ne_none_iff_exists'.mp hknown
  have hstands := h.handle model handle hhandle
  cases hid : table.keyOf model with
  | none =>
    have hlost := (KeyedTable.keyOf_eq_none hknown).mp hid
    have hinvalid : s.isInvalidated model = true := by
      rw [(h.standing hstands).2.2, ← Option.some_inj, ← hhandle, hlost]
    refine Or.inr ⟨?_, hlost⟩
    rw [RealmRepository.update, hupdate, hinvalid]
    rfl
  | some id =>
    have hvalid : s.isInvalidated model = false := by
      refine h.valid hstands fun hlost => ?_
      rw [(KeyedTable.keyOf_eq_none hknown).mpr (hlost ▸ hhandle)] at hid
      cases hid
    have hidOf : RealmRepository.idOf (.ofSchema primaryKey pick) model s = some id :=
      (h.idOf_eq_keyOf hknown).trans hid
    left
    by_cases hvalue : table.value id = none
    · -- no row has the key, so the model is stored
      have hfind : s.find (.ofSchema primaryKey pick) (repo.className, id) = none :=
        Realm.find_eq_none.mpr fun row hrow => h.value_ne_none.mpr ⟨row, hrow⟩ hvalue
      have hguard : repo.update (.ofSchema primaryKey pick) (fuel + 1) model s = (do
          let s ← write (addEntityCascading (.ofSchema primaryKey pick) (fuel + 1)
            (repo.isIdentifiable (.ofSchema primaryKey pick : RealmEnvironment Scalar)) model) s
          return (.success model, s)) := by
        rw [RealmRepository.update, hupdate, hvalid, hidOf]
        show (if (s.find _ (repo.className, id)).isNone then _ else _) = _
        rw [hfind]
        rfl
      rw [hguard, h.write_add]
      rcases h.add hkeyed hknown fuel with ⟨t, table', hrun, hadd, ht⟩ | ⟨-, hnone⟩
      · exact ⟨.success model, t, table', by rw [hrun]; rfl, .update hid hvalue hadd, ht⟩
      · rw [(KeyedTable.keyOf_eq_none hknown).mpr (KeyedTable.lost_of_add hknown hnone)] at hid
        cases hid
    · have hrefuses : RefusesUpdate repo (.ofSchema primaryKey pick) s model := by
        refine Or.inr ⟨hvalid, fun id' hid' hfind => ?_⟩
        obtain rfl := Option.some.inj (hidOf.symm.trans hid')
        obtain ⟨row, hrow⟩ := h.value_ne_none.mp hvalue
        exact Realm.find_eq_none.mp hfind row hrow
      exact ⟨.error .noOriginalObject, s, table, update_of_refuses hrefuses _,
        .updateRefused hid hvalue, h⟩

omit hkeyed in
/-- A call whose write transaction does to the Realm what `change` is to the table. -/
theorem call_of_write {call : RepositoryCall Scalar} {answer : RepositoryAnswer Scalar}
    {block : Realm Scalar → Outcome (Realm Scalar)} {change : Option (ModelTable Scalar)}
    (hcall : repo.call (.ofSchema primaryKey pick) fuel s call
      = write block s >>= fun t => .returns (answer, t))
    (hcommutes : ∀ b, Outcome.Commutes (Realm.during b) (Realm.during b) block)
    (hblock : Outcome.Meets (Tabulates repo primaryKey pick) (block s) change)
    (hanswers : ∀ table', change = some table' → Answers table call answer table')
    (hraises : change = none → Raises table call) :
    (∃ answer t table', repo.call (.ofSchema primaryKey pick) fuel s call = .returns (answer, t) ∧
      Answers table call answer table' ∧ Tabulates repo primaryKey pick t table') ∨
    repo.call (.ofSchema primaryKey pick) fuel s call = .raises ∧ Raises table call := by
  rw [hcall, write_eq hcommutes h.idle]
  rcases hblock with ⟨t, table', hrun, hchange, ht⟩ | ⟨hrun, hnone⟩
  · rw [hrun]
    exact Or.inl ⟨answer, t, table', rfl, hanswers table' hchange, ht⟩
  · rw [hrun]
    exact Or.inr ⟨rfl, hraises hnone⟩

/-- **One call** does what the specification says, or raises where it says so. -/
theorem call (call : RepositoryCall Scalar)
    (hgiven : ∀ model ∈ call.given, table.handle model ≠ none) :
    (∃ answer t table', repo.call (.ofSchema primaryKey pick) (fuel + 2) s call
        = .returns (answer, t) ∧
      Answers table call answer table' ∧ Tabulates repo primaryKey pick t table') ∨
    repo.call (.ofSchema primaryKey pick) (fuel + 2) s call = .raises ∧ Raises table call := by
  have hhash : (.ofSchema primaryKey pick : RealmEnvironment Scalar).HashesAlike :=
    hashesAlike_ofSchema primaryKey pick
  cases call with
  | getAll =>
    obtain ⟨names, hlists, ht⟩ := h.getAll hkeyed
    exact Or.inl ⟨_, _, _, rfl, .getAll hlists, ht⟩
  | getElement id =>
    obtain ⟨model, t, table', hrun, hanswers, ht⟩ := h.getElement hkeyed id
    exact Or.inl ⟨.model model, t, table', by rw [RealmRepository.call, hrun]; rfl, hanswers, ht⟩
  | read model =>
    rcases h.read (hgiven model List.mem_cons_self) with ⟨record, hrun, hvalue⟩ | ⟨hraises, hlost⟩
    · exact Or.inl ⟨.record record, s, table, by rw [RealmRepository.call, hrun]; rfl,
        .read hvalue, h⟩
    · exact Or.inr ⟨by rw [RealmRepository.call, hraises]; rfl, hlost⟩
  | create model =>
    have hknown := hgiven model List.mem_cons_self
    refine h.call_of_write (fuel + 2) ?_ (fun _ => addEntityCascading_commutes hhash model)
      (h.add hkeyed hknown (fuel + 1)) (fun _ => .create) (KeyedTable.lost_of_add hknown)
    rw [RealmRepository.call, RealmRepository.create, bind_assoc]
    rfl
  | createAll models =>
    refine h.call_of_write (fuel + 2) ?_
      (fun _ => .forEach fun model _ => addEntityCascading_commutes hhash model)
      (h.addAll hkeyed (fuel + 1) hgiven) (fun _ => .createAll) id
    rw [RealmRepository.call, RealmRepository.createAll, bind_assoc]
    rfl
  | update model =>
    have hknown := hgiven model List.mem_cons_self
    rcases h.update hkeyed (fuel + 1) hknown with
      ⟨result, t, table', hrun, hanswers, ht⟩ | ⟨hraises, hlost⟩
    · exact Or.inl ⟨.edit result, t, table', by rw [RealmRepository.call, hrun]; rfl, hanswers, ht⟩
    · exact Or.inr ⟨by rw [RealmRepository.call, hraises]; rfl, hlost⟩
  | delete model =>
    have hknown := hgiven model List.mem_cons_self
    refine h.call_of_write (fuel + 2) ?_ (fun _ => cascadeDelete_commutes hhash model)
      (h.drop hkeyed hknown fuel) (fun _ => .delete) (KeyedTable.lost_of_drop hknown)
    rw [RealmRepository.call, RealmRepository.delete, bind_assoc]
    rfl
  | deleteList models =>
    refine h.call_of_write (fuel + 2) ?_
      (fun _ => .forEach fun model _ => cascadeDelete_commutes hhash model)
      (h.dropAll hkeyed fuel hgiven) (fun _ => .deleteList) id
    rw [RealmRepository.call, RealmRepository.deleteList, bind_assoc]
    rfl
  | deleteAll =>
    obtain ⟨t, hrun, ht⟩ := h.deleteAll hkeyed fuel
    have hblock : Outcome.Meets (Tabulates repo primaryKey pick)
        (deleteResultsCascading (.ofSchema primaryKey pick) (fuel + 2) repo.className
          (repo.objects s) s) (some (table.remove fun _ => true)) := hrun ▸ .returns ht
    have hanswers : ∀ table', some (table.remove fun _ => true) = some table' →
        Answers table .deleteAll (.error none) table' := by
      rintro table' heq
      obtain rfl := Option.some.inj heq
      exact .deleteAll
    refine h.call_of_write (fuel + 2) ?_ (fun _ => .forEach fun row _ s =>
      cascadeDelete_commutes hhash _ (s.accessorOf repo.className row).2) hblock hanswers
      fun hnone => absurd hnone (Option.some_ne_none _)
    rw [RealmRepository.call, RealmRepository.deleteAll, bind_assoc]
    rfl

end Tabulates

/-! ### Programs -/

/-- A program: its next call may depend on the answers so far. -/
inductive RepositoryProgram (Scalar : Type) where
  | done
  | call (call : RepositoryCall Scalar)
      (next : RepositoryAnswer Scalar → RepositoryProgram Scalar)

namespace RepositoryProgram

/-- The answers a program gets, and the Realm it leaves. -/
def run (repo : RealmRepository) (env : RealmEnvironment Scalar) (fuel : Nat) :
    RepositoryProgram Scalar → Realm Scalar →
    Outcome (List (RepositoryAnswer Scalar) × Realm Scalar)
  | done, s => return ([], s)
  | call c next, s => do
    let (answer, s) ← repo.call env fuel s c
    let (answers, s) ← run repo env fuel (next answer) s
    return (answer :: answers, s)

/-- The program only passes models that it holds. -/
def Typed : RepositoryProgram Scalar → ModelTable Scalar → Prop
  | done, _ => True
  | call c next, table => (∀ model ∈ c.given, table.handle model ≠ none) ∧
      ∀ answer table', Answers table c answer table' → Typed (next answer) table'

/-- The answers the specification allows, with the table they lead to. -/
inductive Allows : RepositoryProgram Scalar → ModelTable Scalar →
    List (RepositoryAnswer Scalar) → ModelTable Scalar → Prop where
  | done {table : ModelTable Scalar} : Allows .done table [] table
  | call {c : RepositoryCall Scalar} {next : RepositoryAnswer Scalar → RepositoryProgram Scalar}
      {table table' table'' : ModelTable Scalar} {answer : RepositoryAnswer Scalar}
      {answers : List (RepositoryAnswer Scalar)} (h : Answers table c answer table')
      (hrest : Allows (next answer) table' answers table'') :
      Allows (.call c next) table (answer :: answers) table''

/-- The specification has the program raise, after some answers. -/
inductive MayRaise : RepositoryProgram Scalar → ModelTable Scalar → Prop where
  | now {c : RepositoryCall Scalar} {next : RepositoryAnswer Scalar → RepositoryProgram Scalar}
      {table : ModelTable Scalar} (h : Raises table c) : MayRaise (.call c next) table
  | later {c : RepositoryCall Scalar} {next : RepositoryAnswer Scalar → RepositoryProgram Scalar}
      {table table' : ModelTable Scalar} {answer : RepositoryAnswer Scalar}
      (h : Answers table c answer table') (hrest : MayRaise (next answer) table') :
      MayRaise (.call c next) table

end RepositoryProgram

/-- **The repository of a class without links is a table**: every program gets answers that the
    specification allows, and leaves the Realm with the table they lead to; or it raises, where it
    comes to a model that is lost. -/
theorem run_meetsTable (hkeyed : (primaryKey repo.className).isSome = true) (fuel : Nat)
    (program : RepositoryProgram Scalar) (h : Tabulates repo primaryKey pick s table)
    (htyped : program.Typed table) :
    (∃ answers t table', program.run repo (.ofSchema primaryKey pick) (fuel + 2) s
        = .returns (answers, t) ∧
      program.Allows table answers table' ∧ Tabulates repo primaryKey pick t table') ∨
    program.run repo (.ofSchema primaryKey pick) (fuel + 2) s = .raises ∧
      program.MayRaise table := by
  induction program generalizing s table with
  | done => exact Or.inl ⟨[], s, table, rfl, .done, h⟩
  | call c next ih =>
    obtain ⟨hgiven, hnext⟩ := htyped
    rw [RepositoryProgram.run]
    rcases h.call hkeyed fuel c hgiven with
      ⟨answer, t, table', hcall, hanswers, ht⟩ | ⟨hraises, hspec⟩
    · rw [hcall, Outcome.returns_bind]
      rcases ih answer ht (hnext answer table' hanswers) with
        ⟨answers, t', table'', hrun, hallows, ht'⟩ | ⟨hraises, hspec⟩
      · refine Or.inl ⟨answer :: answers, t', table'', ?_, .call hanswers hallows, ht'⟩
        simp only [hrun]
        rfl
      · refine Or.inr ⟨?_, .later hanswers hspec⟩
        simp only [hraises]
        rfl
    · rw [hraises, Outcome.raises_bind]
      exact Or.inr ⟨rfl, .now hspec⟩

/-! ### What a program holds -/

/-- The models in an answer. -/
def RepositoryAnswer.given : RepositoryAnswer Scalar → List Ref
  | .models found | .edits (.success found) => found
  | .model found => found.toList
  | .edit (.success found) => [found]
  | .record _ | .edit (.error _) | .edits (.error _) | .error _ => []

namespace Answers

variable {table' : ModelTable Scalar} {c : RepositoryCall Scalar}
  {answer : RepositoryAnswer Scalar}

/-- A program still holds the models it has held. -/
theorem keeps (h : Answers table c answer table') : table.Keeps table' := by
  cases h with
  | getAll h => exact KeyedTable.keeps_hold _ h.held
  | found hnew hnames h => exact KeyedTable.keeps_hold _ h
  | missing h => exact .refl table
  | read h => exact .refl table
  | create h => exact KeyedTable.keeps_add h
  | createAll h => exact KeyedTable.keeps_foldlM KeyedTable.keeps_add h
  | update hid hnone h => exact KeyedTable.keeps_add h
  | updateRefused hid h => exact .refl table
  | delete h => exact KeyedTable.keeps_drop h
  | deleteList h => exact KeyedTable.keeps_foldlM KeyedTable.keeps_drop h
  | deleteAll => exact KeyedTable.keeps_remove _

/-- It holds the models that it is answered, if it holds those that it passes. -/
theorem known (h : Answers table c answer table')
    (hgiven : ∀ model ∈ c.given, table.handle model ≠ none) :
    ∀ model ∈ answer.given, table'.handle model ≠ none := by
  have hkeeps := h.keeps
  cases h with
  | getAll h =>
    intro model hmem
    obtain ⟨id, hname⟩ := Option.ne_none_iff_exists'.mp ((h.named model).mpr hmem)
    rw [KeyedTable.handle_hold, hname]
    exact Option.some_ne_none _
  | found hnew hnames h =>
    intro model hmem
    obtain rfl := Option.some.inj (Option.mem_toList.mp hmem)
    rw [KeyedTable.handle_hold, (hnames _ _).mpr ⟨rfl, rfl⟩]
    exact Option.some_ne_none _
  | missing h => exact fun _ hmem => absurd hmem List.not_mem_nil
  | read h => exact fun _ hmem => absurd hmem List.not_mem_nil
  | create h => exact fun model hmem => hkeeps model (hgiven model hmem)
  | createAll h => exact fun model hmem => hkeeps model (hgiven model hmem)
  | update hid hnone h => exact fun model hmem => hkeeps model (hgiven model hmem)
  | updateRefused hid h => exact fun _ hmem => absurd hmem List.not_mem_nil
  | delete h => exact fun _ hmem => absurd hmem List.not_mem_nil
  | deleteList h => exact fun _ hmem => absurd hmem List.not_mem_nil
  | deleteAll => exact fun _ hmem => absurd hmem List.not_mem_nil

end Answers

namespace Sample

/-- The stored person, and the copy. -/
def personTable : ModelTable Nat where
  value id := if id = 7 then some ⟨"Person", [("number", .scalar 7)]⟩ else none
  handle r := if r = 0 then some (.own 7 ⟨"Person", [("number", .scalar 7)]⟩) else none
  held r id h := by
    split at h
    · cases h
    · cases h

/-- The person cannot be updated by the copy, so the copy is added and read; then all persons are
    deleted. -/
def replacePerson : RepositoryProgram Nat :=
  .call (.update 0) fun _ => .call (.create 0) fun _ => .call (.read 0) fun _ =>
    .call .getAll fun answer => .call (.deleteList answer.given) fun _ => .done

/-- The person with a copy is tabulated. -/
theorem tabulates_copiedPerson :
    Tabulates ⟨"Person"⟩ (fun _ => some "number") (fun _ => 0) copiedPerson personTable where
  consistent := consistent_copiedPerson
  idle := rfl
  flatRow row record hrow _ := by
    match row with
    | 0 =>
      obtain rfl := Option.some.inj hrow
      rfl
    | row + 1 => cases hrow
  flatObject r record hr _ := by
    match r with
    | 0 =>
      obtain rfl := RLMObject.unmanaged.inj (Option.some.inj hr)
      rfl
    | r + 1 => cases hr
  value id value := by
    constructor
    · intro hvalue
      obtain ⟨hid, hvalue⟩ := Option.ite_none_right_eq_some.mp hvalue
      subst hid
      exact ⟨0, ⟨"Person", [("number", .scalar 7)]⟩, rfl, rfl, Option.some.inj hvalue⟩
    · rintro ⟨row, record, hrow, hkey, rfl⟩
      match row with
      | 0 =>
        obtain rfl := Option.some.inj hrow
        obtain rfl : 7 = id := (Prod.mk.inj (Option.some.inj hkey)).2
        rfl
      | row + 1 => cases hrow
  handle r handle hr := by
    obtain ⟨hzero, hhandle⟩ := Option.ite_none_right_eq_some.mp hr
    subst hzero
    obtain rfl := Option.some.inj hhandle
    exact ⟨⟨"Person", [("number", .scalar 7)]⟩, rfl, rfl, rfl⟩

/-- The commands name the models they use before. -/
theorem typed_replacePerson : replacePerson.Typed personTable := by
  have hstart : ∀ model ∈ [0], personTable.handle model ≠ none := by
    intro model hmem
    rw [List.mem_singleton.mp hmem]
    exact Option.some_ne_none _
  refine ⟨hstart, fun _ table₁ h₁ => ?_⟩
  have hupdated : ∀ model ∈ [0], table₁.handle model ≠ none :=
    fun model hmem => h₁.keeps model (hstart model hmem)
  refine ⟨hupdated, fun _ table₂ h₂ => ?_⟩
  refine ⟨fun model hmem => h₂.keeps model (hupdated model hmem), fun _ table₃ _ => ?_⟩
  exact ⟨fun _ hmem => absurd hmem List.not_mem_nil, fun _ table₄ h₄ =>
    ⟨h₄.known fun _ hmem => absurd hmem List.not_mem_nil, fun _ _ _ => trivial⟩⟩

end Sample

/-- The person is replaced by the copy. -/
theorem run_meetsTable_copiedPerson :
    (∃ answers t table', Sample.replacePerson.run ⟨"Person"⟩ numbered 2 copiedPerson
        = .returns (answers, t) ∧
      Sample.replacePerson.Allows Sample.personTable answers table' ∧
      Tabulates ⟨"Person"⟩ (fun _ => some "number") (fun _ => 0) t table') ∨
    Sample.replacePerson.run ⟨"Person"⟩ numbered 2 copiedPerson = .raises ∧
      Sample.replacePerson.MayRaise Sample.personTable :=
  run_meetsTable rfl 0 Sample.replacePerson Sample.tabulates_copiedPerson
    Sample.typed_replacePerson

end QBRepository
