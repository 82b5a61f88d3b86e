import QBRepository.Realm.Copies

namespace QBRepository

/-!
# Repository calls inside `performTranscation`

`performTranscation` runs its closure in a write transaction, and so does every call that changes
something; but write transactions cannot be nested.

* `RealmCommand` — a call on the repository; a transaction holds the commands of its closure;
* `step`, `run` — the Realm that is left by a command, and by a sequence of commands;
* `run_eq_returns` — inside a transaction only calls that do nothing return;
* `performTranscation_composes_iff` — so these are the only ones that may be grouped.
-/

/-- A call on the repository. -/
inductive RealmCommand where
  | create (model : Ref)
  | createAll (models : List Ref)
  | update (model : Ref)
  | delete (model : Ref)
  | deleteList (models : List Ref)
  | deleteAll
  | performTranscation (transaction : List RealmCommand)

variable {Scalar : Type} [DecidableEq Scalar]

namespace RealmRepository

section Run

variable (repo : RealmRepository) (env : RealmEnvironment Scalar) (fuel : Nat)

mutual

/-- The Realm a command leaves. -/
def step : RealmCommand → Realm Scalar → Outcome (Realm Scalar)
  | .create model, s => do return (← repo.create env fuel model s).2
  | .createAll models, s => do return (← repo.createAll env fuel models s).2
  | .update model, s => do return (← repo.update env fuel model s).2
  | .delete model, s => do return (← delete env fuel model s).2
  | .deleteList models, s => do return (← deleteList env fuel models s).2
  | .deleteAll, s => do return (← repo.deleteAll env fuel s).2
  | .performTranscation transaction, s => do
    return (← performTranscation (fun s => run transaction s) s).2

/-- The Realm a sequence of commands leaves. -/
def run : List RealmCommand → Realm Scalar → Outcome (Realm Scalar)
  | [], s => .returns s
  | command :: commands, s => do
    let s ← step command s
    run commands s

end

end Run

end RealmRepository

variable {env : RealmEnvironment Scalar} {s t : Realm Scalar}

/-- The command is an `update` that does nothing. -/
def RealmCommand.DoesNothing (repo : RealmRepository) (env : RealmEnvironment Scalar)
    (s : Realm Scalar) (command : RealmCommand) : Prop :=
  ∃ model, command = .update model ∧ RefusesUpdate repo env s model

namespace RealmRepository

variable {repo : RealmRepository} {fuel : Nat}

/-- Inside a transaction every command raises that would begin one. -/
theorem step_eq_raises (htransaction : s.inWriteTransaction = true) {command : RealmCommand}
    (h : ¬ command.DoesNothing repo env s) : step repo env fuel command s = .raises := by
  cases command with
  | create model => rw [step, create, write_eq_raises htransaction]; rfl
  | createAll models => rw [step, createAll, write_eq_raises htransaction]; rfl
  | update model =>
    have hstores : ¬ RefusesUpdate repo env s model := fun hrefuses => h ⟨model, rfl, hrefuses⟩
    rw [step]
    rcases update_of_not_refuses hstores fuel with hraises | hwrites
    · rw [hraises]
      rfl
    · rw [hwrites, write_eq_raises htransaction]
      rfl
  | delete model => rw [step, delete, write_eq_raises htransaction]; rfl
  | deleteList models => rw [step, deleteList, write_eq_raises htransaction]; rfl
  | deleteAll => rw [step, deleteAll, write_eq_raises htransaction]; rfl
  | performTranscation transaction =>
    rw [step, performTranscation, write_eq_raises htransaction]; rfl

/-- A command that does nothing returns anywhere. -/
theorem step_of_doesNothing {command : RealmCommand} (h : command.DoesNothing repo env s) :
    step repo env fuel command s = .returns s := by
  obtain ⟨model, rfl, hrefuses⟩ := h
  rw [step, update_of_refuses hrefuses]
  rfl

/-- Commands that do nothing leave the Realm as it is. -/
theorem run_of_doesNothing {commands : List RealmCommand}
    (h : ∀ command ∈ commands, command.DoesNothing repo env s) :
    run repo env fuel commands s = .returns s := by
  induction commands with
  | nil => rw [run]
  | cons command commands ih =>
    rw [run, step_of_doesNothing (h command List.mem_cons_self), Outcome.returns_bind]
    exact ih fun command' hcommand' => h command' (List.mem_cons_of_mem command hcommand')

/-- **Inside a transaction a sequence of commands returns** only if all of them do nothing. -/
theorem run_eq_returns (htransaction : s.inWriteTransaction = true)
    {commands : List RealmCommand} : run repo env fuel commands s = .returns t ↔
      (∀ command ∈ commands, command.DoesNothing repo env s) ∧ t = s := by
  constructor
  · intro h
    have hall : ∀ command ∈ commands, command.DoesNothing repo env s := by
      induction commands with
      | nil => exact fun _ hcommand => (List.not_mem_nil hcommand).elim
      | cons command commands ih =>
        rw [run] at h
        by_cases hcommand : command.DoesNothing repo env s
        · rw [step_of_doesNothing hcommand, Outcome.returns_bind] at h
          exact List.forall_mem_cons.mpr ⟨hcommand, ih h⟩
        · rw [step_eq_raises htransaction hcommand] at h
          cases h
    rw [run_of_doesNothing hall] at h
    exact ⟨hall, (Outcome.returns.inj h).symm⟩
  · rintro ⟨hall, rfl⟩
    exact run_of_doesNothing hall

/-- **Commands may be grouped** exactly if all of them do nothing: if they leave `t` one after
    another, only then does the transaction leave it too. -/
theorem performTranscation_composes_iff (repo : RealmRepository) {commands : List RealmCommand}
    (hrun : Outcome.Converges (fun fuel => run repo env fuel commands s) t) :
    Outcome.Converges (fun fuel => performTranscation (run repo env fuel commands) s) (none, t) ↔
      s.inWriteTransaction = false ∧
        ∀ command ∈ commands, command.DoesNothing repo env s := by
  constructor
  · rintro ⟨n, hn⟩
    obtain ⟨s', hwrite, -⟩ := Outcome.bind_eq_returns.mp (hn n le_rfl)
    obtain ⟨hidle, s'', hblock, -⟩ := of_write_eq_returns hwrite
    exact ⟨hidle, ((run_eq_returns rfl).mp hblock).1⟩
  · rintro ⟨hidle, hall⟩
    obtain ⟨n, hn⟩ := hrun
    obtain rfl : s = t := Outcome.returns.inj ((run_of_doesNothing hall).symm.trans (hn n le_rfl))
    refine ⟨n, fun fuel _ => ?_⟩
    have hblock : run repo env fuel commands { s with inWriteTransaction := true }
        = .returns { s with inWriteTransaction := true } := run_of_doesNothing hall
    have hcommit : { s with inWriteTransaction := false } = s := by
      cases s
      cases hidle
      rfl
    show performTranscation (run repo env fuel commands) s = _
    rw [performTranscation, write, hidle, if_neg Bool.false_ne_true, hblock]
    show Outcome.returns (none, { s with inWriteTransaction := false }) = _
    rw [hcommit]

end RealmRepository

/-- Deleting the person returns. -/
theorem run_numberedPerson : Outcome.Converges
    (fun fuel => RealmRepository.run ⟨"Person"⟩ numbered fuel [.delete 0] numberedPerson)
    { numberedPerson.deleteRow 0 with picks := 1 } :=
  .of_add 3 fun _ => rfl

/-- Updating the copy of the person does nothing, also in a transaction. -/
theorem composes_copiedPerson :
    Outcome.Converges (fun fuel => RealmRepository.performTranscation
      (RealmRepository.run ⟨"Person"⟩ numbered fuel [.update 0]) copiedPerson)
      (none, copiedPerson) := by
  refine (RealmRepository.performTranscation_composes_iff ⟨"Person"⟩
    (.of_add 0 fun _ => rfl)).mpr ⟨rfl, List.forall_mem_singleton.mpr ⟨0, rfl, Or.inr ⟨rfl, ?_⟩⟩⟩
  intro id hid
  cases hid
  exact Option.some_ne_none 0

/-- Deleting the person in a transaction raises. -/
theorem not_composes_numberedPerson :
    (∃ t, Outcome.Converges
      (fun fuel => RealmRepository.run ⟨"Person"⟩ numbered fuel [.delete 0] numberedPerson) t) ∧
    ¬ ∃ result, Outcome.Converges (fun fuel => RealmRepository.performTranscation
      (RealmRepository.run ⟨"Person"⟩ numbered fuel [.delete 0]) numberedPerson) result := by
  refine ⟨⟨_, run_numberedPerson⟩, ?_⟩
  rintro ⟨result, n, hn⟩
  cases hn n le_rfl

end QBRepository
