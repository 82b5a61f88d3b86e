import QBRepository.CoreData.Repository

namespace QBRepository

/-!
# When `performTranscation` is all-or-nothing

A rollback goes back to the last save, wherever that was.  Changes that were pending before
the transaction are discarded with it, and what its closure has saved stays.

* `effect` — what the changes of a sequence of commands are meant to do to the visible objects;
  a transaction that reports an error is meant to do nothing;
* `AllOrNothing` — an error leaves the store and the visible objects as they were, success
  stores the effect of the closure;
* `NothingCrosses` — if the store does not accept what a closure leaves in the context, nothing
  was pending when its transaction was called, and the closure has left the store as it was;
* `allOrNothing_iff` — all transactions of a run, at any depth, are all-or-nothing exactly if
  nothing crosses any of them;
* `allOrNothing_of_synced` — so is a transaction called with nothing pending whose closure does
  not save.
-/

variable {Entity : Type}

namespace CoreDataRepository

variable (stack : CoreDataStack Entity)

mutual

/-- The effect of a command on the visible objects. -/
def stepEffect : Context Entity → (ObjectID → Option Entity) → Command Entity →
    ObjectID → Option Entity
  | ctx, visible, .makeEntity => Function.update visible ctx.objects.next (some stack.defaults)
  | _, visible, .edit model change =>
    Function.update visible model ((visible model).map change)
  | _, visible, .create _ | _, visible, .createAll _ | _, visible, .update _ => visible
  | _, visible, .delete model => Function.update visible model none
  | _, visible, .deleteList models => fun id => if id ∈ models then none else visible id
  | ctx, visible, .deleteAll =>
    match (stack.fetch ctx).1 with
    | .ok _ => fun _ => none
    | .error _ => visible
  | ctx, visible, .performTranscation transaction =>
    match (stack.save (run stack ctx transaction)).1 with
    | none => effect ctx visible transaction
    | some _ => visible

/-- The effect of a sequence of commands on the visible objects. -/
def effect : Context Entity → (ObjectID → Option Entity) → List (Command Entity) →
    ObjectID → Option Entity
  | _, visible, [] => visible
  | ctx, visible, command :: commands =>
    effect (step stack ctx command).2 (stepEffect ctx visible command) commands

end

/-- **All or nothing**, for a transaction called in a context. -/
structure AllOrNothing (ctx : Context Entity) (transaction : List (Command Entity)) : Prop where
  onError : (step stack ctx (.performTranscation transaction)).1 ≠ none →
    (step stack ctx (.performTranscation transaction)).2.persisted = ctx.persisted ∧
      (step stack ctx (.performTranscation transaction)).2.visible = ctx.visible
  onSuccess : (step stack ctx (.performTranscation transaction)).1 = none →
    (step stack ctx (.performTranscation transaction)).2.persisted
      = effect stack ctx ctx.visible transaction

/-- If the store does not accept what the closure leaves, nothing was pending before the
    transaction and the closure has not changed the store. -/
def NothingCrosses (ctx : Context Entity) (transaction : List (Command Entity)) : Prop :=
  ¬ stack.Accepts (run stack ctx transaction) →
    ctx.Synced ∧ (run stack ctx transaction).persisted = ctx.persisted

variable {stack} {ctx : Context Entity}

/-- An error leaves everything as it was exactly if nothing crosses the transaction. -/
theorem onError_iff (transaction : List (Command Entity)) :
    ((step stack ctx (.performTranscation transaction)).1 ≠ none →
      (step stack ctx (.performTranscation transaction)).2.persisted = ctx.persisted ∧
        (step stack ctx (.performTranscation transaction)).2.visible = ctx.visible) ↔
      NothingCrosses stack ctx transaction := by
  rw [step_performTranscation, NothingCrosses, ← CoreDataStack.save_eq_none_iff,
    performTranscation]
  rcases stack.save_cases (run stack ctx transaction) with ⟨error, h⟩ | h
  · rw [h]
    simp only [ne_eq, reduceCtorEq, not_false_eq_true, forall_const, Context.persisted_rollback,
      Context.visible_rollback, Context.persisted_tick, Context.Synced]
    -- what is visible after the rollback is what the closure has left in the store
    constructor
    · rintro ⟨hpersisted, hvisible⟩
      exact ⟨hvisible.symm.trans hpersisted, hpersisted⟩
    · rintro ⟨hsynced, hpersisted⟩
      exact ⟨hpersisted, hpersisted.trans hsynced.symm⟩
  · rw [h]
    simp

mutual

/-- Where nothing crosses a transaction, the effect of a command is what becomes visible. -/
theorem stepEffect_eq_visible : (ctx : Context Entity) → (command : Command Entity) →
    (∀ call ∈ stepTransactions stack ctx command, NothingCrosses stack call.1 call.2) →
    stepEffect stack ctx ctx.visible command = (step stack ctx command).2.visible
  | ctx, .makeEntity, _ => (Context.visible_insertNewObject stack.defaults).symm
  | ctx, .edit model change, _ => (Context.visible_edit model change).symm
  | ctx, .create model, _ => by rw [step_create, CoreDataStack.visible_save, stepEffect]
  | ctx, .createAll models, _ => by rw [step_createAll, CoreDataStack.visible_save, stepEffect]
  | ctx, .update model, _ => by rw [step_update, CoreDataStack.visible_save, stepEffect]
  | ctx, .delete model, _ => (Context.visible_delete model).symm
  | ctx, .deleteList models, _ => funext fun id => (visible_deleteList ctx models id).symm
  | ctx, .deleteAll, _ => by
    simp only [stepEffect, step, deleteAll, CoreDataStack.fetch]
    cases stack.fault ctx.calls with
    | some code => rfl
    | none =>
      funext id
      show none = (ctx.fetched.foldl Context.delete ctx.tick).visible id
      rw [visible_deleteList]
      split
      · rfl
      · next hid => exact (not_not.mp (mt Context.mem_fetched.mpr hid)).symm
  | ctx, .performTranscation transaction, h => by
    have hcross : NothingCrosses stack ctx transaction :=
      h (ctx, transaction) (by simp [stepTransactions])
    have heffect := effect_eq_visible ctx transaction fun call hcall =>
      h call (by simp [stepTransactions, hcall])
    rw [stepEffect, step_performTranscation, performTranscation]
    rcases stack.save_cases (run stack ctx transaction) with ⟨error, hsave⟩ | hsave
    · obtain ⟨hsynced, hpersisted⟩ := hcross (by rw [← CoreDataStack.save_eq_none_iff, hsave]; simp)
      rw [hsave]
      -- the rollback shows the store, which was visible before the transaction
      show ctx.visible = (run stack ctx transaction).tick.rollback.visible
      rw [Context.visible_rollback, Context.persisted_tick, hpersisted]
      exact hsynced
    · rw [hsave]
      -- what the closure has made visible is written
      show effect stack ctx ctx.visible transaction
        = (run stack ctx transaction).commit.tick.visible
      rw [heffect, Context.visible_tick, Context.visible_commit]

/-- Where nothing crosses a transaction, the effect of a sequence is what becomes visible. -/
theorem effect_eq_visible : (ctx : Context Entity) → (commands : List (Command Entity)) →
    (∀ call ∈ transactions stack ctx commands, NothingCrosses stack call.1 call.2) →
    effect stack ctx ctx.visible commands = (run stack ctx commands).visible
  | ctx, [], _ => rfl
  | ctx, command :: commands, h => by
    have hstep := stepEffect_eq_visible ctx command fun call hcall =>
      h call (by simp [transactions, hcall])
    have hrun := effect_eq_visible (step stack ctx command).2 commands fun call hcall =>
      h call (by simp [transactions, hcall])
    rw [effect, hstep, hrun, run_cons]

end

mutual

/-- The transactions inside a transaction of a command are transactions of the command. -/
theorem transactions_subset_step : (ctx : Context Entity) → (command : Command Entity) →
    ∀ call ∈ stepTransactions stack ctx command, ∀ inner ∈ transactions stack call.1 call.2,
      inner ∈ stepTransactions stack ctx command
  | ctx, .performTranscation transaction, call, hcall, inner, hinner => by
    rw [stepTransactions, List.mem_cons] at hcall ⊢
    rcases hcall with rfl | hcall
    · exact Or.inr hinner
    · exact Or.inr (transactions_subset ctx transaction call hcall inner hinner)
  | _, .makeEntity, _, hcall, _, _ | _, .edit _ _, _, hcall, _, _ | _, .create _, _, hcall, _, _
  | _, .createAll _, _, hcall, _, _ | _, .update _, _, hcall, _, _ | _, .delete _, _, hcall, _, _
  | _, .deleteList _, _, hcall, _, _ | _, .deleteAll, _, hcall, _, _ => by
    simp [stepTransactions] at hcall

/-- So are those inside a transaction of a sequence. -/
theorem transactions_subset : (ctx : Context Entity) → (commands : List (Command Entity)) →
    ∀ call ∈ transactions stack ctx commands, ∀ inner ∈ transactions stack call.1 call.2,
      inner ∈ transactions stack ctx commands
  | ctx, command :: commands, call, hcall, inner, hinner => by
    rw [transactions, List.mem_append] at hcall ⊢
    rcases hcall with hcall | hcall
    · exact Or.inl (transactions_subset_step ctx command call hcall inner hinner)
    · exact Or.inr (transactions_subset _ commands call hcall inner hinner)
  | _, [], _, hcall, _, _ => by simp [transactions] at hcall

end

/-- A transaction is all-or-nothing if nothing crosses it, nor any transaction inside it. -/
theorem allOrNothing_of_nothingCrosses {transaction : List (Command Entity)}
    (h : NothingCrosses stack ctx transaction)
    (hinner : ∀ call ∈ transactions stack ctx transaction, NothingCrosses stack call.1 call.2) :
    AllOrNothing stack ctx transaction where
  onError := (onError_iff transaction).mpr h
  onSuccess hsuccess := by
    rw [effect_eq_visible ctx transaction hinner]
    rw [step_performTranscation] at hsuccess ⊢
    rcases performTranscation_cases stack (fun ctx => run stack ctx transaction) ctx with
      ⟨error, hrun⟩ | hrun
    · rw [hrun] at hsuccess
      exact absurd hsuccess (Option.some_ne_none error)
    · rw [hrun, Context.persisted_tick, Context.persisted_commit]

/-- **All or nothing.** In a run, all transactions at any depth are all-or-nothing exactly if,
    for each of them whose closure leaves a context that the store does not accept, nothing was
    pending when it was called and the closure has left the store unchanged. -/
theorem allOrNothing_iff (stack : CoreDataStack Entity) (ctx : Context Entity)
    (commands : List (Command Entity)) :
    (∀ call ∈ transactions stack ctx commands, AllOrNothing stack call.1 call.2) ↔
      ∀ call ∈ transactions stack ctx commands, NothingCrosses stack call.1 call.2 := by
  constructor
  · intro h call hcall
    exact (onError_iff call.2).mp (h call hcall).onError
  · intro h call hcall
    exact allOrNothing_of_nothingCrosses (h call hcall) fun inner hinner =>
      h inner (transactions_subset ctx commands call hcall inner hinner)

/-- The command saves the context. -/
def Saves : Command Entity → Prop
  | .create _ | .createAll _ | .update _ | .performTranscation _ => True
  | .makeEntity | .edit _ _ | .delete _ | .deleteList _ | .deleteAll => False

/-- Commands that do not save leave the store as it is. -/
theorem persisted_run {commands : List (Command Entity)} (h : ∀ c ∈ commands, ¬ Saves c) :
    (run stack ctx commands).persisted = ctx.persisted := by
  induction commands generalizing ctx with
  | nil => rfl
  | cons command commands ih =>
    have hstep : (step stack ctx command).2.persisted = ctx.persisted := by
      cases command with
      | makeEntity => exact Context.persisted_insertNewObject _
      | edit model change => exact Context.persisted_edit model change
      | delete model => exact Context.persisted_delete model
      | deleteList models => exact persisted_deleteList ctx models
      | deleteAll =>
        show (deleteAll stack ctx).2.persisted = ctx.persisted
        rcases deleteAll_cases stack ctx with ⟨error, hrun⟩ | hrun
        · rw [hrun, Context.persisted_tick]
        · rw [hrun, persisted_deleteList, Context.persisted_tick]
      | create model => exact absurd trivial (h _ List.mem_cons_self)
      | createAll models => exact absurd trivial (h _ List.mem_cons_self)
      | update model => exact absurd trivial (h _ List.mem_cons_self)
      | performTranscation transaction => exact absurd trivial (h _ List.mem_cons_self)
    rw [run_cons, ih fun c hc => h c (List.mem_cons_of_mem _ hc), hstep]

/-- Commands that do not save perform no transactions. -/
theorem transactions_eq_nil {commands : List (Command Entity)} (h : ∀ c ∈ commands, ¬ Saves c) :
    transactions stack ctx commands = [] := by
  induction commands generalizing ctx with
  | nil => rfl
  | cons command commands ih =>
    have hstep : stepTransactions stack ctx command = [] := by
      cases command with
      | performTranscation transaction => exact absurd trivial (h _ List.mem_cons_self)
      | _ => rfl
    rw [transactions, hstep, ih fun c hc => h c (List.mem_cons_of_mem _ hc), List.append_nil]

/-- **A transaction called with nothing pending whose closure does not save is
    all-or-nothing.** -/
theorem allOrNothing_of_synced (hsynced : ctx.Synced) {transaction : List (Command Entity)}
    (h : ∀ c ∈ transaction, ¬ Saves c) : AllOrNothing stack ctx transaction :=
  allOrNothing_of_nothingCrosses (fun _ => ⟨hsynced, persisted_run h⟩)
    (by rw [transactions_eq_nil h]; simp)

end CoreDataRepository

/-! ### A sample context

Numbers that must not be zero, which is their default. -/

namespace Sample

def nonzero : CoreDataStack Nat where
  defaults := 0
  validate
    | .insert 0 | .update _ 0 => some "must not be zero"
    | .insert _ | .update _ _ | .delete _ => none
  fault _ := none

def emptyContext : Context Nat := ⟨.empty, 0⟩

end Sample

namespace CoreDataRepository

/-- A number is stored and then deleted; the transaction that follows fails and brings it
    back. -/
theorem not_allOrNothing_pendingDelete :
    ¬ ∀ call ∈ transactions Sample.nonzero Sample.emptyContext
        [.makeEntity, .edit 0 fun _ => 7, .create 0, .delete 0, .performTranscation [.makeEntity]],
      AllOrNothing Sample.nonzero call.1 call.2 := by
  intro h
  let ctx := run Sample.nonzero Sample.emptyContext
    [.makeEntity, .edit 0 fun _ => 7, .create 0, .delete 0]
  have hback := ((h (ctx, [.makeEntity]) (List.mem_singleton.mpr rfl)).onError
    (Option.some_ne_none _)).2
  have hseven : some 7 = none := congrFun hback 0
  exact absurd hseven (Option.some_ne_none 7)

end CoreDataRepository

end QBRepository
