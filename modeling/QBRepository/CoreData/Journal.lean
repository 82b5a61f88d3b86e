import QBRepository.CoreData.Transaction
import QBRepository.Lib.WorkingCopy

namespace QBRepository

/-!
# What the store holds and what fetches see

The store and what is visible are a working copy, on which a run acts by changes, saves and
rollbacks, in the order in which the repository makes them, at any depth of transactions.

* `Context.copies` — the values in the store, and the visible ones;
* `saves` — the contexts in which a save of a run succeeds; `events` — what a run does to the
  copies;
* `copies_run` — a run is the replay of its events;
* `run_storesLastSave` — the store holds what was visible at the last successful save;
* `run_showsUnsaved` — fetches see the store with the changes since the last save or rollback.
-/

variable {Entity : Type}

/-- The values in the store, and the visible ones. -/
def Context.copies (ctx : Context Entity) : WorkingCopy (ObjectID → Option Entity) where
  committed := ctx.persisted
  current := ctx.visible

/-- What happens to the values of the objects. -/
abbrev CopyEvent (Entity : Type) := WorkingCopy.Event (ObjectID → Option Entity)

namespace CoreDataRepository

open WorkingCopy

variable (stack : CoreDataStack Entity)

/-! ### The events of a run -/

/-- A successful save. -/
def saveIn (ctx : Context Entity) : List (Context Entity) :=
  match (stack.save ctx).1 with
  | none => [ctx]
  | some _ => []

mutual

/-- The contexts in which a command saves successfully. -/
def stepSaves : Context Entity → Command Entity → List (Context Entity)
  | ctx, .create _ | ctx, .createAll _ | ctx, .update _ => saveIn stack ctx
  | ctx, .performTranscation transaction =>
    saves ctx transaction ++ saveIn stack (run stack ctx transaction)
  | _, .makeEntity | _, .edit _ _ | _, .delete _ | _, .deleteList _ | _, .deleteAll => []

/-- The contexts in which a sequence of commands saves successfully, in order. -/
def saves : Context Entity → List (Command Entity) → List (Context Entity)
  | _, [] => []
  | ctx, command :: commands => stepSaves ctx command ++ saves (step stack ctx command).2 commands

end

/-- The event of a save, if it succeeds. -/
def saveEvents (ctx : Context Entity) : List (CopyEvent Entity) :=
  match (stack.save ctx).1 with
  | none => [.commit]
  | some _ => []

/-- The values without those of some models. -/
def without (models : List ObjectID) (values : ObjectID → Option Entity) :
    ObjectID → Option Entity :=
  fun id => if id ∈ models then none else values id

mutual

/-- What a command does to the copies. -/
def stepEvents : Context Entity → Command Entity → List (CopyEvent Entity)
  | ctx, .makeEntity =>
    [.change fun values => Function.update values ctx.objects.next (some stack.defaults)]
  | _, .edit model change =>
    [.change fun values => Function.update values model ((values model).map change)]
  | ctx, .create _ | ctx, .createAll _ | ctx, .update _ => saveEvents stack ctx
  | _, .delete model => [.change (without [model])]
  | _, .deleteList models => [.change (without models)]
  | ctx, .deleteAll =>
    match (stack.fetch ctx).1 with
    | .ok results => [.change (without results)]
    | .error _ => []
  | ctx, .performTranscation transaction =>
    events ctx transaction ++
      match (stack.save (run stack ctx transaction)).1 with
      | none => [.commit]
      | some _ => [.discard]

/-- What a sequence of commands does to the copies. -/
def events : Context Entity → List (Command Entity) → List (CopyEvent Entity)
  | _, [] => []
  | ctx, command :: commands =>
    stepEvents ctx command ++ events (step stack ctx command).2 commands

end

/-! ### A run is the replay of its events -/

section Replay

variable {stack} {ctx : Context Entity}

/-- Deleting objects is one change of the working copy. -/
theorem copies_deleteList (ctx : Context Entity) (models : List ObjectID) :
    (models.foldl Context.delete ctx).copies = ctx.copies.replay [.change (without models)] := by
  unfold Context.copies
  rw [persisted_deleteList, funext (visible_deleteList ctx models)]
  rfl

/-- A save commits what is visible, or does nothing. -/
theorem copies_save (ctx : Context Entity) :
    (stack.save ctx).2.copies = ctx.copies.replay (saveEvents stack ctx) := by
  unfold saveEvents Context.copies
  rcases stack.save_cases ctx with ⟨error, h⟩ | h
  · rw [h, Context.persisted_tick, Context.visible_tick]
    rfl
  · rw [h, Context.persisted_tick, Context.visible_tick, Context.persisted_commit,
      Context.visible_commit]
    rfl

/-- What a save commits is what was visible when it succeeded. -/
theorem commits_saveEvents (ctx : Context Entity) :
    ctx.copies.commits (saveEvents stack ctx) = (saveIn stack ctx).map Context.visible := by
  unfold saveEvents saveIn
  cases (stack.save ctx).1 with
  | none => rfl
  | some error => rfl

/-- A transaction ends with a commit or a discard. -/
theorem copies_performTranscation (ctx : Context Entity) (transaction : List (Command Entity)) :
    (step stack ctx (.performTranscation transaction)).2.copies
      = (run stack ctx transaction).copies.replay
          (match (stack.save (run stack ctx transaction)).1 with
            | none => [.commit]
            | some _ => [.discard]) := by
  unfold Context.copies
  rw [step_performTranscation, performTranscation]
  rcases stack.save_cases (run stack ctx transaction) with ⟨error, h⟩ | h
  · rw [h]
    simp only [Context.persisted_rollback, Context.visible_rollback, Context.persisted_tick]
    rfl
  · rw [h]
    simp only [Context.persisted_tick, Context.visible_tick, Context.persisted_commit,
      Context.visible_commit]
    rfl

mutual

/-- Every command is the replay of its events. -/
theorem copies_step (ctx : Context Entity) (command : Command Entity) :
    (step stack ctx command).2.copies = ctx.copies.replay (stepEvents stack ctx command) := by
  match command with
  | .makeEntity =>
    show (ctx.insertNewObject stack.defaults).copies = _
    unfold Context.copies
    rw [Context.persisted_insertNewObject, Context.visible_insertNewObject]
    rfl
  | .edit model change =>
    show (ctx.edit model change).copies = _
    unfold Context.copies
    rw [Context.persisted_edit, Context.visible_edit]
    rfl
  | .create model => rw [step_create]; exact copies_save ctx
  | .createAll models => rw [step_createAll]; exact copies_save ctx
  | .update model => rw [step_update]; exact copies_save ctx
  | .delete model => exact copies_deleteList ctx [model]
  | .deleteList models => exact copies_deleteList ctx models
  | .deleteAll =>
    -- a failed fetch deletes nothing
    rcases stack.fetch_cases ctx with ⟨error, hfetch⟩ | hfetch
    · simp only [step, deleteAll, stepEvents, hfetch]
      rfl
    · simp only [step, deleteAll, stepEvents, hfetch]
      exact copies_deleteList ctx.tick ctx.fetched
  | .performTranscation transaction =>
    rw [copies_performTranscation, copies_run ctx transaction, stepEvents, replay_append]

/-- **A run is the replay of its events** on the store and what is visible. -/
theorem copies_run (ctx : Context Entity) (commands : List (Command Entity)) :
    (run stack ctx commands).copies = ctx.copies.replay (events stack ctx commands) := by
  match commands with
  | [] => rfl
  | command :: commands =>
    rw [run_cons, copies_run (step stack ctx command).2 commands, copies_step ctx command, events,
      replay_append]

end

mutual

/-- The commits of a command are what was visible at its saves. -/
theorem commits_stepEvents (ctx : Context Entity) (command : Command Entity) :
    ctx.copies.commits (stepEvents stack ctx command)
      = (stepSaves stack ctx command).map Context.visible := by
  match command with
  | .makeEntity => rfl
  | .edit model change => rfl
  | .create model => exact commits_saveEvents ctx
  | .createAll models => exact commits_saveEvents ctx
  | .update model => exact commits_saveEvents ctx
  | .delete model => rfl
  | .deleteList models => rfl
  | .deleteAll =>
    rw [stepEvents, stepSaves]
    cases (stack.fetch ctx).1 with
    | ok results => rfl
    | error error => rfl
  | .performTranscation transaction =>
    rw [stepEvents, stepSaves, commits_append, commits_events ctx transaction, List.map_append,
      ← copies_run, saveIn]
    cases (stack.save (run stack ctx transaction)).1 with
    | none => rfl
    | some error => rfl

/-- What a run commits is what was visible at its saves. -/
theorem commits_events (ctx : Context Entity) (commands : List (Command Entity)) :
    ctx.copies.commits (events stack ctx commands)
      = (saves stack ctx commands).map Context.visible := by
  match commands with
  | [] => rfl
  | command :: commands =>
    rw [events, saves, commits_append, commits_stepEvents ctx command, ← copies_step,
      commits_events (step stack ctx command).2 commands, List.map_append]

end

end Replay

/-! ### The store and the visible objects after a run -/

/-- **The store holds what was visible at the last successful save** of a run, at any depth: all
    of it, and nothing else. -/
theorem run_storesLastSave (stack : CoreDataStack Entity) (ctx : Context Entity)
    (commands : List (Command Entity)) :
    (run stack ctx commands).persisted
      = ((saves stack ctx commands).getLast?.map Context.visible).getD ctx.persisted := by
  have hcopies : (run stack ctx commands).copies = _ := copies_run ctx commands
  replace hcopies := congrArg WorkingCopy.committed hcopies
  rw [committed_replay, commits_events, List.getLast?_map] at hcopies
  exact hcopies

/-- **Fetches see the store with the unsaved changes**: those that a run has made since its last
    save or rollback, at any depth, in order. -/
theorem run_showsUnsaved (stack : CoreDataStack Entity) {ctx : Context Entity} (hctx : ctx.Synced)
    (commands : List (Command Entity)) :
    (run stack ctx commands).visible
      = changed (uncommitted [] (events stack ctx commands))
          (run stack ctx commands).persisted := by
  have hcurrent : (ctx.copies.replay (events stack ctx commands)).current
      = changed (uncommitted [] (events stack ctx commands))
          (ctx.copies.replay (events stack ctx commands)).committed := current_replay hctx
  rw [← copies_run ctx commands] at hcurrent
  exact hcurrent

end CoreDataRepository

namespace Sample

/-- The empty context has no changes to save. -/
theorem synced_emptyContext : emptyContext.Synced := rfl

/-- Seven is stored; the transaction that would replace it is rolled back, as its number is still
    zero, and another number is made. -/
def replacements : List (Command Nat) :=
  [.makeEntity, .edit 0 fun _ => 7, .create 0, .performTranscation [.delete 0, .makeEntity],
    .makeEntity]

end Sample

namespace CoreDataRepository

open Sample

/-- A run of two transactions, from the empty context. -/
theorem run_showsUnsaved_replacements : (run nonzero emptyContext replacements).visible
    = WorkingCopy.changed (WorkingCopy.uncommitted [] (events nonzero emptyContext replacements))
        (run nonzero emptyContext replacements).persisted :=
  run_showsUnsaved nonzero synced_emptyContext replacements

end CoreDataRepository

end QBRepository
