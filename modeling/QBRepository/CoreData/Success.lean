import QBRepository.CoreData.Transaction

namespace QBRepository

/-!
# When success means stored in `CoreDataRepository`

A fresh context on the store of `ctx` sees what `ctx` sees exactly if `ctx` is synced.  After a
successful save it is; the deletions do not save, and always report success.

`synced_iff_storedByThen` — after a successful command the context is synced exactly if the
command was not a deletion, or only deleted objects that were never stored and nothing else was
pending.
-/

variable {Entity : Type}

namespace CoreDataRepository

variable (stack : CoreDataStack Entity)

/-- The models a command deletes. -/
def deletedModels (ctx : Context Entity) : Command Entity → List ObjectID
  | .delete model => [model]
  | .deleteList models => models
  | .deleteAll =>
    match (stack.fetch ctx).1 with
    | .ok results => results
    | .error _ => []
  | .makeEntity | .edit _ _ | .create _ | .createAll _ | .update _ | .performTranscation _ => []

/-- The command is one of the deletions. -/
def Deletes : Command Entity → Prop
  | .delete _ | .deleteList _ | .deleteAll => True
  | .makeEntity | .edit _ _ | .create _ | .createAll _ | .update _ | .performTranscation _ => False

variable {stack} {ctx : Context Entity} {command : Command Entity}

/-- A deletion marks its models and does nothing else. -/
theorem deletes_spec (stack : CoreDataStack Entity) (ctx : Context Entity)
    (hcommand : Deletes command) :
    (step stack ctx command).2.persisted = ctx.persisted ∧
      ∀ id, (step stack ctx command).2.visible id
        = if id ∈ deletedModels stack ctx command then none else ctx.visible id := by
  cases command with
  | delete model =>
    exact ⟨persisted_deleteList ctx [model], visible_deleteList ctx [model]⟩
  | deleteList models => exact ⟨persisted_deleteList ctx models, visible_deleteList ctx models⟩
  | deleteAll =>
    -- a failed fetch deletes nothing; otherwise every visible object is deleted
    rcases stack.fetch_cases ctx with ⟨error, hfetch⟩ | hfetch
    · have hstep : step stack ctx .deleteAll = (some error, ctx.tick) := by
        simp only [step, deleteAll, hfetch]
      have hmodels : deletedModels stack ctx .deleteAll = [] := by
        simp only [deletedModels, hfetch]
      rw [hstep, hmodels]
      exact ⟨rfl, fun id => (if_neg List.not_mem_nil).symm⟩
    · have hstep : step stack ctx .deleteAll = deleteList ctx.fetched ctx.tick := by
        simp only [step, deleteAll, hfetch]
      have hmodels : deletedModels stack ctx .deleteAll = ctx.fetched := by
        simp only [deletedModels, hfetch]
      rw [hstep, hmodels]
      exact ⟨persisted_deleteList ctx.tick ctx.fetched, visible_deleteList ctx.tick ctx.fetched⟩
  | makeEntity => exact hcommand.elim
  | edit model change => exact hcommand.elim
  | create model => exact hcommand.elim
  | createAll models => exact hcommand.elim
  | update model => exact hcommand.elim
  | performTranscation transaction => exact hcommand.elim

/-- A successful command that saves leaves nothing pending. -/
theorem saves_spec (hcommand : Saves command) (hsuccess : (step stack ctx command).1 = none) :
    (step stack ctx command).2.Synced := by
  cases command with
  | create model =>
    rw [step_create] at hsuccess ⊢
    exact CoreDataStack.synced_of_save hsuccess
  | createAll models =>
    rw [step_createAll] at hsuccess ⊢
    exact CoreDataStack.synced_of_save hsuccess
  | update model =>
    rw [step_update] at hsuccess ⊢
    exact CoreDataStack.synced_of_save hsuccess
  | performTranscation transaction =>
    rw [step_performTranscation] at hsuccess ⊢
    rcases performTranscation_cases stack (fun ctx => run stack ctx transaction) ctx with
      ⟨error, hrun⟩ | hrun
    · rw [hrun] at hsuccess
      exact absurd hsuccess (Option.some_ne_none error)
    · rw [hrun, Context.Synced, Context.visible_tick, Context.persisted_tick,
        Context.visible_commit, Context.persisted_commit]
  | makeEntity => exact hcommand.elim
  | edit model change => exact hcommand.elim
  | delete model => exact hcommand.elim
  | deleteList models => exact hcommand.elim
  | deleteAll => exact hcommand.elim

/-- A deletion is stored by the time it is made: its models never were in the store, and
    nothing is pending for the other objects. -/
def StoredByThen (stack : CoreDataStack Entity) (ctx : Context Entity)
    (command : Command Entity) : Prop :=
  Deletes command → ∀ id,
    if id ∈ deletedModels stack ctx command then ctx.persisted id = none
    else ctx.visible id = ctx.persisted id

/-- **Success means stored**, after any run, exactly if the last command saved or what it
    deleted was not in the store and nothing else was pending. -/
theorem synced_iff_storedByThen (commands : List (Command Entity)) (last : Command Entity)
    (hlast : Saves last ∨ Deletes last)
    (hsuccess : (step stack (run stack ctx commands) last).1 = none) :
    (step stack (run stack ctx commands) last).2.Synced ↔
      StoredByThen stack (run stack ctx commands) last := by
  rcases hlast with hsaves | hdeletes
  · refine iff_of_true (saves_spec hsaves hsuccess) fun hdeletes => ?_
    cases last <;> first | exact hsaves.elim | exact hdeletes.elim
  · obtain ⟨hpersisted, hvisible⟩ := deletes_spec stack (run stack ctx commands) hdeletes
    rw [Context.Synced, funext_iff, StoredByThen, forall_prop_of_true hdeletes]
    refine forall_congr' fun id => ?_
    rw [hpersisted, hvisible]
    split
    · exact eq_comm
    · exact Iff.rfl

end CoreDataRepository

namespace Sample

/-- Numbers without rules. -/
def numbers : CoreDataStack Nat where
  defaults := 0
  validate _ := none
  fault _ := none

end Sample

namespace CoreDataRepository

/-- A created number is stored. -/
theorem synced_numbers :
    (step Sample.numbers (run Sample.numbers Sample.emptyContext [.makeEntity])
      (.create 0)).2.Synced :=
  (synced_iff_storedByThen [.makeEntity] (.create 0) (Or.inl trivial) rfl).mpr fun h => h.elim

/-- A number is stored and then deleted; the deletion reports success, but the number is still
    in the store. -/
theorem not_synced_numbers :
    ¬ ∀ (commands : List (Command Nat)) (last : Command Nat), Saves last ∨ Deletes last →
      (step Sample.numbers (run Sample.numbers Sample.emptyContext commands) last).1 = none →
      (step Sample.numbers (run Sample.numbers Sample.emptyContext commands) last).2.Synced := by
  intro h
  have hsynced := h [.makeEntity, .create 0] (.delete 0) (Or.inr trivial) rfl
  have hzero : none = some 0 := congrFun hsynced 0
  exact absurd hzero.symm (Option.some_ne_none 0)

end CoreDataRepository

end QBRepository
