import Mathlib.Logic.Relation
import QBRepository.CoreData.Rejected

namespace QBRepository

/-!
# The history of stored objects

Nothing reaches the store but through a save, which validates it.  So the values an object has in
the store follow each other as the validation rules allow, from its insertion to its deletion, and
after its deletion the object does not come back, not even by a rollback.

* `CoreDataStack.Follows` — values of an object that may follow each other in the store;
* `KeepsHistory` — what may become of the objects from one context to a later one;
* `moments` — the contexts a run goes through, also inside its transactions;
* `run_keepsHistory` — every run keeps the history, between any two of its moments.
-/

variable {Entity : Type}

/-- A value that is stored later may follow a value by updates that are valid. -/
def CoreDataStack.Follows (stack : CoreDataStack Entity) : Entity → Entity → Prop :=
  Relation.ReflTransGen fun committed current => stack.validate (.update committed current) = none

namespace CoreDataRepository

/-- What may become of the objects from one context to a later one. -/
structure KeepsHistory (stack : CoreDataStack Entity) (ctx ctx' : Context Entity) : Prop where
  next : ctx.objects.next ≤ ctx'.objects.next
  /-- an object that is gone does not come back -/
  gone : ∀ id < ctx.objects.next, ctx.objects.get id = none → ctx'.objects.get id = none
  /-- an object that appears in the store was inserted with a valid value -/
  inserted : ∀ id current, ctx.persisted id = none → ctx'.persisted id = some current →
    ∃ first, stack.validate (.insert first) = none ∧ stack.Follows first current
  /-- the value of a stored object has been updated by valid updates -/
  updated : ∀ id committed current, ctx.persisted id = some committed →
    ctx'.persisted id = some current → stack.Follows committed current
  /-- an object that disappears from the store could be deleted, and is gone -/
  deleted : ∀ id committed, ctx.persisted id = some committed → ctx'.persisted id = none →
    ctx'.objects.get id = none ∧
      ∃ last, stack.Follows committed last ∧ stack.validate (.delete last) = none

section History

variable {stack : CoreDataStack Entity} {ctx ctx' ctx'' : Context Entity} {id : ObjectID}

/-- An object that is stored is an object. -/
theorem lt_next_of_persisted {committed : Entity} (h : ctx.persisted id = some committed) :
    id < ctx.objects.next := by
  obtain ⟨object, hobject, -⟩ := FreshMap.get_of_view h
  exact ctx.objects.lt_next_of_get hobject

/-- An object that is gone is not stored. -/
theorem persisted_of_gone (h : ctx.objects.get id = none) : ctx.persisted id = none := by
  rw [Context.persisted, FreshMap.view, h, Option.bind_none]

/-- As long as the store is not written, objects only have to stay gone. -/
theorem KeepsHistory.of_persisted (hnext : ctx.objects.next ≤ ctx'.objects.next)
    (hgone : ∀ id < ctx.objects.next, ctx.objects.get id = none → ctx'.objects.get id = none)
    (hpersisted : ctx'.persisted = ctx.persisted) : KeepsHistory stack ctx ctx' where
  next := hnext
  gone := hgone
  inserted id current hnone hsome := by
    rw [hpersisted, hnone] at hsome
    exact absurd hsome.symm (Option.some_ne_none current)
  updated id committed current hbefore hafter := by
    rw [hpersisted, hbefore] at hafter
    obtain rfl := Option.some.inj hafter
    exact .refl
  deleted id committed hbefore hafter := by
    rw [hpersisted, hbefore] at hafter
    exact absurd hafter (Option.some_ne_none committed)

/-- Nothing happens. -/
theorem KeepsHistory.refl (stack : CoreDataStack Entity) (ctx : Context Entity) :
    KeepsHistory stack ctx ctx := .of_persisted (Nat.le_refl _) (fun _ _ h => h) rfl

/-- The history is kept over two stretches of a run: what is gone in between stays gone, so the
    stored values of the second stretch go on where the first one has stopped. -/
theorem KeepsHistory.trans (h : KeepsHistory stack ctx ctx') (h' : KeepsHistory stack ctx' ctx'') :
    KeepsHistory stack ctx ctx'' where
  next := Nat.le_trans h.next h'.next
  gone id hid hnone := h'.gone id (Nat.lt_of_lt_of_le hid h.next) (h.gone id hid hnone)
  inserted id current hnone hsome := by
    cases hbetween : ctx'.persisted id with
    | none => exact h'.inserted id current hbetween hsome
    | some between =>
      obtain ⟨first, hvalid, hfollows⟩ := h.inserted id between hnone hbetween
      exact ⟨first, hvalid, hfollows.trans (h'.updated id between current hbetween hsome)⟩
  updated id committed current hbefore hafter := by
    cases hbetween : ctx'.persisted id with
    | none =>
      -- it is gone in between, so it is not stored afterwards
      obtain ⟨hgone, -⟩ := h.deleted id committed hbefore hbetween
      have hlt := Nat.lt_of_lt_of_le (lt_next_of_persisted hbefore) h.next
      rw [persisted_of_gone (h'.gone id hlt hgone)] at hafter
      exact absurd hafter.symm (Option.some_ne_none current)
    | some between =>
      exact (h.updated id committed between hbefore hbetween).trans
        (h'.updated id between current hbetween hafter)
  deleted id committed hbefore hafter := by
    cases hbetween : ctx'.persisted id with
    | none =>
      obtain ⟨hgone, hdeleted⟩ := h.deleted id committed hbefore hbetween
      have hlt := Nat.lt_of_lt_of_le (lt_next_of_persisted hbefore) h.next
      exact ⟨h'.gone id hlt hgone, hdeleted⟩
    | some between =>
      obtain ⟨hgone, last, hfollows, hvalid⟩ := h'.deleted id between hbetween hafter
      exact ⟨hgone, last, (h.updated id committed between hbefore hbetween).trans hfollows, hvalid⟩

/-! ### The changes of a context -/

/-- Changes of objects that exist keep the history if they do not write to the store. -/
theorem keepsHistory_filterMap {f : Nat → ManagedObject Entity → Option (ManagedObject Entity)}
    (hpersisted : (Context.mk (ctx.objects.filterMap f) ctx.calls).persisted = ctx.persisted) :
    KeepsHistory stack ctx ⟨ctx.objects.filterMap f, ctx.calls⟩ := by
  refine .of_persisted (Nat.le_refl _) (fun id hid hnone => ?_) hpersisted
  rw [FreshMap.get_filterMap, hnone, Option.bind_none]

/-- A fetch changes no object. -/
theorem keepsHistory_tick : KeepsHistory stack ctx ctx.tick :=
  .of_persisted (Nat.le_refl _) (fun _ _ h => h) rfl

/-- A new object is not stored before the next save. -/
theorem keepsHistory_insertNewObject (current : Entity) :
    KeepsHistory stack ctx (ctx.insertNewObject current) := by
  refine .of_persisted (Nat.le_succ _) (fun id hid hnone => ?_)
    (Context.persisted_insertNewObject current)
  rw [Context.insertNewObject, FreshMap.get_alloc_of_ne _ _ (Nat.ne_of_lt hid), hnone]

/-- An edit is not stored before the next save. -/
theorem keepsHistory_edit (model : ObjectID) (change : Entity → Entity) :
    KeepsHistory stack ctx (ctx.edit model change) :=
  keepsHistory_filterMap (Context.persisted_edit model change)

/-- Neither are deletions. -/
theorem keepsHistory_deleteList (ctx : Context Entity) (models : List ObjectID) :
    KeepsHistory stack ctx (models.foldl Context.delete ctx) := by
  induction models generalizing ctx with
  | nil => exact .refl stack ctx
  | cons model models ih =>
    exact (keepsHistory_filterMap (Context.persisted_delete model)).trans (ih (ctx.delete model))

/-- A rollback only takes back what is not stored. -/
theorem keepsHistory_rollback : KeepsHistory stack ctx ctx.rollback :=
  keepsHistory_filterMap Context.persisted_rollback

/-- What a commit makes of an object whose change is valid. -/
theorem keepsHistory_commit
    (hvalid : ∀ id change, ctx.pending id = some change → stack.validate change = none) :
    KeepsHistory stack ctx ctx.commit where
  next := Nat.le_refl _
  gone id hid hnone := by
    rw [Context.commit, FreshMap.get_filterMap, hnone, Option.bind_none]
  inserted id current hnone hsome := by
    rw [Context.persisted_commit] at hsome
    obtain ⟨object, hobject, hcurrent⟩ := FreshMap.get_of_view hsome
    rw [Context.persisted, FreshMap.view, hobject, Option.bind_some] at hnone
    cases object with
    | inserted first =>
      obtain rfl := Option.some.inj hcurrent
      refine ⟨first, hvalid id _ ?_, .refl⟩
      rw [Context.pending, FreshMap.view, hobject]
      rfl
    | saved committed => exact absurd hnone (Option.some_ne_none committed)
    | updated committed current => exact absurd hnone (Option.some_ne_none committed)
    | deleted committed => exact absurd hnone (Option.some_ne_none committed)
  updated id committed current hbefore hafter := by
    rw [Context.persisted_commit] at hafter
    obtain ⟨object, hobject, hcurrent⟩ := FreshMap.get_of_view hafter
    rw [Context.persisted, FreshMap.view, hobject, Option.bind_some] at hbefore
    cases object with
    | inserted first => exact absurd hbefore.symm (Option.some_ne_none committed)
    | saved value =>
      obtain rfl := Option.some.inj hbefore
      obtain rfl := Option.some.inj hcurrent
      exact .refl
    | updated value value' =>
      obtain rfl := Option.some.inj hbefore
      obtain rfl := Option.some.inj hcurrent
      refine .single (hvalid id _ ?_)
      rw [Context.pending, FreshMap.view, hobject]
      rfl
    | deleted value => exact absurd hcurrent.symm (Option.some_ne_none current)
  deleted id committed hbefore hafter := by
    rw [Context.persisted_commit] at hafter
    obtain ⟨object, hobject, hcommitted⟩ := FreshMap.get_of_view hbefore
    rw [Context.visible, FreshMap.view, hobject, Option.bind_some] at hafter
    cases object with
    | inserted first => exact absurd hafter (Option.some_ne_none first)
    | saved value => exact absurd hafter (Option.some_ne_none value)
    | updated value value' => exact absurd hafter (Option.some_ne_none value')
    | deleted value =>
      obtain rfl := Option.some.inj hcommitted
      refine ⟨?_, value, .refl, hvalid id _ ?_⟩
      · rw [Context.commit, FreshMap.get_filterMap, hobject]
        rfl
      · rw [Context.pending, FreshMap.view, hobject]
        rfl

/-- A save writes valid changes, or nothing. -/
theorem keepsHistory_save (ctx : Context Entity) : KeepsHistory stack ctx (stack.save ctx).2 := by
  rcases stack.save_cases ctx with ⟨error, h⟩ | h
  · rw [h]
    exact keepsHistory_tick
  · rw [h]
    have haccepts : stack.Accepts ctx := CoreDataStack.save_eq_none_iff.mp (by rw [h])
    exact (keepsHistory_commit haccepts.2).trans keepsHistory_tick

/-! ### Runs -/

mutual

/-- Every command keeps the history. -/
theorem keepsHistory_step (ctx : Context Entity) (command : Command Entity) :
    KeepsHistory stack ctx (step stack ctx command).2 := by
  match command with
  | .makeEntity => exact keepsHistory_insertNewObject stack.defaults
  | .edit model change => exact keepsHistory_edit model change
  | .create model => rw [step_create]; exact keepsHistory_save ctx
  | .createAll models => rw [step_createAll]; exact keepsHistory_save ctx
  | .update model => rw [step_update]; exact keepsHistory_save ctx
  | .delete model => exact keepsHistory_deleteList ctx [model]
  | .deleteList models => exact keepsHistory_deleteList ctx models
  | .deleteAll =>
    show KeepsHistory stack ctx (deleteAll stack ctx).2
    rcases deleteAll_cases stack ctx with ⟨error, h⟩ | h
    · rw [h]
      exact keepsHistory_tick
    · rw [h]
      exact keepsHistory_tick.trans (keepsHistory_deleteList ctx.tick ctx.fetched)
  | .performTranscation transaction =>
    have hclosure := keepsHistory_run ctx transaction
    have hsave : KeepsHistory stack _ _ := keepsHistory_save (run stack ctx transaction)
    rw [step_performTranscation, performTranscation]
    cases hsaved : stack.save (run stack ctx transaction) with
    | mk error saved =>
      rw [hsaved] at hsave
      cases error with
      | none => exact hclosure.trans hsave
      | some error => exact (hclosure.trans hsave).trans keepsHistory_rollback

/-- A run keeps the history from its start to its end. -/
theorem keepsHistory_run (ctx : Context Entity) (commands : List (Command Entity)) :
    KeepsHistory stack ctx (run stack ctx commands) := by
  match commands with
  | [] => exact .refl stack ctx
  | command :: commands =>
    rw [run_cons]
    exact (keepsHistory_step ctx command).trans
      (keepsHistory_run (step stack ctx command).2 commands)

end

/-! ### The moments of a run -/

variable (stack) in
mutual

/-- The contexts a command leads through; a transaction, those of its closure and the one that
    its save leaves. -/
def stepMoments : Context Entity → Command Entity → List (Context Entity)
  | ctx, .performTranscation transaction =>
    moments ctx transaction ++ [(stack.save (run stack ctx transaction)).2,
      (step stack ctx (.performTranscation transaction)).2]
  | ctx, .makeEntity => [(step stack ctx .makeEntity).2]
  | ctx, .edit model change => [(step stack ctx (.edit model change)).2]
  | ctx, .create model => [(step stack ctx (.create model)).2]
  | ctx, .createAll models => [(step stack ctx (.createAll models)).2]
  | ctx, .update model => [(step stack ctx (.update model)).2]
  | ctx, .delete model => [(step stack ctx (.delete model)).2]
  | ctx, .deleteList models => [(step stack ctx (.deleteList models)).2]
  | ctx, .deleteAll => [(step stack ctx .deleteAll).2]

/-- The contexts a sequence of commands leads through, from the first to the last. -/
def moments : Context Entity → List (Command Entity) → List (Context Entity)
  | ctx, [] => [ctx]
  | ctx, command :: commands =>
    ctx :: (stepMoments ctx command ++ moments (step stack ctx command).2 commands)

end

/-- The history is kept between any two of some contexts, which lead from one to another. -/
structure LeadsTo (stack : CoreDataStack Entity) (ctx : Context Entity)
    (contexts : List (Context Entity)) (ctx' : Context Entity) : Prop where
  start : ∀ between ∈ contexts, KeepsHistory stack ctx between
  ordered : contexts.Pairwise (KeepsHistory stack)
  finish : ∀ between ∈ contexts, KeepsHistory stack between ctx'

/-- One context, on the way. -/
theorem LeadsTo.singleton (h : KeepsHistory stack ctx ctx') (h' : KeepsHistory stack ctx' ctx'') :
    LeadsTo stack ctx [ctx'] ctx'' where
  start := List.forall_mem_singleton.mpr h
  ordered := List.pairwise_singleton _ _
  finish := List.forall_mem_singleton.mpr h'

/-- One way after the other. -/
theorem LeadsTo.append {contexts contexts' : List (Context Entity)}
    (h : LeadsTo stack ctx contexts ctx') (hall : KeepsHistory stack ctx ctx')
    (h' : LeadsTo stack ctx' contexts' ctx'') (hall' : KeepsHistory stack ctx' ctx'') :
    LeadsTo stack ctx (contexts ++ contexts') ctx'' where
  start := List.forall_mem_append.mpr
    ⟨h.start, fun between hbetween => hall.trans (h'.start between hbetween)⟩
  ordered := List.pairwise_append.mpr ⟨h.ordered, h'.ordered, fun a ha b hb =>
    (h.finish a ha).trans (h'.start b hb)⟩
  finish := List.forall_mem_append.mpr
    ⟨fun between hbetween => (h.finish between hbetween).trans hall', h'.finish⟩

mutual

/-- The contexts of a command lead to the one it leaves. -/
theorem leadsTo_step (ctx : Context Entity) (command : Command Entity) :
    LeadsTo stack ctx (stepMoments stack ctx command) (step stack ctx command).2 := by
  match command with
  | .performTranscation transaction =>
    have hclosure : KeepsHistory stack ctx (run stack ctx transaction) :=
      keepsHistory_run ctx transaction
    have hsave : KeepsHistory stack _ _ := keepsHistory_save (run stack ctx transaction)
    -- the save is the end, unless it fails and is rolled back
    have hend : KeepsHistory stack (stack.save (run stack ctx transaction)).2
        (step stack ctx (.performTranscation transaction)).2 := by
      rw [step_performTranscation, performTranscation]
      cases stack.save (run stack ctx transaction) with
      | mk error saved =>
        cases error with
        | none => exact .refl stack saved
        | some error => exact keepsHistory_rollback
    rw [stepMoments]
    exact (leadsTo_run ctx transaction).append hclosure
      ((LeadsTo.singleton hsave hend).append (hsave.trans hend)
        (.singleton (.refl stack _) (.refl stack _)) (.refl stack _)) (hsave.trans hend)
  | .makeEntity | .edit model change | .create model | .createAll models | .update model
  | .delete model | .deleteList models | .deleteAll =>
    rw [stepMoments]
    exact .singleton (keepsHistory_step ctx _) (.refl stack _)

/-- The contexts of a run lead to its end. -/
theorem leadsTo_run (ctx : Context Entity) (commands : List (Command Entity)) :
    LeadsTo stack ctx (moments stack ctx commands) (run stack ctx commands) := by
  match commands with
  | [] =>
    rw [moments]
    exact .singleton (.refl stack ctx) (.refl stack ctx)
  | command :: commands =>
    have hstep : KeepsHistory stack ctx (step stack ctx command).2 := keepsHistory_step ctx command
    have hrest : KeepsHistory stack (step stack ctx command).2
        (run stack (step stack ctx command).2 commands) :=
      keepsHistory_run (step stack ctx command).2 commands
    rw [moments, run_cons]
    exact (LeadsTo.singleton (.refl stack ctx) (.refl stack ctx)).append (.refl stack ctx)
      ((leadsTo_step ctx command).append hstep
        (leadsTo_run (step stack ctx command).2 commands) hrest) (hstep.trans hrest)

end

end History

/-- **Every run keeps the history of the objects** between any two of its moments, with its
    transactions, failures and rollbacks: those after its commands, and those inside its
    transactions. -/
theorem run_keepsHistory (stack : CoreDataStack Entity) (ctx : Context Entity)
    (before after : List (Command Entity)) :
    KeepsHistory stack (run stack ctx before) (run stack ctx (before ++ after)) ∧
      (moments stack ctx (before ++ after)).Pairwise (KeepsHistory stack) := by
  refine ⟨?_, (leadsTo_run ctx (before ++ after)).ordered⟩
  rw [run_append]
  exact keepsHistory_run (run stack ctx before) after

end CoreDataRepository

end QBRepository
