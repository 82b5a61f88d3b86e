import QBRepository.CoreData.Success

namespace QBRepository

/-!
# What a rejected entity does to `CoreDataRepository`

A save that rejects an entity leaves it in the context, and every later save validates it
again.

* `Rejected` — an insertion or an update is pending that violates the rules;
* `save_fails_of_rejected` — until the entity is edited or deleted, no save succeeds;
* `recovers_iff_deleted` — after a rejected `create` or `update`, a later one of a valid entity
  succeeds with the rejected entity out of the way exactly if that was deleted in between and
  no other invalid change is pending.
-/

variable {Entity : Type}

namespace CoreDataRepository

variable (stack : CoreDataStack Entity)

/-- The entity has an invalid insertion or update pending. -/
def Rejected (ctx : Context Entity) (entity : ObjectID) : Prop :=
  ∃ change, ctx.pending entity = some change ∧ ¬ change.IsDelete ∧ stack.validate change ≠ none

/-- The command is a transaction. -/
def IsTransaction : Command Entity → Prop
  | .performTranscation _ => True
  | .makeEntity | .edit _ _ | .create _ | .createAll _ | .update _ | .delete _ | .deleteList _
  | .deleteAll => False

/-- The command is a `create` or `update` called for the entity. -/
def StoresEntity (entity : ObjectID) : Command Entity → Prop
  | .create model | .update model => model = entity
  | .createAll models => entity ∈ models
  | .makeEntity | .edit _ _ | .delete _ | .deleteList _ | .deleteAll
  | .performTranscation _ => False

/-- The models some command of a run deletes. -/
def deletedDuring : Context Entity → List (Command Entity) → List ObjectID
  | _, [] => []
  | ctx, command :: commands =>
    deletedModels stack ctx command ++ deletedDuring (step stack ctx command).2 commands

variable {stack} {ctx : Context Entity} {command : Command Entity}
  {commands : List (Command Entity)} {id : ObjectID}

/-- `create` and `update` save, whatever they are called for. -/
theorem step_of_storesEntity (hcommand : StoresEntity id command) :
    step stack ctx command = stack.save ctx := by
  cases command with
  | create model => exact step_create model
  | createAll models => exact step_createAll models
  | update model => exact step_update model
  | makeEntity => exact hcommand.elim
  | edit model change => exact hcommand.elim
  | delete model => exact hcommand.elim
  | deleteList models => exact hcommand.elim
  | deleteAll => exact hcommand.elim
  | performTranscation transaction => exact hcommand.elim

/-- Deleting gives no number to an object. -/
theorem next_deleteList (ctx : Context Entity) (models : List ObjectID) :
    (models.foldl Context.delete ctx).objects.next = ctx.objects.next := by
  induction models generalizing ctx with
  | nil => rfl
  | cons model models ih => rw [List.foldl_cons, ih]; rfl

/-- Neither does saving. -/
theorem next_save : (stack.save ctx).2.objects.next = ctx.objects.next := by
  rcases stack.save_cases ctx with ⟨error, h⟩ | h <;> rw [h] <;> rfl

/-- Objects are never forgotten by number. -/
theorem next_le_step (hcommand : ¬ IsTransaction command) :
    ctx.objects.next ≤ (step stack ctx command).2.objects.next := by
  cases command with
  | makeEntity => exact Nat.le_succ _
  | edit model change => exact Nat.le_refl _
  | create model => rw [step_create, next_save]
  | createAll models => rw [step_createAll, next_save]
  | update model => rw [step_update, next_save]
  | delete model => exact Nat.le_refl _
  | deleteList models => exact (next_deleteList ctx models).ge
  | deleteAll =>
    show _ ≤ (deleteAll stack ctx).2.objects.next
    rcases deleteAll_cases stack ctx with ⟨error, h⟩ | h
    · rw [h]
      exact Nat.le_refl _
    · rw [h]
      exact (next_deleteList ctx.tick ctx.fetched).ge
  | performTranscation transaction => exact absurd trivial hcommand

/-- One command hides an object exactly if it deletes it. -/
theorem visible_step_eq_none (hcommand : ¬ IsTransaction command) (hid : id < ctx.objects.next) :
    (step stack ctx command).2.visible id = none ↔
      ctx.visible id = none ∨ id ∈ deletedModels stack ctx command := by
  -- a save hides nothing
  have hsave : (stack.save ctx).2.visible id = none ↔ ctx.visible id = none ∨ id ∈ [] := by
    rw [CoreDataStack.visible_save]
    simp
  have hdeletes : Deletes command → ((step stack ctx command).2.visible id = none ↔
      ctx.visible id = none ∨ id ∈ deletedModels stack ctx command) := by
    intro h
    rw [(deletes_spec stack ctx h).2 id]
    by_cases hmem : id ∈ deletedModels stack ctx command
    · simp [hmem]
    · simp [hmem]
  cases command with
  | makeEntity =>
    show (ctx.insertNewObject stack.defaults).visible id = none ↔ _ ∨ id ∈ []
    rw [Context.visible_insertNewObject, Function.update_of_ne (Nat.ne_of_lt hid)]
    simp
  | edit model change =>
    show (ctx.edit model change).visible id = none ↔ _ ∨ id ∈ []
    rw [Context.visible_edit]
    by_cases hmodel : id = model
    · subst hmodel
      simp
    · simp [hmodel]
  | create model => rw [step_create]; exact hsave
  | createAll models => rw [step_createAll]; exact hsave
  | update model => rw [step_update]; exact hsave
  | delete model => exact hdeletes trivial
  | deleteList models => exact hdeletes trivial
  | deleteAll => exact hdeletes trivial
  | performTranscation transaction => exact absurd trivial hcommand

/-- An object is hidden after a run exactly if it was before or is deleted during it. -/
theorem visible_run_eq_none (hcommands : ∀ c ∈ commands, ¬ IsTransaction c)
    (hid : id < ctx.objects.next) :
    (run stack ctx commands).visible id = none ↔
      ctx.visible id = none ∨ id ∈ deletedDuring stack ctx commands := by
  induction commands generalizing ctx with
  | nil => simp [deletedDuring]
  | cons command commands ih =>
    have hcommand := hcommands command List.mem_cons_self
    rw [run_cons, ih (fun c hc => hcommands c (List.mem_cons_of_mem _ hc))
      (Nat.lt_of_lt_of_le hid (next_le_step hcommand)), visible_step_eq_none hcommand hid,
      deletedDuring, List.mem_append, or_assoc]

/-! ### A rejected entity blocks every save -/

/-- An object that is not in the list is not deleted. -/
theorem get_deleteList_of_not_mem {models : List ObjectID} (h : id ∉ models) :
    (models.foldl Context.delete ctx).objects.get id = ctx.objects.get id := by
  induction models generalizing ctx with
  | nil => rfl
  | cons model models ih =>
    rw [List.mem_cons, not_or] at h
    rw [List.foldl_cons, ih h.2, Context.get_delete_of_ne h.1]

/-- A save does not succeed while an invalid change is pending. -/
theorem save_ne_none_of_rejected (h : Rejected stack ctx id) : (stack.save ctx).1 ≠ none := by
  obtain ⟨change, hchange, _, hinvalid⟩ := h
  exact fun hsave => hinvalid ((CoreDataStack.save_eq_none_iff.mp hsave).2 id change hchange)

/-- A command that does not edit or delete a rejected entity leaves it as it is. -/
theorem get_step_of_rejected (h : Rejected stack ctx id) (hcommand : ¬ IsTransaction command)
    (hedit : ∀ change, command ≠ .edit id change)
    (hdelete : id ∉ deletedModels stack ctx command) :
    (step stack ctx command).2.objects.get id = ctx.objects.get id := by
  have hsave : (stack.save ctx).2.objects.get id = ctx.objects.get id := by
    rcases stack.save_cases ctx with ⟨error, hsave⟩ | hsave
    · rw [hsave, Context.objects_tick]
    · exact absurd (by rw [hsave]) (save_ne_none_of_rejected h)
  cases command with
  | makeEntity =>
    obtain ⟨change, hchange, _⟩ := h
    obtain ⟨object, hobject, _⟩ := FreshMap.get_of_view hchange
    exact FreshMap.get_alloc_of_ne _ _ (Nat.ne_of_lt (ctx.objects.lt_next_of_get hobject))
  | edit model change =>
    refine Context.get_edit_of_ne change fun hmodel => ?_
    exact hedit change (by rw [hmodel])
  | create model => rw [step_create]; exact hsave
  | createAll models => rw [step_createAll]; exact hsave
  | update model => rw [step_update]; exact hsave
  | delete model => exact Context.get_delete_of_ne (mt List.mem_singleton.mpr hdelete)
  | deleteList models => exact get_deleteList_of_not_mem hdelete
  | deleteAll =>
    rcases stack.fetch_cases ctx with ⟨error, hfetch⟩ | hfetch
    · simp only [step, deleteAll, hfetch, Context.objects_tick]
    · -- a fetch that succeeds finds the entity, so it would be deleted
      obtain ⟨change, hchange, hkind, _⟩ := h
      have hmem : id ∈ ctx.fetched :=
        Context.mem_fetched.mpr (Context.visible_of_pending hchange hkind)
      exact absurd (by rw [deletedModels, hfetch]; exact hmem) hdelete
  | performTranscation transaction => exact absurd trivial hcommand

/-- **A rejected entity blocks the context**: as long as it is neither edited nor deleted, every
    `create` and `update` fails, whatever it is called for. -/
theorem save_fails_of_rejected (h : Rejected stack ctx id)
    (hcommands : ∀ c ∈ commands, ¬ IsTransaction c ∧ ∀ change, c ≠ .edit id change)
    (hdelete : id ∉ deletedDuring stack ctx commands) :
    (stack.save (run stack ctx commands)).1 ≠ none := by
  induction commands generalizing ctx with
  | nil => exact save_ne_none_of_rejected h
  | cons command commands ih =>
    obtain ⟨hcommand, hedit⟩ := hcommands command List.mem_cons_self
    rw [deletedDuring, List.mem_append, not_or] at hdelete
    have hget := get_step_of_rejected h hcommand hedit hdelete.1
    refine ih ?_ (fun c hc => hcommands c (List.mem_cons_of_mem _ hc)) hdelete.2
    obtain ⟨change, hchange, hrest⟩ := h
    refine ⟨change, ?_, hrest⟩
    rw [Context.pending, FreshMap.view, hget]
    exact hchange

/-! ### Recovery -/

/-- The entity is as it should be to be stored: visible, with no invalid change pending. -/
def IsValid (stack : CoreDataStack Entity) (ctx : Context Entity) (entity : ObjectID) : Prop :=
  ctx.visible entity ≠ none ∧
    ∀ change, ctx.pending entity = some change → stack.validate change = none

/-- No invalid change is pending but for an insertion or an update of `rejected`. -/
def OthersValid (stack : CoreDataStack Entity) (ctx : Context Entity) (rejected : ObjectID) :
    Prop :=
  ∀ id change, ctx.pending id = some change → id ≠ rejected ∨ change.IsDelete →
    stack.validate change = none

/-- A `create` or `update` of `entity` succeeds, its value is stored, and `rejected` is not
    among all objects. -/
def Recovers (stack : CoreDataStack Entity) (ctx : Context Entity) (command : Command Entity)
    (entity rejected : ObjectID) : Prop :=
  (step stack ctx command).1 = none ∧
    (ctx.visible entity ≠ none ∧
      (step stack ctx command).2.persisted entity = ctx.visible entity) ∧
    (step stack ctx command).2.visible rejected = none

/-- **Recovery.** `create` or `update` of `e` fails because `e` is invalid; a later `create` or
    `update` of a valid `f` recovers exactly if `e` was deleted in between and no other invalid
    change is pending. -/
theorem recovers_iff_deleted (hq : ∀ n, stack.fault n = none)
    (before between : List (Command Entity)) {e f : ObjectID} (first last : Command Entity)
    (hfirst : StoresEntity e first) (hlast : StoresEntity f last)
    (hrejected : Rejected stack (run stack ctx before) e)
    (hbetween : ∀ c ∈ between, ¬ IsTransaction c)
    (hvalid : IsValid stack (run stack ctx (before ++ first :: between)) f) :
    (step stack (run stack ctx before) first).1 ≠ none ∧
      (Recovers stack (run stack ctx (before ++ first :: between)) last f e ↔
        e ∈ deletedDuring stack (step stack (run stack ctx before) first).2 between ∧
          OthersValid stack (run stack ctx (before ++ first :: between)) e) := by
  have hfirst : step stack (run stack ctx before) first = stack.save (run stack ctx before) :=
    step_of_storesEntity hfirst
  refine ⟨by rw [hfirst]; exact save_ne_none_of_rejected hrejected, ?_⟩
  -- the rejected entity is visible until it is deleted
  obtain ⟨change, hchange, hkind, _⟩ := hrejected
  obtain ⟨object, hobject, _⟩ := FreshMap.get_of_view hchange
  have hvisible := Context.visible_of_pending hchange hkind
  have hgone : (run stack ctx (before ++ first :: between)).visible e = none ↔
      e ∈ deletedDuring stack (step stack (run stack ctx before) first).2 between := by
    rw [run_append, run_cons, visible_run_eq_none hbetween, hfirst, CoreDataStack.visible_save,
      or_iff_right hvisible]
    rw [hfirst, next_save]
    exact FreshMap.lt_next_of_get _ hobject
  rw [← hgone, Recovers, step_of_storesEntity hlast, CoreDataStack.visible_save]
  constructor
  · rintro ⟨hsave, _, hnone⟩
    exact ⟨hnone, fun i change hchange _ =>
      (CoreDataStack.save_eq_none_iff.mp hsave).2 i change hchange⟩
  · rintro ⟨hnone, hothers⟩
    have hsave : (stack.save (run stack ctx (before ++ first :: between))).1 = none := by
      refine CoreDataStack.save_eq_none_iff.mpr ⟨hq _, fun i change hchange => ?_⟩
      by_cases hi : i = e
      · rw [hi] at hchange
        exact hothers e change hchange (Or.inr (Context.isDelete_of_not_visible hnone hchange))
      · exact hothers i change hchange (Or.inl hi)
    -- the save succeeds, so the store holds what is visible
    rw [← CoreDataStack.synced_of_save hsave, CoreDataStack.visible_save]
    exact ⟨hsave, ⟨hvalid.1, rfl⟩, hnone⟩

/-- The rejected zero is deleted, and seven is stored. -/
theorem recovers_nonzero :
    Recovers Sample.nonzero (run Sample.nonzero Sample.emptyContext
      [.makeEntity, .create 0, .delete 0, .makeEntity, .edit 1 fun _ => 7]) (.create 1) 1 0 := by
  refine (recovers_iff_deleted (fun _ => rfl) [.makeEntity]
    [.delete 0, .makeEntity, .edit 1 fun _ => 7] (.create 0) (.create 1)
    rfl rfl ?_ ?_ ?_).2.mpr ⟨?_, ?_⟩
  · exact ⟨.insert 0, rfl, fun h => h, Option.some_ne_none _⟩
  · simp [IsTransaction]
  · exact ⟨Option.some_ne_none 7, (CoreDataStack.save_eq_none_iff.mp rfl).2 1⟩
  · exact List.mem_cons_self
  · exact fun i change hchange _ => (CoreDataStack.save_eq_none_iff.mp rfl).2 i change hchange

/-- Zero is rejected and stays in the context: seven, made afterwards, is not stored. -/
theorem not_recovers_nonzero :
    ¬ ∀ (before between : List (Command Nat)) (e f : ObjectID) (first last : Command Nat),
      StoresEntity e first → StoresEntity f last →
      Rejected Sample.nonzero (run Sample.nonzero Sample.emptyContext before) e →
      (∀ c ∈ between, ¬ IsTransaction c) →
      IsValid Sample.nonzero
        (run Sample.nonzero Sample.emptyContext (before ++ first :: between)) f →
      OthersValid Sample.nonzero
        (run Sample.nonzero Sample.emptyContext (before ++ first :: between)) e →
      Recovers Sample.nonzero
        (run Sample.nonzero Sample.emptyContext (before ++ first :: between)) last f e := by
  intro h
  have hrecovers := h [.makeEntity] [.makeEntity, .edit 1 fun _ => 7] 0 1 (.create 0) (.create 1)
    rfl rfl ⟨.insert 0, rfl, fun h => h, Option.some_ne_none _⟩
    (by simp [IsTransaction]) ⟨Option.some_ne_none 7, ?_⟩ ?_
  · exact absurd hrecovers.1 (Option.some_ne_none _)
  · rintro change hchange
    obtain rfl := Option.some.inj hchange
    rfl
  -- objects `0` and `1` are all there are, and `0` is the rejected one
  · intro id change hchange hid
    obtain ⟨object, hobject, _⟩ := FreshMap.get_of_view hchange
    have hlt : id < 2 := FreshMap.lt_next_of_get _ hobject
    match id with
    | 0 =>
      obtain rfl := Option.some.inj hchange
      simp [Change.IsDelete] at hid
    | 1 =>
      obtain rfl := Option.some.inj hchange
      rfl

end CoreDataRepository

end QBRepository
