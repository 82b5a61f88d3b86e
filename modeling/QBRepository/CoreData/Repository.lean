import QBRepository.CoreData.ManagedObjectContext
import QBRepository.RepositoryEditResult

namespace QBRepository

/-!
# `CoreDataRepository`

The repository over one context.  `create` and `update` only save, `delete` only marks, and
`performTranscation` runs its closure, saves, and rolls back if the save throws.

* `Command` — a call on the repository or an edit of an entity; a transaction holds the
  commands of its closure;
* `step` — the error a command reports, if any, and the context it leaves; `run` — a sequence
  of commands;
* `transactions` — the transactions a run performs, at any depth, each with the context it was
  called in.
-/

variable {Entity : Type}

namespace CoreDataRepository

variable (stack : CoreDataStack Entity)

/-! ### The operations -/

def makeEntity (ctx : Context Entity) : ObjectID × Context Entity :=
  (ctx.objects.next, ctx.insertNewObject stack.defaults)

def getAll (ctx : Context Entity) : List ObjectID × Context Entity :=
  match stack.fetch ctx with
  | (.ok results, ctx) => (results, ctx)
  | (.error _, ctx) => ([], ctx)

/-- Save, and report the argument back; `create` on one or several models and `update`. -/
def saving {Model : Type} (model : Model) (ctx : Context Entity) :
    RepositoryEditResult ContextError Model × Context Entity :=
  match stack.save ctx with
  | (none, ctx) => (.success model, ctx)
  | (some error, ctx) => (.error error, ctx)

def create (model : ObjectID) (ctx : Context Entity) :
    RepositoryEditResult ContextError ObjectID × Context Entity :=
  saving stack model ctx

def createAll (models : List ObjectID) (ctx : Context Entity) :
    RepositoryEditResult ContextError (List ObjectID) × Context Entity :=
  saving stack models ctx

def update (model : ObjectID) (ctx : Context Entity) :
    RepositoryEditResult ContextError ObjectID × Context Entity :=
  saving stack model ctx

def delete (model : ObjectID) (ctx : Context Entity) : Option ContextError × Context Entity :=
  (none, ctx.delete model)

def deleteList (models : List ObjectID) (ctx : Context Entity) :
    Option ContextError × Context Entity :=
  (none, models.foldl Context.delete ctx)

def deleteAll (ctx : Context Entity) : Option ContextError × Context Entity :=
  match stack.fetch ctx with
  | (.ok results, ctx) => deleteList results ctx
  | (.error error, ctx) => (some error, ctx)

def performTranscation (transaction : Context Entity → Context Entity) (ctx : Context Entity) :
    Option ContextError × Context Entity :=
  match stack.save (transaction ctx) with
  | (none, ctx) => (none, ctx)
  | (some error, ctx) => (some error, ctx.rollback)

/-- The error of an edit result. -/
def errorOf {Model : Type} : RepositoryEditResult ContextError Model → Option ContextError
  | .success _ => none
  | .error error => some error

end CoreDataRepository

/-! ### Commands -/

/-- A call on the repository, or an edit of an entity. -/
inductive Command (Entity : Type) where
  | makeEntity
  | edit (model : ObjectID) (change : Entity → Entity)
  | create (model : ObjectID)
  | createAll (models : List ObjectID)
  | update (model : ObjectID)
  | delete (model : ObjectID)
  | deleteList (models : List ObjectID)
  | deleteAll
  | performTranscation (transaction : List (Command Entity))

namespace CoreDataRepository

variable (stack : CoreDataStack Entity)

mutual

/-- The error a command reports and the context it leaves. -/
def step : Context Entity → Command Entity → Option ContextError × Context Entity
  | ctx, .makeEntity => (none, (makeEntity stack ctx).2)
  | ctx, .edit model change => (none, ctx.edit model change)
  | ctx, .create model => (errorOf (create stack model ctx).1, (create stack model ctx).2)
  | ctx, .createAll models =>
    (errorOf (createAll stack models ctx).1, (createAll stack models ctx).2)
  | ctx, .update model => (errorOf (update stack model ctx).1, (update stack model ctx).2)
  | ctx, .delete model => delete model ctx
  | ctx, .deleteList models => deleteList models ctx
  | ctx, .deleteAll => deleteAll stack ctx
  | ctx, .performTranscation transaction =>
    performTranscation stack (fun ctx => run ctx transaction) ctx

/-- The context a sequence of commands leaves. -/
def run : Context Entity → List (Command Entity) → Context Entity
  | ctx, [] => ctx
  | ctx, command :: commands => run (step ctx command).2 commands

end

mutual

/-- The transactions a command performs, each with the context it is called in. -/
def stepTransactions : Context Entity → Command Entity →
    List (Context Entity × List (Command Entity))
  | ctx, .performTranscation transaction => (ctx, transaction) :: transactions ctx transaction
  | _, .makeEntity | _, .edit _ _ | _, .create _ | _, .createAll _ | _, .update _
  | _, .delete _ | _, .deleteList _ | _, .deleteAll => []

/-- The transactions a sequence of commands performs. -/
def transactions : Context Entity → List (Command Entity) →
    List (Context Entity × List (Command Entity))
  | _, [] => []
  | ctx, command :: commands =>
    stepTransactions ctx command ++ transactions (step stack ctx command).2 commands

end

/-! ### What the commands do -/

section Steps

variable {stack} {ctx : Context Entity}

/-- A method that saves reports what the save reports. -/
theorem saving_eq {Model : Type} (model : Model) (ctx : Context Entity) :
    (errorOf (saving stack model ctx).1, (saving stack model ctx).2) = stack.save ctx := by
  unfold saving
  rcases stack.save_cases ctx with ⟨error, h⟩ | h <;> rw [h] <;> rfl

/-- The model is in the context already, and is only saved. -/
@[simp] theorem step_create (model : ObjectID) :
    step stack ctx (.create model) = stack.save ctx := saving_eq model ctx

/-- So are the models of a list. -/
@[simp] theorem step_createAll (models : List ObjectID) :
    step stack ctx (.createAll models) = stack.save ctx := saving_eq models ctx

/-- An update only saves. -/
@[simp] theorem step_update (model : ObjectID) :
    step stack ctx (.update model) = stack.save ctx := saving_eq model ctx

@[simp] theorem step_performTranscation (transaction : List (Command Entity)) :
    step stack ctx (.performTranscation transaction)
      = performTranscation stack (fun ctx => run stack ctx transaction) ctx := rfl

@[simp] theorem run_nil : run stack ctx [] = ctx := rfl

@[simp] theorem run_cons (command : Command Entity) (commands : List (Command Entity)) :
    run stack ctx (command :: commands) = run stack (step stack ctx command).2 commands := rfl

/-- Commands one after the other. -/
theorem run_append (commands commands' : List (Command Entity)) :
    run stack ctx (commands ++ commands') = run stack (run stack ctx commands) commands' := by
  induction commands generalizing ctx with
  | nil => rfl
  | cons command commands ih => exact ih

/-- Deletions do not touch the store. -/
theorem persisted_deleteList (ctx : Context Entity) (models : List ObjectID) :
    (models.foldl Context.delete ctx).persisted = ctx.persisted := by
  induction models generalizing ctx with
  | nil => rfl
  | cons model models ih => rw [List.foldl_cons, ih, Context.persisted_delete]

/-- The deleted models are no longer visible. -/
theorem visible_deleteList (ctx : Context Entity) (models : List ObjectID) (id : ObjectID) :
    (models.foldl Context.delete ctx).visible id
      = if id ∈ models then none else ctx.visible id := by
  induction models generalizing ctx with
  | nil => simp
  | cons model models ih =>
    rw [List.foldl_cons, ih, Context.visible_delete]
    by_cases hid : id = model
    · simp [hid]
    · simp [hid]

/-- `deleteAll` fails to fetch and changes nothing, or deletes every visible object. -/
theorem deleteAll_cases (stack : CoreDataStack Entity) (ctx : Context Entity) :
    (∃ error, deleteAll stack ctx = (some error, ctx.tick)) ∨
      deleteAll stack ctx = (none, ctx.fetched.foldl Context.delete ctx.tick) := by
  unfold deleteAll
  rcases stack.fetch_cases ctx with ⟨error, h⟩ | h
  · exact Or.inl ⟨error, by rw [h]⟩
  · exact Or.inr (by rw [h]; rfl)

/-- A transaction throws and is rolled back to what its closure has left in the store, or what
    its closure has left visible is written. -/
theorem performTranscation_cases (stack : CoreDataStack Entity)
    (transaction : Context Entity → Context Entity) (ctx : Context Entity) :
    (∃ error, performTranscation stack transaction ctx
        = (some error, (transaction ctx).tick.rollback)) ∨
      performTranscation stack transaction ctx = (none, (transaction ctx).commit.tick) := by
  unfold performTranscation
  rcases stack.save_cases (transaction ctx) with ⟨error, h⟩ | h
  · exact Or.inl ⟨error, by rw [h]⟩
  · exact Or.inr (by rw [h])

end Steps

end CoreDataRepository

end QBRepository
