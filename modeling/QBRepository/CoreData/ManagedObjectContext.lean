import QBRepository.Lib.FreshMap

namespace QBRepository

/-!
# The managed object context

What the repository uses of Core Data: a context that holds the objects of one entity, each
with its state relative to the last save.

* `ManagedObject` — an object and its pending change; `Context` — the objects of a context;
* `Context.persisted`, `Context.visible` — the values in the store and the values a fetch
  finds, by object;
* `CoreDataStack.save` validates all pending changes and commits them together, or throws and
  leaves them pending; `Context.rollback` discards them.
-/

/-- Objects are known by the order of their creation. -/
abbrev ObjectID := Nat

/-- A pending change, as it is validated. -/
inductive Change (Entity : Type) where
  | insert (current : Entity)
  | update (committed current : Entity)
  | delete (committed : Entity)

/-- The change is a deletion. -/
def Change.IsDelete {Entity : Type} : Change Entity → Prop
  | .insert _ | .update _ _ => False
  | .delete _ => True

/-- An object of a context. -/
inductive ManagedObject (Entity : Type) where
  /-- made since the last save -/
  | inserted (current : Entity)
  /-- as in the store -/
  | saved (committed : Entity)
  /-- edited since the last save -/
  | updated (committed current : Entity)
  /-- marked as deleted, still in the store -/
  | deleted (committed : Entity)

/-- What `save` and `fetch` throw. -/
inductive ContextError where
  | validation (message : String)
  | store (code : Nat)
deriving DecidableEq

variable {Entity : Type}

namespace ManagedObject

/-- The value in the store. -/
def committed : ManagedObject Entity → Option Entity
  | .inserted _ => none
  | .saved committed | .updated committed _ | .deleted committed => some committed

/-- The value a fetch finds. -/
def current : ManagedObject Entity → Option Entity
  | .inserted current | .saved current | .updated _ current => some current
  | .deleted _ => none

/-- The change the next save commits. -/
def change : ManagedObject Entity → Option (Change Entity)
  | .inserted current => some (.insert current)
  | .saved _ => none
  | .updated committed current => some (.update committed current)
  | .deleted committed => some (.delete committed)

/-- Edit the properties of the object. -/
def edit (f : Entity → Entity) : ManagedObject Entity → Option (ManagedObject Entity)
  | .inserted current => some (.inserted (f current))
  | .saved committed => some (.updated committed (f committed))
  | .updated committed current => some (.updated committed (f current))
  | .deleted committed => some (.deleted committed)

/-- Mark the object as deleted; an object that was never saved is gone. -/
def delete : ManagedObject Entity → Option (ManagedObject Entity)
  | .inserted _ => none
  | .saved committed | .updated committed _ | .deleted committed => some (.deleted committed)

/-- Commit the change. -/
def save : ManagedObject Entity → Option (ManagedObject Entity)
  | .inserted current | .saved current | .updated _ current => some (.saved current)
  | .deleted _ => none

/-- Discard the change. -/
def rollback : ManagedObject Entity → Option (ManagedObject Entity)
  | .inserted _ => none
  | .saved committed | .updated committed _ | .deleted committed => some (.saved committed)

end ManagedObject

/-- A context; `calls` counts the requests to the store so far. -/
structure Context (Entity : Type) where
  objects : FreshMap (ManagedObject Entity)
  calls : Nat

/-- What a context runs on: the default values of the entity, its validation rules and the
    requests the store refuses. -/
structure CoreDataStack (Entity : Type) where
  defaults : Entity
  validate : Change Entity → Option String
  fault : Nat → Option Nat

namespace Context

variable (ctx : Context Entity)

/-- The value of an object in the store. -/
def persisted : ObjectID → Option Entity := ctx.objects.view ManagedObject.committed

/-- The value of an object as fetches see it. -/
def visible : ObjectID → Option Entity := ctx.objects.view ManagedObject.current

/-- The pending change of an object. -/
def pending : ObjectID → Option (Change Entity) := ctx.objects.view ManagedObject.change

/-- `insertNewObject` -/
def insertNewObject (current : Entity) : Context Entity :=
  { ctx with objects := ctx.objects.alloc (.inserted current) }

/-- Set properties of an object. -/
def edit (id : ObjectID) (f : Entity → Entity) : Context Entity :=
  { ctx with objects := ctx.objects.update id (ManagedObject.edit f) }

/-- `delete` -/
def delete (id : ObjectID) : Context Entity :=
  { ctx with objects := ctx.objects.update id ManagedObject.delete }

/-- `rollback` -/
def rollback : Context Entity :=
  { ctx with objects := ctx.objects.filterMap fun _ object => object.rollback }

/-- The pending changes are written to the store. -/
def commit : Context Entity :=
  { ctx with objects := ctx.objects.filterMap fun _ object => object.save }

/-- One more request to the store. -/
def tick : Context Entity := { ctx with calls := ctx.calls + 1 }

/-- The visible objects. -/
def fetched : List ObjectID := ctx.objects.keys.filter fun id => (ctx.visible id).isSome

/-- The pending changes. -/
def pendingChanges : List (Change Entity) := ctx.objects.keys.filterMap ctx.pending

/-- Nothing is pending: fetches see the store. -/
def Synced : Prop := ctx.visible = ctx.persisted

variable {ctx}

@[simp] theorem objects_tick : ctx.tick.objects = ctx.objects := rfl

@[simp] theorem persisted_tick : ctx.tick.persisted = ctx.persisted := rfl

@[simp] theorem visible_tick : ctx.tick.visible = ctx.visible := rfl

/-- What is visible is written. -/
theorem persisted_commit : ctx.commit.persisted = ctx.visible :=
  FreshMap.view_filterMap fun _ object => by cases object <;> rfl

/-- A commit changes nothing that is visible. -/
theorem visible_commit : ctx.commit.visible = ctx.visible :=
  FreshMap.view_filterMap fun _ object => by cases object <;> rfl

/-- A rollback does not touch the store. -/
theorem persisted_rollback : ctx.rollback.persisted = ctx.persisted :=
  FreshMap.view_filterMap fun _ object => by cases object <;> rfl

/-- After a rollback the stored values are visible. -/
theorem visible_rollback : ctx.rollback.visible = ctx.persisted :=
  FreshMap.view_filterMap fun _ object => by cases object <;> rfl

/-! ### Changing one object -/

/-- A new object is not in the store. -/
theorem persisted_insertNewObject (current : Entity) :
    (ctx.insertNewObject current).persisted = ctx.persisted := by
  have hfresh : ctx.persisted ctx.objects.next = none := by
    rw [persisted, FreshMap.view, ctx.objects.fresh _ (Nat.le_refl _), Option.bind_none]
  rw [persisted, insertNewObject, FreshMap.view_alloc]
  exact Function.update_eq_self_iff.mpr hfresh.symm

/-- A new object is visible. -/
theorem visible_insertNewObject (current : Entity) :
    (ctx.insertNewObject current).visible
      = Function.update ctx.visible ctx.objects.next (some current) :=
  FreshMap.view_alloc _

/-- An edit does not touch the store. -/
theorem persisted_edit (id : ObjectID) (f : Entity → Entity) :
    (ctx.edit id f).persisted = ctx.persisted :=
  FreshMap.view_update_eq fun object => by cases object <;> rfl

/-- The edited value is visible. -/
theorem visible_edit (id : ObjectID) (f : Entity → Entity) :
    (ctx.edit id f).visible = Function.update ctx.visible id ((ctx.visible id).map f) := by
  rw [Option.map_eq_bind]
  exact FreshMap.view_update fun object => by cases object <;> rfl

/-- A deletion does not touch the store. -/
theorem persisted_delete (id : ObjectID) : (ctx.delete id).persisted = ctx.persisted :=
  FreshMap.view_update_eq fun object => by cases object <;> rfl

/-- A deleted object is not visible. -/
theorem visible_delete (id : ObjectID) :
    (ctx.delete id).visible = Function.update ctx.visible id none := by
  rw [← Option.bind_fun_none (ctx.visible id)]
  exact FreshMap.view_update fun object => by cases object <;> rfl

/-- Editing or deleting an object leaves the others as they are. -/
theorem get_edit_of_ne {id model : ObjectID} (f : Entity → Entity) (h : id ≠ model) :
    (ctx.edit model f).objects.get id = ctx.objects.get id := by
  rw [edit, FreshMap.get_update, Function.update_of_ne h]

/-- The other objects stay as they are. -/
theorem get_delete_of_ne {id model : ObjectID} (h : id ≠ model) :
    (ctx.delete model).objects.get id = ctx.objects.get id := by
  rw [delete, FreshMap.get_update, Function.update_of_ne h]

/-! ### What is fetched and what is pending -/

/-- An object that is not visible has at most its deletion pending. -/
theorem isDelete_of_not_visible {id : ObjectID} (h : ctx.visible id = none)
    {change : Change Entity} (hchange : ctx.pending id = some change) : change.IsDelete := by
  obtain ⟨object, hobject, hobject'⟩ := FreshMap.get_of_view hchange
  rw [visible, FreshMap.view, hobject, Option.bind_some] at h
  cases object with
  | deleted committed =>
    obtain rfl := Option.some.inj hobject'
    trivial
  | inserted current => exact absurd h (Option.some_ne_none current)
  | saved committed => exact absurd h (Option.some_ne_none committed)
  | updated committed current => exact absurd h (Option.some_ne_none current)

/-- An object with another change than its deletion pending is visible. -/
theorem visible_of_pending {id : ObjectID} {change : Change Entity}
    (hchange : ctx.pending id = some change) (h : ¬ change.IsDelete) : ctx.visible id ≠ none :=
  fun hnone => h (isDelete_of_not_visible hnone hchange)

/-- A fetch finds the visible objects. -/
theorem mem_fetched {id : ObjectID} : id ∈ ctx.fetched ↔ ctx.visible id ≠ none := by
  simp only [fetched, List.mem_filter, Option.isSome_iff_ne_none, and_iff_right_iff_imp]
  intro hid
  obtain ⟨current, hcurrent⟩ := Option.ne_none_iff_exists'.mp hid
  exact FreshMap.mem_keys_of_view hcurrent

/-- The changes of a context are those of its objects. -/
theorem mem_pendingChanges {change : Change Entity} :
    change ∈ ctx.pendingChanges ↔ ∃ id, ctx.pending id = some change := by
  simp only [pendingChanges, List.mem_filterMap]
  exact exists_congr fun id => and_iff_right_of_imp FreshMap.mem_keys_of_view

end Context

namespace CoreDataStack

variable (stack : CoreDataStack Entity)

/-- The first pending change that violates its rules, with its message. -/
def firstViolation (ctx : Context Entity) : Option String :=
  ctx.pendingChanges.findSome? stack.validate

/-- `save` validates the pending changes and writes all of them, or throws and leaves them
    pending. -/
def save (ctx : Context Entity) : Option ContextError × Context Entity :=
  match stack.fault ctx.calls with
  | some code => (some (.store code), ctx.tick)
  | none =>
    match stack.firstViolation ctx with
    | some message => (some (.validation message), ctx.tick)
    | none => (none, ctx.commit.tick)

/-- The store takes the next request, and all pending changes are valid. -/
def Accepts (ctx : Context Entity) : Prop :=
  stack.fault ctx.calls = none ∧
    ∀ id change, ctx.pending id = some change → stack.validate change = none

/-- `fetch` -/
def fetch (ctx : Context Entity) : Except ContextError (List ObjectID) × Context Entity :=
  match stack.fault ctx.calls with
  | some code => (.error (.store code), ctx.tick)
  | none => (.ok ctx.fetched, ctx.tick)

variable {stack} {ctx : Context Entity}

/-- No change violates the validation rules. -/
theorem firstViolation_eq_none : stack.firstViolation ctx = none ↔
    ∀ id change, ctx.pending id = some change → stack.validate change = none := by
  rw [firstViolation, List.findSome?_eq_none_iff]
  constructor
  · intro h id change hchange
    exact h change (Context.mem_pendingChanges.mpr ⟨id, hchange⟩)
  · intro h change hchange
    obtain ⟨id, hid⟩ := Context.mem_pendingChanges.mp hchange
    exact h id change hid

/-- What a save does: it throws and the objects stay as they are, or everything is written. -/
theorem save_cases (stack : CoreDataStack Entity) (ctx : Context Entity) :
    (∃ error, stack.save ctx = (some error, ctx.tick)) ∨
      stack.save ctx = (none, ctx.commit.tick) := by
  unfold save
  cases stack.fault ctx.calls with
  | some code => exact Or.inl ⟨.store code, rfl⟩
  | none =>
    cases stack.firstViolation ctx with
    | some message => exact Or.inl ⟨.validation message, rfl⟩
    | none => exact Or.inr rfl

/-- A fetch throws, or finds the visible objects. -/
theorem fetch_cases (stack : CoreDataStack Entity) (ctx : Context Entity) :
    (∃ error, stack.fetch ctx = (.error error, ctx.tick)) ∨
      stack.fetch ctx = (.ok ctx.fetched, ctx.tick) := by
  unfold fetch
  cases stack.fault ctx.calls with
  | some code => exact Or.inl ⟨.store code, rfl⟩
  | none => exact Or.inr rfl

/-- A save succeeds exactly if the store accepts the context. -/
theorem save_eq_none_iff : (stack.save ctx).1 = none ↔ stack.Accepts ctx := by
  rw [Accepts, ← firstViolation_eq_none, save]
  cases stack.fault ctx.calls with
  | some code => simp
  | none =>
    cases stack.firstViolation ctx with
    | some message => simp
    | none => simp

/-- A save changes nothing that is visible, whether it succeeds or not. -/
theorem visible_save : (stack.save ctx).2.visible = ctx.visible := by
  rcases stack.save_cases ctx with ⟨error, h⟩ | h
  · rw [h, Context.visible_tick]
  · rw [h, Context.visible_tick, Context.visible_commit]

/-- A successful save leaves nothing pending. -/
theorem synced_of_save (h : (stack.save ctx).1 = none) : (stack.save ctx).2.Synced := by
  rcases stack.save_cases ctx with ⟨error, hsave⟩ | hsave
  · rw [hsave] at h
    exact absurd h (Option.some_ne_none error)
  · rw [hsave, Context.Synced, Context.visible_tick, Context.persisted_tick,
      Context.visible_commit, Context.persisted_commit]

end CoreDataStack

end QBRepository
