import QBRepository.FileSystem.Repository

namespace QBRepository

open IdentifiableCodable renaming id → idOf

/-!
# Finite sequences of `FileSystemRepository` calls

* `Op` is a mutating call with its argument, `step` the file system it leaves (the result is
  dropped), `run` a finite sequence of calls within one execution of the program.
* `Live` is the purpose of the repository: the map from each id to the model most recently
  stored under it; `Op.apply` is what a call does to that map.
* `run_simulates` — the batch overloads are folds of the single ones (`step_createAll`,
  `step_deleteList`), so what `create`, `delete` and `deleteAll` preserve, every run does.
-/

/-- A mutating call on the repository. -/
inductive Op (Model : Type) where
  | create (model : Model)
  | createAll (models : List Model)
  | update (model : Model)
  | delete (model : Model)
  | deleteList (models : List Model)
  | deleteAll

/-- The models passed to a call. -/
def Op.models {Model : Type} : Op Model → List Model
  | .create model | .update model | .delete model => [model]
  | .createAll models | .deleteList models => models
  | .deleteAll => []

/-- The live models by id. -/
abbrev Live (Id Model : Type) := Id → Option Model

variable {Id Model Data : Type} [IdentifiableCodable Model Id]

/-- The models passed to some call of a sequence. -/
def modelsUsed (ops : List (Op Model)) : Set Model := {model | ∃ op ∈ ops, model ∈ op.models}

/-- The ids used by a sequence of calls. -/
def idsUsed (ops : List (Op Model)) : Set Id := idOf '' modelsUsed ops

/-- Models are used by the first operation or by a later one. -/
theorem modelsUsed_cons (op : Op Model) (ops : List (Op Model)) {model : Model} :
    model ∈ modelsUsed (op :: ops) ↔ model ∈ op.models ∨ model ∈ modelsUsed ops := by
  simp [modelsUsed]

section Live

variable [DecidableEq Id]

/-- `model` is stored under its id. -/
def Live.store (live : Live Id Model) (model : Model) : Live Id Model :=
  Function.update live (idOf model) (some model)

/-- The id of `model` is forgotten. -/
def Live.forget (live : Live Id Model) (model : Model) : Live Id Model :=
  Function.update live (idOf model) none

/-- What a call is meant to do to the live models. -/
def Op.apply (live : Live Id Model) : Op Model → Live Id Model
  | .create model | .update model => live.store model
  | .createAll models => models.foldl Live.store live
  | .delete model => live.forget model
  | .deleteList models => models.foldl Live.forget live
  | .deleteAll => fun _ => none

/-- The live models after a sequence of calls. -/
def liveAfter (live : Live Id Model) (ops : List (Op Model)) : Live Id Model :=
  ops.foldl Op.apply live

/-- Nothing is stored or removed. -/
@[simp] theorem liveAfter_nil (live : Live Id Model) : liveAfter live [] = live := rfl

/-- The first operation is applied first. -/
@[simp] theorem liveAfter_cons (live : Live Id Model) (op : Op Model) (ops : List (Op Model)) :
    liveAfter live (op :: ops) = liveAfter (op.apply live) ops := rfl

end Live

namespace FileSystemRepository

variable (repo : FileSystemRepository Model Data) (env : Environment Id)

/-- The file system after one call. -/
def step (fm : FileManager Data) : Op Model → FileManager Data
  | .create model => ((repo.create env model).run fm).2
  | .createAll models => ((repo.createAll env models).run fm).2
  | .update model => ((repo.update env model).run fm).2
  | .delete model => ((repo.delete env model).run fm).2
  | .deleteList models => ((repo.deleteList env models).run fm).2
  | .deleteAll => ((repo.deleteAll env).run fm).2

/-- The file system after a sequence of calls. -/
def run (fm : FileManager Data) (ops : List (Op Model)) : FileManager Data :=
  ops.foldl (repo.step env) fm

/-- No operations. -/
@[simp] theorem run_nil (fm : FileManager Data) : repo.run env fm [] = fm := rfl

/-- The first operation, and then the others. -/
@[simp] theorem run_cons (fm : FileManager Data) (op : Op Model) (ops : List (Op Model)) :
    repo.run env fm (op :: ops) = repo.run env (repo.step env fm op) ops := rfl

/-- The state `mapM` threads through a list of state computations is the fold of theirs. -/
theorem run_mapM_snd {σ α β : Type} (f : α → StateM σ β) (xs : List α) (s : σ) :
    ((xs.mapM f).run s).2 = xs.foldl (fun s x => ((f x).run s).2) s := by
  induction xs generalizing s with
  | nil => rfl
  | cons x xs ih =>
    rw [List.mapM_cons, List.foldl_cons, ← ih]
    rfl

/-- `create(_ models:)` leaves what creating the models one after another leaves. -/
theorem step_createAll (fm : FileManager Data) (models : List Model) :
    repo.step env fm (.createAll models)
      = models.foldl (fun fm model => repo.step env fm (.create model)) fm := by
  rw [show models.foldl (fun fm model => repo.step env fm (.create model)) fm
      = ((models.mapM (repo.create env)).run fm).2 from (run_mapM_snd _ _ _).symm]
  rfl

/-- `delete(_ models:)` leaves what deleting the models one after another leaves. -/
theorem step_deleteList (fm : FileManager Data) (models : List Model) :
    repo.step env fm (.deleteList models)
      = models.foldl (fun fm model => repo.step env fm (.delete model)) fm := by
  rw [show models.foldl (fun fm model => repo.step env fm (.delete model)) fm
      = ((models.mapM (repo.delete env)).run fm).2 from (run_mapM_snd _ _ _).symm]
  rfl

section Simulation

variable [DecidableEq Id] {repo env} {U : Set Model}
  {R : FileManager Data → Live Id Model → Prop}

omit [IdentifiableCodable Model Id] [DecidableEq Id] in
/-- A fold of calls preserves a relation each of them preserves. -/
theorem foldl_simulates {f : FileManager Data → Model → FileManager Data}
    {g : Live Id Model → Model → Live Id Model}
    (hstep : ∀ fm live, ∀ model ∈ U, R fm live → R (f fm model) (g live model))
    (models : List Model) (hU : ∀ model ∈ models, model ∈ U) {fm : FileManager Data}
    {live : Live Id Model} (h : R fm live) : R (models.foldl f fm) (models.foldl g live) := by
  induction models generalizing fm live with
  | nil => exact h
  | cons model models ih =>
    exact ih (fun m hm => hU m (List.mem_cons_of_mem _ hm))
      (hstep fm live model (hU model (by simp)) h)

/-- **Simulation.** A relation between file systems and live models that `create`, `delete`
    and `deleteAll` preserve, for models of `U`, is preserved by every run over `U`. -/
theorem run_simulates
    (hcreate : ∀ fm live, ∀ model ∈ U, R fm live →
      R (repo.step env fm (.create model)) (live.store model))
    (hdelete : ∀ fm live, ∀ model ∈ U, R fm live →
      R (repo.step env fm (.delete model)) (live.forget model))
    (hdeleteAll : ∀ fm live, R fm live → R (repo.step env fm .deleteAll) fun _ => none)
    (ops : List (Op Model)) (hU : modelsUsed ops ⊆ U) {fm : FileManager Data}
    (live : Live Id Model) (h : R fm live) : R (repo.run env fm ops) (liveAfter live ops) := by
  induction ops generalizing fm live with
  | nil => exact h
  | cons op ops ih =>
    have hop : ∀ model ∈ op.models, model ∈ U := fun model hm =>
      hU ((modelsUsed_cons op ops).mpr (Or.inl hm))
    have hops : modelsUsed ops ⊆ U := fun model hm =>
      hU ((modelsUsed_cons op ops).mpr (Or.inr hm))
    refine ih hops _ ?_
    cases op with
    | create model => exact hcreate fm live model (hop model (by simp [Op.models])) h
    | update model => exact hcreate fm live model (hop model (by simp [Op.models])) h
    | delete model => exact hdelete fm live model (hop model (by simp [Op.models])) h
    | deleteAll => exact hdeleteAll fm live h
    | createAll models =>
      rw [step_createAll]
      exact foldl_simulates hcreate models hop h
    | deleteList models =>
      rw [step_deleteList]
      exact foldl_simulates hdelete models hop h

end Simulation

end FileSystemRepository

/-! ### A sample repository

Employees by number, coded as lists of numbers, in a process with a given hash function and
a file system without faults. -/

namespace Sample

/-- The model of the test suite, with a number for its id. -/
structure Employee where
  number : Nat
  age : Nat
deriving DecidableEq

instance : IdentifiableCodable Employee Nat where
  id := Employee.number

/-- The repository of the employees. -/
def employees : FileSystemRepository Employee (List Nat) where
  directory := .caches
  decode
    | [number, age] => some ⟨number, age⟩
    | _ => none
  encode employee := [employee.number, employee.age]
  describingModel := "Employee"

/-- A process with hash function `hashValue`. -/
def process (hashValue : Nat → Int) : Environment Nat where
  hashValue := hashValue
  url
    | .documentDirectory => ["Documents"]
    | .cachesDirectory => ["Library", "Caches"]
  fault _ := none
  order _ names := names
  order_perm _ _ := List.Perm.refl _

/-- A file system without directories. -/
def blank : FileManager (List Nat) where
  listing _ := none
  calls := 0

/-- Employees are decoded from their own data. -/
theorem employees_codec (employee : Employee) :
    employees.decode (employees.encode employee) = some employee := rfl

/-- No call of this process fails. -/
theorem process_quiet (hashValue : Nat → Int) : (process hashValue).Quiet := fun _ => rfl

end Sample

end QBRepository
