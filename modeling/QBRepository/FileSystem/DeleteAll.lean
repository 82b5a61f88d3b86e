import QBRepository.FileSystem.Elements

namespace QBRepository

open IdentifiableCodable renaming id → idOf

/-!
# When `deleteAll` succeeds

The directory of a repository is made by `create`, and `deleteAll` reports an error where there is
none; `delete` and `getAll` take a missing directory for an empty one.

* `Call` — any call on the repository, `runCalls` a finite sequence of them; `Action` — what calls
  come down to (`runCalls_eq_acts`);
* `act_directoryExists` — only `create` decides whether the directory exists;
* `DeletesAll` — if no removal fails, `deleteAll` reports none and nothing is read afterwards;
* `deletesAll_iff` — after any sequence of calls, that is so exactly if the directory can be listed.
-/

variable {Object Id Model Data : Type}

/-! ### Calls -/

/-- A call on the repository. -/
inductive Call (Object Id Model : Type) where
  | op (op : Op Model)
  | getElement (anyId : AnyId Id)
  | getAll
  | getElements (filter : Option (Query Object Model))
    (sortKeyPath : Option (ComparableKeyPath Model))
    (distinctKeyPath : Option (HashableKeyPath Model))
  | performTranscation (transaction : List (Call Object Id Model))

/-- The calls that others consist of. -/
inductive Action (Model : Type) where
  | create (model : Model)
  | delete (model : Model)
  | deleteAll
  | getAll

/-- The models of a batch are stored, or deleted, one after another. -/
def Op.actions : Op Model → List (Action Model)
  | .create model | .update model => [.create model]
  | .createAll models => models.map .create
  | .delete model => [.delete model]
  | .deleteList models => models.map .delete
  | .deleteAll => [.deleteAll]

mutual

/-- What a call comes down to. -/
def Call.actions : Call Object Id Model → List (Action Model)
  | .op op => op.actions
  | .getElement _ => []
  | .getAll | .getElements _ _ _ => [.getAll]
  | .performTranscation transaction => actionsOf transaction

/-- What a sequence of calls comes down to. -/
def actionsOf : List (Call Object Id Model) → List (Action Model)
  | [] => []
  | call :: calls => call.actions ++ actionsOf calls

end

namespace FileSystemRepository

variable [IdentifiableCodable Model Id]
variable (repo : FileSystemRepository Model Data) (env : Environment Id)

section Calls

variable (sorting : Sorting Model) (order : Enumeration (Int × List Model))

mutual

/-- The file system after one call; a lookup leaves it as it is. -/
def stepCall : FileManager Data → Call Object Id Model → FileManager Data
  | fm, .op op => repo.step env fm op
  | fm, .getElement _ => fm
  | fm, .getAll => ((repo.getAll env).run fm).2
  | fm, .getElements filter sortKeyPath distinctKeyPath =>
    ((repo.getElements env sorting order filter sortKeyPath distinctKeyPath).run fm).2
  | fm, .performTranscation transaction =>
    ((performTranscation (modify fun fm => runCalls fm transaction)).run fm).2

/-- The file system after a sequence of calls. -/
def runCalls : FileManager Data → List (Call Object Id Model) → FileManager Data
  | fm, [] => fm
  | fm, call :: calls => runCalls (stepCall fm call) calls

end

end Calls

/-- The file system after one action. -/
def act (fm : FileManager Data) : Action Model → FileManager Data
  | .create model => ((repo.create env model).run fm).2
  | .delete model => ((repo.delete env model).run fm).2
  | .deleteAll => ((repo.deleteAll env).run fm).2
  | .getAll => ((repo.getAll env).run fm).2

/-- The file system after a sequence of actions. -/
def acts (fm : FileManager Data) (actions : List (Action Model)) : FileManager Data :=
  actions.foldl (repo.act env) fm

variable {repo env}

/-- Actions are carried out one after the other. -/
theorem acts_append (fm : FileManager Data) (first later : List (Action Model)) :
    repo.acts env fm (first ++ later) = repo.acts env (repo.acts env fm first) later :=
  List.foldl_append

/-- An operation is the sequence of its actions. -/
theorem step_eq_acts (fm : FileManager Data) (op : Op Model) :
    repo.step env fm op = repo.acts env fm op.actions := by
  cases op with
  | create model => rfl
  | update model => rfl
  | delete model => rfl
  | deleteAll => rfl
  | createAll models =>
    rw [step_createAll, acts, Op.actions, List.foldl_map]
    rfl
  | deleteList models =>
    rw [step_deleteList, acts, Op.actions, List.foldl_map]
    rfl

mutual

/-- So is every call, a transaction with all that it contains. -/
theorem stepCall_eq_acts (sorting : Sorting Model) (order : Enumeration (Int × List Model)) :
    (fm : FileManager Data) → (call : Call Object Id Model) →
    repo.stepCall env sorting order fm call = repo.acts env fm call.actions
  | fm, .op op => step_eq_acts fm op
  | _, .getElement _ => rfl
  | _, .getAll => rfl
  | _, .getElements _ _ _ => rfl
  | fm, .performTranscation transaction => runCalls_eq_acts sorting order fm transaction

/-- A sequence of calls is a sequence of actions. -/
theorem runCalls_eq_acts (sorting : Sorting Model) (order : Enumeration (Int × List Model)) :
    (fm : FileManager Data) → (calls : List (Call Object Id Model)) →
    repo.runCalls env sorting order fm calls = repo.acts env fm (actionsOf calls)
  | _, [] => rfl
  | fm, call :: calls => by
    rw [runCalls, actionsOf, acts_append, ← stepCall_eq_acts sorting order fm call]
    exact runCalls_eq_acts sorting order (repo.stepCall env sorting order fm call) calls

end

end FileSystemRepository

/-! ### Which directories exist -/

/-- Whether there is a directory at `url`. -/
def FileManager.directoryExists (fm : FileManager Data) (url : URL) : Bool :=
  (fm.listing url).isSome

namespace Environment

variable (env : Environment Id) {url : URL}

/-- The directory is there afterwards, if it was there or no error occurred. -/
theorem createDirectory_directoryExists (fm : FileManager Data) :
    (FileM.exec (env.createDirectory url) fm).2.directoryExists url
      = (fm.directoryExists url || (env.fault fm.calls).isNone) := by
  rw [exec_createDirectory]
  cases env.fault fm.calls with
  | some error => exact (Bool.or_false _).symm
  | none => exact (fm.tick.listing_makeDirectory_isSome url).trans (Bool.or_true _).symm

/-- Removing a file leaves its directory. -/
theorem preserves_removeItem (item : FileURL) :
    FileM.Preserves (fun fm => fm.directoryExists url)
      (env.removeItem item : FileM Data Unit) := by
  intro fm
  rw [exec_removeItem]
  cases env.fault fm.calls with
  | some error => rfl
  | none =>
    cases fm.fileExists item with
    | false => rfl
    | true => exact fm.tick.listing_modifyListing_isSome url item.directory _

/-- Writing a file makes no directory. -/
theorem preserves_createFile (item : FileURL) (data : Data) :
    FileM.Preserves (fun fm => fm.directoryExists url) (env.createFile item data) := by
  intro fm
  simp only [createFile, FileM.exec_bind, FileM.exec_get, FileM.exec_set]
  split
  · exact fm.tick.listing_modifyListing_isSome url item.directory _
  · exact fm.tick.listing_modifyListing_isSome url item.directory _
  · rfl

end Environment

/-- What is never lost holds at the end exactly if it has held at the start or has been brought
    about on the way. -/
theorem foldl_iff_exists {σ α : Type} {f : σ → α → σ} {P : σ → Prop} {brings : σ → α → Prop}
    (hstep : ∀ s a, P (f s a) ↔ P s ∨ brings s a) (as : List α) (s : σ) :
    P (as.foldl f s) ↔ P s ∨ ∃ pre a post, as = pre ++ a :: post ∧ brings (pre.foldl f s) a := by
  induction as generalizing s with
  | nil =>
    refine (or_iff_left fun h => ?_).symm
    obtain ⟨pre, a, post, hsplit, -⟩ := h
    exact absurd hsplit (by simp)
  | cons first as ih =>
    rw [List.foldl_cons, ih, hstep, or_assoc]
    refine or_congr_right ⟨fun h => ?_, fun h => ?_⟩
    · rcases h with h | ⟨pre, a, post, hsplit, h⟩
      · exact ⟨[], first, as, rfl, h⟩
      · exact ⟨first :: pre, a, post, congrArg (first :: ·) hsplit, h⟩
    · obtain ⟨pre, a, post, hsplit, h⟩ := h
      rcases List.cons_eq_append_iff.mp hsplit with ⟨rfl, hfirst⟩ | ⟨pre, rfl, hlater⟩
      · obtain ⟨rfl, -⟩ := List.cons.inj hfirst
        exact Or.inl h
      · exact Or.inr ⟨pre, a, post, hlater, h⟩

namespace FileSystemRepository

variable [IdentifiableCodable Model Id]
variable {repo : FileSystemRepository Model Data} {env : Environment Id}

/-- **One action.** The directory exists if it did, or if `create` is called and makes it. -/
theorem act_directoryExists (fm : FileManager Data) (action : Action Model) :
    (repo.act env fm action).directoryExists (repo.getDirectoryURL env) = true ↔
      fm.directoryExists (repo.getDirectoryURL env) = true ∨
        (∃ model, action = .create model) ∧ env.fault fm.calls = none := by
  cases action with
  | create model =>
    -- after `createDirectory`, nothing that `create` calls makes or removes a directory
    have hcreate := repo.create_preserves env
      (v := fun fm => fm.directoryExists (repo.getDirectoryURL env)) (fun _ => rfl) model
      (env.preserves_removeItem _) (env.preserves_createFile _) fm
    rw [act, hcreate, env.createDirectory_directoryExists, Bool.or_eq_true,
      Option.isNone_iff_eq_none]
    exact or_congr_right (and_iff_right ⟨model, rfl⟩).symm
  | delete model =>
    have hdelete := repo.delete_preserves env
      (v := fun fm => fm.directoryExists (repo.getDirectoryURL env)) model
      (env.preserves_removeItem _) fm
    rw [act, hdelete]
    simp
  | deleteAll =>
    have hdeleteAll := repo.deleteAll_preserves env
      (v := fun fm => fm.directoryExists (repo.getDirectoryURL env)) (fun _ => rfl)
      (fun url _ => env.preserves_removeItem url) fm
    rw [act, hdeleteAll]
    simp
  | getAll =>
    have hgetAll := repo.getAll_preserves env
      (v := fun fm => fm.directoryExists (repo.getDirectoryURL env)) (fun _ => rfl) fm
    rw [act, hgetAll]
    simp

/-- **A run.** The directory exists if it did at the start, or if some `create` of the run has made
    it. -/
theorem acts_directoryExists (fm : FileManager Data) (actions : List (Action Model)) :
    (repo.acts env fm actions).directoryExists (repo.getDirectoryURL env) = true ↔
      fm.directoryExists (repo.getDirectoryURL env) = true ∨
        ∃ pre model post, actions = pre ++ .create model :: post ∧
          env.fault (repo.acts env fm pre).calls = none := by
  refine (foldl_iff_exists
    (P := fun fm => fm.directoryExists (repo.getDirectoryURL env) = true)
    act_directoryExists actions fm).trans ?_
  refine or_congr_right ⟨fun h => ?_, fun h => ?_⟩
  · obtain ⟨pre, _, post, hsplit, ⟨model, rfl⟩, hcall⟩ := h
    exact ⟨pre, model, post, hsplit, hcall⟩
  · obtain ⟨pre, model, post, hsplit, hcall⟩ := h
    exact ⟨pre, .create model, post, hsplit, ⟨model, rfl⟩, hcall⟩

/-! ### Deleting everything -/

section DeleteAll

omit [IdentifiableCodable Model Id]

variable (repo env)

/-- No removal fails that `deleteAll` attempts: if the entries can be listed, they are removed by
    the calls that follow the listing. -/
def RemovalsSucceed (fm : FileManager Data) : Prop :=
  env.fault fm.calls = none →
    ∀ n ∈ List.range' (fm.calls + 1) (fm.entries (repo.getDirectoryURL env)).keys.length,
      env.fault n = none

/-- If no removal fails, `deleteAll` reports no error, and nothing is read afterwards. -/
def DeletesAll (fm : FileManager Data) : Prop :=
  repo.RemovalsSucceed env fm →
    ((repo.deleteAll env).run fm).1 = none ∧
      ((repo.getAll env).run ((repo.deleteAll env).run fm).2).1 = []

variable {repo env}

/-- A directory without entries is read as empty, whether or not it can be listed. -/
theorem getAll_of_no_entries {fm : FileManager Data}
    (h : ∀ name, fm.node ⟨repo.getDirectoryURL env, name⟩ = none) :
    ((repo.getAll env).run fm).1 = [] := by
  cases hlist : env.fault fm.calls with
  | some error => exact repo.getAll_of_fault env hlist
  | none =>
    obtain ⟨names, fm', hrun, -, hnames⟩ := repo.getAll_spec env fm hlist
    have hnil : names = [] := by
      refine List.eq_nil_iff_forall_not_mem.mpr fun name hname => ?_
      have hsome := (hnames name).mp hname
      rw [h name] at hsome
      exact absurd hsome (by simp)
    rw [hrun, hnil]
    simp

/-- **In one state**, `deleteAll` keeps its promise exactly if the directory can be listed. -/
theorem deletesAll_iff_listed (fm : FileManager Data) : repo.DeletesAll env fm ↔
    env.fault fm.calls = none ∧ fm.directoryExists (repo.getDirectoryURL env) = true := by
  obtain ⟨fm', hrun, -, hgone⟩ := repo.deleteAll_spec env fm
  rw [DeletesAll, hrun]
  cases hlist : env.fault fm.calls with
  | some error =>
    -- no removal is attempted, and the error of the listing is reported
    have hsucceed : repo.RemovalsSucceed env fm := by
      intro h
      rw [hlist] at h
      exact absurd h (Option.some_ne_none error)
    have herror : repo.deleteAllError env fm = some error := by simp only [deleteAllError, hlist]
    rw [herror]
    exact iff_of_false (fun h => Option.some_ne_none error (h hsucceed).1)
      fun h => Option.some_ne_none error h.1
  | none =>
  cases hl : fm.listing (repo.getDirectoryURL env) with
  | none =>
    -- nothing is there to remove, and that is reported as an error
    have hsucceed : repo.RemovalsSucceed env fm := by
      intro _
      simp [FileManager.entries, hl]
    have herror : repo.deleteAllError env fm = some .noSuchFile := by
      simp only [deleteAllError, hlist, hl]
    rw [herror, FileManager.directoryExists, hl]
    exact iff_of_false (fun h => Option.some_ne_none _ (h hsucceed).1) (by simp)
  | some l =>
    rw [FileManager.directoryExists, hl]
    refine iff_of_true (fun hsucceed => ?_) ⟨rfl, rfl⟩
    have herror : repo.deleteAllError env fm = none := by
      simp only [deleteAllError, hlist, hl]
      refine List.findSome?_eq_none_iff.mpr ?_
      have hall := hsucceed hlist
      rwa [FileManager.entries, hl] at hall
    exact ⟨herror, getAll_of_no_entries (hgone herror)⟩

end DeleteAll

/-- **After any calls**, `deleteAll` keeps its promise exactly if it can list the directory: the
    listing does not fail, and the directory was there at the start or some `create` has made it. -/
theorem deletesAll_iff (repo : FileSystemRepository Model Data) (env : Environment Id)
    (sorting : Sorting Model) (order : Enumeration (Int × List Model)) (fm : FileManager Data)
    (calls : List (Call Object Id Model)) :
    repo.DeletesAll env (repo.runCalls env sorting order fm calls) ↔
      env.fault (repo.runCalls env sorting order fm calls).calls = none ∧
        (fm.directoryExists (repo.getDirectoryURL env) = true ∨
          ∃ pre model post, actionsOf calls = pre ++ .create model :: post ∧
            env.fault (repo.acts env fm pre).calls = none) := by
  rw [deletesAll_iff_listed, runCalls_eq_acts, acts_directoryExists]

open Sample in
/-- In a store in which nothing has been created, there is nothing to delete, and an error is
    reported. -/
theorem not_deletesAll_employees :
    ¬ ∀ calls : List (Call Int Nat Employee), employees.DeletesAll (process Int.ofNat)
      (employees.runCalls (process Int.ofNat) (.merge _) (.keyFirst 0) blank calls) := by
  intro h
  have hreported := (h [] fun _ _ _ => rfl).1
  cases hreported

end FileSystemRepository

end QBRepository
