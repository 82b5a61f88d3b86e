import QBRepository.Lib.Machine
import QBRepository.FileSystem.Failure
import QBRepository.FileSystem.Refinement

namespace QBRepository

open IdentifiableCodable renaming id → idOf

/-!
# What a caller may rely on when calls fail

`Report` is what a call returns, and `Effect` says what each report means for the live models,
whichever calls of the file system fail:

* a success of `create` means stored, or, if a `createFile` has failed, lost; an error means
  unchanged;
* no error of `delete` means forgotten, and an error means unchanged;
* the batch overloads do this to each of their models, in order; the one of `create` reports a
  success all the same;
* no error of `deleteAll` means that nothing is live; an error, that live models may be gone.

`run_meetsSpecification` — in every run from an absent or empty directory the reports and what is
read afterwards are as this specification allows.
-/

variable {Id Model Data : Type} [IdentifiableCodable Model Id]

/-- What a mutating call returns. -/
inductive Report (Model : Type) where
  | edit (result : RepositoryEditResult FileSystemError Model)
  | edits (result : RepositoryEditResult FileSystemError (List Model))
  | error (error : Option FileSystemError)

/-- The models a call creates. -/
def Op.created : Op Model → List Model
  | .create model | .update model => [model]
  | .createAll models => models
  | .delete _ | .deleteList _ | .deleteAll => []

/-! ### The specification -/

section Specification

variable [DecidableEq Id]

/-- What the result of `create` says of the live models; `lossy`: a file may get lost. -/
inductive CreateEffect (lossy : Prop) (live : Live Id Model) (model : Model) :
    RepositoryEditResult FileSystemError Model → Live Id Model → Prop where
  | stored : CreateEffect lossy live model (.success model) (live.store model)
  | lost (h : lossy) : CreateEffect lossy live model (.success model) (live.forget model)
  | refused (error : FileSystemError) : CreateEffect lossy live model (.error error) live

/-- What the result of `delete` says of the live models. -/
inductive DeleteEffect (live : Live Id Model) (model : Model) :
    Option FileSystemError → Live Id Model → Prop where
  | forgotten : DeleteEffect live model none (live.forget model)
  | refused (error : FileSystemError) : DeleteEffect live model (some error) live

/-- What the report of a call says of the live models before and after it. -/
inductive Effect (lossy : Prop) (live : Live Id Model) :
    Op Model → Report Model → Live Id Model → Prop where
  | create {model : Model} {result : RepositoryEditResult FileSystemError Model}
      {live' : Live Id Model} (h : CreateEffect lossy live model result live') :
      Effect lossy live (.create model) (.edit result) live'
  | update {model : Model} {result : RepositoryEditResult FileSystemError Model}
      {live' : Live Id Model} (h : CreateEffect lossy live model result live') :
      Effect lossy live (.update model) (.edit result) live'
  | createAll {models : List Model} {results : List (RepositoryEditResult FileSystemError Model)}
      {live' : Live Id Model} (h : Machine.Runs (CreateEffect lossy) live models results live') :
      Effect lossy live (.createAll models) (.edits (.success models)) live'
  | delete {model : Model} {error : Option FileSystemError} {live' : Live Id Model}
      (h : DeleteEffect live model error live') :
      Effect lossy live (.delete model) (.error error) live'
  | deleteList {models : List Model} {errors : List (Option FileSystemError)}
      {live' : Live Id Model} (h : Machine.Runs DeleteEffect live models errors live') :
      Effect lossy live (.deleteList models) (.error (errors.filterMap id).head?) live'
  | deleteAll : Effect lossy live .deleteAll (.error none) fun _ => none
  | deleteAllFailed {error : FileSystemError} {live' : Live Id Model}
      (h : ∀ k, live' k = live k ∨ live' k = none) :
      Effect lossy live .deleteAll (.error (some error)) live'

end Specification

namespace FileSystemRepository

variable (repo : FileSystemRepository Model Data) (env : Environment Id)

/-! ### Runs with their reports -/

/-- A call: its report, and the file system it leaves. -/
def call (fm : FileManager Data) : Op Model → Report Model × FileManager Data
  | .create model => ((repo.create env model).run fm).map Report.edit id
  | .createAll models => ((repo.createAll env models).run fm).map Report.edits id
  | .update model => ((repo.update env model).run fm).map Report.edit id
  | .delete model => ((repo.delete env model).run fm).map Report.error id
  | .deleteList models => ((repo.deleteList env models).run fm).map Report.error id
  | .deleteAll => ((repo.deleteAll env).run fm).map Report.error id

/-- The reports of a sequence of calls. -/
def reports (fm : FileManager Data) (ops : List (Op Model)) : List (Report Model) :=
  Machine.outputs (repo.call env) fm ops

/-- The reported call leaves the file system of the operation. -/
theorem call_snd (fm : FileManager Data) (op : Op Model) :
    (repo.call env fm op).2 = repo.step env fm op := by
  cases op <;> rfl

/-- The reported calls leave the file system of the run. -/
theorem final_call (fm : FileManager Data) (ops : List (Op Model)) :
    Machine.final (repo.call env) fm ops = repo.run env fm ops := by
  rw [Machine.final_eq_foldl, run]
  exact congrArg (List.foldl · fm ops) (funext fun fm => funext fun op => repo.call_snd env fm op)

/-- The batch overload of `create` reports a success whatever the results for its models are. -/
theorem call_createAll (fm : FileManager Data) (models : List Model) :
    repo.call env fm (.createAll models) = (.edits (.success models),
      Machine.final (fun fm model => (repo.create env model).run fm) fm models) := by
  show (Report.edits (batchResult models ((models.mapM (repo.create env)).run fm).1),
    ((models.mapM (repo.create env)).run fm).2) = _
  rw [batchResult_eq, Machine.run_mapM]

/-- The batch overload of `delete` reports the first error for one of its models. -/
theorem call_deleteList (fm : FileManager Data) (models : List Model) :
    repo.call env fm (.deleteList models) = (.error ((Machine.outputs
        (fun fm model => (repo.delete env model).run fm) fm models).filterMap id).head?,
      Machine.final (fun fm model => (repo.delete env model).run fm) fm models) := by
  show (Report.error (((models.mapM (repo.delete env)).run fm).1.filterMap id).head?,
    ((models.mapM (repo.delete env)).run fm).2) = _
  rw [Machine.run_mapM]

/-- If `create` comes to `createFile`, the file is created. -/
def CreatesFile (fm : FileManager Data) (model : Model) : Prop :=
  repo.createError env model fm = none → repo.createFileFault env model fm = none

/-- A call creates each file it comes to. -/
def CallCreates (fm : FileManager Data) (op : Op Model) : Prop :=
  Machine.Along (fun fm model => (repo.create env model).run fm) (repo.CreatesFile env) fm
    op.created

/-- A run creates each file it comes to. -/
def RunCreates (fm : FileManager Data) (ops : List (Op Model)) : Prop :=
  Machine.Along (repo.call env) (repo.CallCreates env) fm ops

variable {repo env} {S : Set Id} {fm : FileManager Data} {live : Live Id Model}

/-! ### What a single call does to the live models -/

/-- Whether models are stored depends on the entries only. -/
theorem Stores.congr {fm' : FileManager Data} (h : repo.Stores env S fm live)
    (hnode : fm'.node = fm.node) : repo.Stores env S fm' live where
  represents := by
    have hnodes : fm'.nodesIn (repo.getDirectoryURL env)
        = fm.nodesIn (repo.getDirectoryURL env) := by
      funext name
      rw [FileManager.nodesIn, hnode, FileManager.nodesIn]
    rw [hnodes]
    exact h.represents
  liveIn := h.liveIn
  keyed := h.keyed

section Calls

variable [DecidableEq Id] (hinj : Set.InjOn env.hashValue S) {lossy : Prop}

include hinj

/-- `create` is one of `CreateEffect`. -/
theorem Stores.create_created (h : repo.Stores env S fm live) {model : Model}
    (hm : idOf model ∈ S) (hcreates : repo.CreatesFile env fm model ∨ lossy) :
    ∃ live', CreateEffect lossy live model ((repo.create env model).run fm).1 live' ∧
      repo.Stores env S ((repo.create env model).run fm).2 live' := by
  rcases repo.create_spec env model fm with
    ⟨error, fm', -, hrun, hnode⟩ | ⟨fm', herror, hrun, hnode⟩
  · rw [hrun]
    exact ⟨live, .refused error, h.congr hnode⟩
  · rw [hrun]
    cases hfault : repo.createFileFault env model fm with
    | none =>
      rw [hfault] at hnode
      exact ⟨live.store model, .stored, h.written hinj hm hnode⟩
    | some error =>
      -- the previous version is gone and the new one is not there
      rw [hfault] at hnode
      have hlossy : lossy := hcreates.resolve_left fun hc =>
        Option.some_ne_none error (hfault.symm.trans (hc herror))
      exact ⟨live.forget model, .lost hlossy, h.removed hinj hm hnode⟩

/-- `delete` is one of `DeleteEffect`. -/
theorem Stores.delete_deleted (h : repo.Stores env S fm live) {model : Model}
    (hm : idOf model ∈ S) :
    ∃ live', DeleteEffect live model ((repo.delete env model).run fm).1 live' ∧
      repo.Stores env S ((repo.delete env model).run fm).2 live' := by
  rcases repo.delete_cases env model fm with ⟨fm', hrun, hnode⟩ | ⟨error, fm', hrun, -, hnode⟩
  · rw [hrun]
    exact ⟨live.forget model, .forgotten, h.removed hinj hm hnode⟩
  · rw [hrun]
    exact ⟨live, .refused error, h.congr hnode⟩

omit hinj [DecidableEq Id] in
/-- Where files of the directory are gone, so are their models. -/
theorem Stores.restrict (h : repo.Stores env S fm live) {fm' : FileManager Data}
    (hlost : ∀ url, fm'.node url = fm.node url ∨ fm'.node url = none) :
    ∃ live', (∀ k, live' k = live k ∨ live' k = none) ∧ repo.Stores env S fm' live' := by
  have hkept := h.represents.restrict fun name => hlost ⟨repo.getDirectoryURL env, name⟩
  have hless : ∀ k, (if (fm'.nodesIn (repo.getDirectoryURL env) (fileName env k)).isSome
      then live k else none) = live k ∨ (if (fm'.nodesIn (repo.getDirectoryURL env)
        (fileName env k)).isSome then live k else none) = none := by
    intro k
    split
    · exact Or.inl rfl
    · exact Or.inr rfl
  have hlive : ∀ k model, (if (fm'.nodesIn (repo.getDirectoryURL env) (fileName env k)).isSome
      then live k else none) = some model → live k = some model := by
    intro k model hk
    rcases hless k with hsame | hgone
    · rw [← hsame, hk]
    · exact absurd (hk.symm.trans hgone) (Option.some_ne_none model)
  exact ⟨_, hless, hkept, fun k model hk => h.liveIn k model (hlive k model hk),
    fun k model hk => h.keyed k model (hlive k model hk)⟩

omit hinj in
/-- `deleteAll` leaves nothing if it reports nothing. -/
theorem Stores.deleteAll_effect (h : repo.Stores env S fm live) :
    ∃ live', Effect lossy live (.deleteAll : Op Model) (repo.call env fm .deleteAll).1 live' ∧
      repo.Stores env S (repo.call env fm .deleteAll).2 live' := by
  obtain ⟨fm', hrun, hframe, hgone⟩ := repo.deleteAll_spec env fm
  show ∃ live', Effect lossy live _ (.error ((repo.deleteAll env).run fm).1) live' ∧
    repo.Stores env S ((repo.deleteAll env).run fm).2 live'
  rw [hrun]
  cases herror : repo.deleteAllError env fm with
  | none =>
    have hnodes : fm'.nodesIn (repo.getDirectoryURL env) = fun _ => none :=
      funext fun name => hgone herror name
    refine ⟨fun _ => none, .deleteAll, ?_, NamedStore.liveIn_empty,
      fun k model hk => absurd hk (by simp)⟩
    rw [hnodes]
    exact NamedStore.represents_empty
  | some error =>
    obtain ⟨live', hless, hstores⟩ := h.restrict fun url => (hframe url).imp_right And.right
    exact ⟨live', .deleteAllFailed hless, hstores⟩

/-- Each call has an effect that its report allows. -/
theorem Stores.call_effect (h : repo.Stores env S fm live) {op : Op Model}
    (hS : ∀ model ∈ op.models, idOf model ∈ S) (hcreates : repo.CallCreates env fm op ∨ lossy) :
    ∃ live', Effect lossy live op (repo.call env fm op).1 live' ∧
      repo.Stores env S (repo.call env fm op).2 live' := by
  cases op with
  | create model =>
    obtain ⟨live', hcreated, h'⟩ := h.create_created hinj (hS model (by simp [Op.models]))
      (hcreates.imp_left And.left)
    exact ⟨live', .create hcreated, h'⟩
  | update model =>
    obtain ⟨live', hcreated, h'⟩ := h.create_created hinj (hS model (by simp [Op.models]))
      (hcreates.imp_left And.left)
    exact ⟨live', .update hcreated, h'⟩
  | delete model =>
    obtain ⟨live', hdeleted, h'⟩ := h.delete_deleted hinj (hS model (by simp [Op.models]))
    exact ⟨live', .delete hdeleted, h'⟩
  | deleteAll => exact h.deleteAll_effect
  | createAll models =>
    -- model by model, each of them in the state the one before it leaves
    have hstep : ∀ (fm : FileManager Data) (live : Live Id Model) (model : Model),
        idOf model ∈ S ∧ (repo.CreatesFile env fm model ∨ lossy) → repo.Stores env S fm live →
        ∃ live', CreateEffect lossy live model ((repo.create env model).run fm).1 live' ∧
          repo.Stores env S ((repo.create env model).run fm).2 live' :=
      fun _ _ _ hP hR => hR.create_created hinj hP.1 hP.2
    have hcreates' : Machine.Along (fun fm model => (repo.create env model).run fm)
        (repo.CreatesFile env) fm models ∨ lossy := hcreates
    have hmodels : ∀ (_ : FileManager Data), ∀ model ∈ models, idOf model ∈ S := fun _ => hS
    obtain ⟨live', hruns, h'⟩ := Machine.Runs.simulates hstep models
      ((Machine.Along.of_mem hmodels fm).and (Machine.Along.or hcreates')) h
    rw [call_createAll]
    exact ⟨live', .createAll hruns, h'⟩
  | deleteList models =>
    have hstep : ∀ (fm : FileManager Data) (live : Live Id Model) (model : Model),
        idOf model ∈ S → repo.Stores env S fm live →
        ∃ live', DeleteEffect live model ((repo.delete env model).run fm).1 live' ∧
          repo.Stores env S ((repo.delete env model).run fm).2 live' :=
      fun _ _ _ hP hR => hR.delete_deleted hinj hP
    have hmodels : ∀ (_ : FileManager Data), ∀ model ∈ models, idOf model ∈ S := fun _ => hS
    obtain ⟨live', hruns, h'⟩ := Machine.Runs.simulates hstep models
      (Machine.Along.of_mem hmodels fm) h
    rw [call_deleteList]
    exact ⟨live', .deleteList hruns, h'⟩

/-- Each run has effects that its reports allow. -/
theorem Stores.run_effects (h : repo.Stores env S fm live) (ops : List (Op Model))
    (hS : idsUsed ops ⊆ S) (hcreates : repo.RunCreates env fm ops ∨ lossy) :
    ∃ live', Machine.Runs (Effect lossy) live ops (repo.reports env fm ops) live' ∧
      repo.Stores env S (repo.run env fm ops) live' := by
  have hstep : ∀ (fm : FileManager Data) (live : Live Id Model) (op : Op Model),
      (∀ model ∈ op.models, idOf model ∈ S) ∧ (repo.CallCreates env fm op ∨ lossy) →
      repo.Stores env S fm live →
      ∃ live', Effect lossy live op (repo.call env fm op).1 live' ∧
        repo.Stores env S (repo.call env fm op).2 live' :=
    fun _ _ _ hP hR => hR.call_effect hinj hP.1 hP.2
  have hids : ∀ (_ : FileManager Data), ∀ op ∈ ops, ∀ model ∈ op.models, idOf model ∈ S :=
    fun _ op hop model hmodel => hS (Set.mem_image_of_mem idOf ⟨op, hop, hmodel⟩)
  have hcreates' : Machine.Along (repo.call env) (repo.CallCreates env) fm ops ∨ lossy := hcreates
  obtain ⟨live', hruns, h'⟩ := Machine.Runs.simulates hstep ops
    ((Machine.Along.of_mem hids fm).and (Machine.Along.or hcreates')) h
  rw [final_call] at h'
  exact ⟨live', hruns, h'⟩

end Calls

end FileSystemRepository

end QBRepository
