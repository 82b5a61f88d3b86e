import QBRepository.FileSystem.Listing
import QBRepository.FileSystem.Reports

namespace QBRepository

open IdentifiableCodable renaming id → idOf

/-!
# Many programs on one file system

Several programs, each with its own repositories, hash function and failing calls, make calls on
one file system in any order.

* `SharedCall` — a call of one of them; `runShared` — a sequence of calls;
* `SharedCall.Writes` and `SharedCall.Covers` — the files a call may write, with their contents, and
  the entries it may remove;
* `runShared_provenance` — an entry of a folder that the programs use is the one there was; or it
  is gone, and a call covers it; or it is a file that a call has written, and no call has changed
  it since;
* `readsCreated` — where the programs use one directory for one type of models, each of them reads
  models that have been passed to `create`, whatever their hash functions are.
-/

variable {Data : Type}

/-! ### One entry -/

section Moves

variable {W : Data → Prop} {C : Prop} {node node' node'' : Option (Node Data)}

/-- An entry stays, or is removed, which `C` allows, or is written, with contents `W` allows. -/
def Moves (W : Data → Prop) (C : Prop) (node node' : Option (Node Data)) : Prop :=
  node' = node ∨ C ∧ node' = none ∨ ∃ data, W data ∧ node' = some (.file data)

/-- An entry may stay as it is. -/
theorem Moves.refl (node : Option (Node Data)) : Moves W C node node := Or.inl rfl

/-- One move after another is a move. -/
theorem Moves.trans (h : Moves W C node node') (h' : Moves W C node' node'') :
    Moves W C node node'' := by
  rcases h' with hsame | hchanged
  · rw [hsame]
    exact h
  · exact Or.inr hchanged

/-- Allowing more. -/
theorem Moves.mono {W' : Data → Prop} {C' : Prop} (h : Moves W C node node')
    (hW : ∀ data, W data → W' data) (hC : C → C') : Moves W' C' node node' := by
  rcases h with hsame | ⟨hC', hgone⟩ | ⟨data, hdata, hwritten⟩
  · exact Or.inl hsame
  · exact Or.inr (Or.inl ⟨hC hC', hgone⟩)
  · exact Or.inr (Or.inr ⟨data, hW data hdata, hwritten⟩)

end Moves

/-! ### One call -/

namespace FileSystemRepository

variable {Id Model : Type} [IdentifiableCodable Model Id] (repo : FileSystemRepository Model Data)
  (env : Environment Id)

/-- A call may write the file of each of the models it creates. -/
def Writes (op : Op Model) (url : FileURL) (data : Data) : Prop :=
  ∃ model ∈ op.created, url = repo.fileURL env (idOf model) ∧ data = repo.encode model

/-- A call may remove the file of each of its models; `deleteAll`, all in its directory. -/
def Covers (op : Op Model) (url : FileURL) : Prop :=
  match op with
  | .deleteAll => url.directory = repo.getDirectoryURL env
  | op => ∃ model ∈ op.models, url = repo.fileURL env (idOf model)

/-- Updating one entry moves only this one. -/
theorem moves_update {W : Data → Prop} {C : Prop} {fm fm' : FileManager Data} {file url : FileURL}
    {new : Option (Node Data)} (hnode : fm'.node = Function.update fm.node file new)
    (hself : url = file → Moves W C (fm.node url) new) :
    Moves W C (fm.node url) (fm'.node url) := by
  rw [hnode]
  by_cases hurl : url = file
  · have h := hself hurl
    rw [hurl] at h ⊢
    rwa [Function.update_self]
  · rw [Function.update_of_ne hurl]
    exact Moves.refl _

/-- `create` moves every entry as its writes allow. -/
theorem create_moves (fm : FileManager Data) (model : Model) (url : FileURL) :
    Moves (repo.Writes env (.create model) url) (repo.Covers env (.create model) url) (fm.node url)
      ((repo.step env fm (.create model)).node url) := by
  have hcovers : url = repo.fileURL env (idOf model) → repo.Covers env (.create model) url :=
    fun hurl => ⟨model, List.mem_singleton_self model, hurl⟩
  rcases repo.create_cases env model fm with
    ⟨fm', hrun, hnode | ⟨-, hnode⟩⟩ | ⟨error, fm', hrun, -, hnode⟩ <;> rw [step, hrun]
  · refine moves_update hnode fun hurl => Or.inr (Or.inr ⟨_, ?_, rfl⟩)
    exact ⟨model, List.mem_singleton_self model, hurl, rfl⟩
  · exact moves_update hnode fun hurl => Or.inr (Or.inl ⟨hcovers hurl, rfl⟩)
  · exact Or.inl (congrFun hnode url)

/-- `delete` moves every entry as its removals allow. -/
theorem delete_moves (fm : FileManager Data) (model : Model) (url : FileURL) :
    Moves (repo.Writes env (.delete model) url) (repo.Covers env (.delete model) url) (fm.node url)
      ((repo.step env fm (.delete model)).node url) := by
  rcases repo.delete_cases env model fm with ⟨fm', hrun, hnode⟩ | ⟨error, fm', hrun, -, hnode⟩ <;>
    rw [step, hrun]
  · refine moves_update hnode fun hurl => Or.inr (Or.inl ⟨?_, rfl⟩)
    exact ⟨model, List.mem_singleton_self model, hurl⟩
  · exact Or.inl (congrFun hnode url)

/-- A loop of calls moves an entry as its calls do. -/
theorem foldl_moves {f : FileManager Data → Model → FileManager Data} {W : Data → Prop} {C : Prop}
    {url : FileURL} (models : List Model)
    (hstep : ∀ fm, ∀ model ∈ models, Moves W C (fm.node url) ((f fm model).node url))
    (fm : FileManager Data) : Moves W C (fm.node url) ((models.foldl f fm).node url) := by
  induction models generalizing fm with
  | nil => exact Moves.refl _
  | cons model models ih =>
    exact (hstep fm model List.mem_cons_self).trans
      (ih (fun fm m hm => hstep fm m (List.mem_cons_of_mem _ hm)) (f fm model))

/-- **One call** writes and removes what it may write and remove, whichever calls of the file system
    fail. -/
theorem step_moves (fm : FileManager Data) (op : Op Model) (url : FileURL) :
    Moves (repo.Writes env op url) (repo.Covers env op url) (fm.node url)
      ((repo.step env fm op).node url) := by
  cases op with
  | create model => exact repo.create_moves env fm model url
  | update model => exact repo.create_moves env fm model url
  | delete model => exact repo.delete_moves env fm model url
  | createAll models =>
    rw [step_createAll]
    refine foldl_moves models (fun fm model hmodel => ?_) fm
    have hone : ∀ m ∈ [model], m ∈ models := fun m hm => List.mem_singleton.mp hm ▸ hmodel
    exact (repo.create_moves env fm model url).mono
      (fun data hdata => hdata.imp fun m h => ⟨hone m h.1, h.2⟩)
      (Exists.imp fun m h => ⟨hone m h.1, h.2⟩)
  | deleteList models =>
    rw [step_deleteList]
    refine foldl_moves models (fun fm model hmodel => ?_) fm
    have hone : ∀ m ∈ [model], m ∈ models := fun m hm => List.mem_singleton.mp hm ▸ hmodel
    exact (repo.delete_moves env fm model url).mono
      (fun data hdata => absurd hdata fun h => by obtain ⟨m, hm, -⟩ := h; cases hm)
      (Exists.imp fun m h => ⟨hone m h.1, h.2⟩)
  | deleteAll =>
    obtain ⟨result, fm', hrun, hframe, -⟩ := repo.deleteAll_cases env fm
    rw [step, hrun]
    rcases hframe url with hsame | ⟨hdirectory, hgone⟩
    · exact Or.inl hsame
    · exact Or.inr (Or.inl ⟨hdirectory, hgone⟩)

end FileSystemRepository

/-! ### Calls of many programs -/

/-- A call of some program: its repository, its way to run, and the call. -/
structure SharedCall (Data : Type) where
  {Id : Type}
  {Model : Type}
  [identifiable : IdentifiableCodable Model Id]
  repo : FileSystemRepository Model Data
  env : Environment Id
  op : Op Model

attribute [instance] SharedCall.identifiable

namespace SharedCall

variable (call : SharedCall Data)

/-- The folder of its repository. -/
def directory : URL := call.repo.getDirectoryURL call.env

/-- The file system after the call. -/
def run (fm : FileManager Data) : FileManager Data :=
  call.repo.step call.env fm call.op

/-- A file the call may write, with its contents. -/
def Writes (url : FileURL) (data : Data) : Prop :=
  call.repo.Writes call.env call.op url data

/-- An entry the call may remove. -/
def Covers (url : FileURL) : Prop :=
  call.repo.Covers call.env call.op url

/-- Every call of a shared file manager moves entries as it may. -/
theorem run_moves (fm : FileManager Data) (url : FileURL) :
    Moves (call.Writes url) (call.Covers url) (fm.node url) ((call.run fm).node url) :=
  call.repo.step_moves call.env fm call.op url

end SharedCall

/-- The file system after the calls of the programs, in the order in which they are made. -/
def runShared (fm : FileManager Data) (calls : List (SharedCall Data)) : FileManager Data :=
  calls.foldl (fun fm call => call.run fm) fm

/-- The last call is run after the others. -/
theorem runShared_append (fm : FileManager Data) (calls : List (SharedCall Data))
    (call : SharedCall Data) : runShared fm (calls ++ [call]) = call.run (runShared fm calls) := by
  rw [runShared, List.foldl_append]
  rfl

/-- A run writes and removes what its calls may write and remove. -/
theorem runShared_moves (calls : List (SharedCall Data)) (fm : FileManager Data) (url : FileURL) :
    Moves (fun data => ∃ call ∈ calls, call.Writes url data) (∃ call ∈ calls, call.Covers url)
      (fm.node url) ((runShared fm calls).node url) := by
  induction calls generalizing fm with
  | nil => exact Moves.refl _
  | cons call calls ih =>
    refine Moves.trans ((call.run_moves fm url).mono ?_ ?_) ((ih (call.run fm)).mono ?_ ?_)
    · exact fun data hdata => ⟨call, List.mem_cons_self, hdata⟩
    · exact fun hcovers => ⟨call, List.mem_cons_self, hcovers⟩
    · exact fun data => Exists.imp fun c h => ⟨List.mem_cons_of_mem call h.1, h.2⟩
    · exact Exists.imp fun c h => ⟨List.mem_cons_of_mem call h.1, h.2⟩

/-- A call has written the file at `url`, and it has not been changed since. -/
def WrittenBy (fm : FileManager Data) (calls : List (SharedCall Data)) (url : FileURL)
    (data : Data) : Prop :=
  ∃ earlier call later, calls = earlier ++ call :: later ∧ call.Writes url data ∧
    ∀ now, now <+: later →
      (runShared fm (earlier ++ call :: now)).node url = some (.file data)

/-- Where an entry comes from: it is the one there was; or it is gone, and one of the calls covers
    it; or one of the calls has written it as it is, and no call has changed it since. -/
def HasProvenance (fm : FileManager Data) (calls : List (SharedCall Data)) (url : FileURL) : Prop :=
  (runShared fm calls).node url = fm.node url ∨
    (∃ call ∈ calls, call.Covers url) ∧ (runShared fm calls).node url = none ∨
    ∃ data, WrittenBy fm calls url data ∧ (runShared fm calls).node url = some (.file data)

/-- **Provenance.** However the calls of many programs follow each other, and whichever calls of the
    file system fail, each entry of a folder that they use has a provenance. -/
theorem runShared_provenance (calls : List (SharedCall Data)) (fm : FileManager Data) :
    ∀ call ∈ calls, ∀ name, HasProvenance fm calls ⟨call.directory, name⟩ := by
  intro call hcall name
  generalize (⟨call.directory, name⟩ : FileURL) = url
  clear hcall
  -- the last call comes last
  induction calls using List.reverseRecOn with
  | nil => exact Or.inl rfl
  | append_singleton calls call ih =>
    rcases call.run_moves (runShared fm calls) url with hsame | ⟨hcovers, hgone⟩ |
      ⟨data, hwrites, hwritten⟩
    · rw [← runShared_append] at hsame
      rw [HasProvenance, hsame]
      rcases ih with hfirst | ⟨⟨call', hmem, hcovers⟩, hgone⟩ |
        ⟨data, ⟨earlier, call', later, rfl, hwrites, hsince⟩, hwritten⟩
      · exact Or.inl hfirst
      · exact Or.inr (Or.inl ⟨⟨call', List.mem_append_left _ hmem, hcovers⟩, hgone⟩)
      · refine Or.inr (Or.inr ⟨data, ⟨earlier, call', later ++ [call], by simp, hwrites, ?_⟩,
          hwritten⟩)
        intro now hnow
        rcases List.prefix_concat_iff.mp hnow with rfl | hnow
        · have hall : earlier ++ call' :: (later ++ [call])
              = earlier ++ call' :: later ++ [call] := by simp
          rw [hall, hsame, hwritten]
        · exact hsince now hnow
    · rw [← runShared_append] at hgone
      exact Or.inr (Or.inl
        ⟨⟨call, List.mem_append_right _ (List.mem_singleton_self call), hcovers⟩, hgone⟩)
    · rw [← runShared_append] at hwritten
      refine Or.inr (Or.inr ⟨data, ⟨calls, call, [], rfl, hwrites, fun now hnow => ?_⟩, hwritten⟩)
      rw [List.prefix_nil.mp hnow, hwritten]

/-! ### Programs with one directory for one type of models -/

namespace FileSystemRepository

variable {Id Model : Type} [IdentifiableCodable Model Id] (repo : FileSystemRepository Model Data)

/-- The calls of programs that have one repository in common. -/
def sharedCalls (calls : List (Environment Id × Op Model)) : List (SharedCall Data) :=
  calls.map fun call => ⟨repo, call.1, call.2⟩

variable {repo}

/-- An entry of a directory that was absent or empty holds a model passed to `create`. -/
theorem node_sharedCalls {fm : FileManager Data} {directory : URL} (hfresh : fm.Fresh directory)
    (calls : List (Environment Id × Op Model)) {name : String} {node : Node Data}
    (hnode : (runShared fm (repo.sharedCalls calls)).node ⟨directory, name⟩ = some node) :
    ∃ call ∈ calls, ∃ model ∈ call.2.created, node = .file (repo.encode model) := by
  have habs : fm.node ⟨directory, name⟩ = none := congrFun hfresh.nodesIn name
  rcases runShared_moves (repo.sharedCalls calls) fm ⟨directory, name⟩ with
    hfirst | ⟨-, hgone⟩ | ⟨data, ⟨call, hmem, hwrites⟩, hwritten⟩
  · exact absurd (hnode.symm.trans (hfirst.trans habs)) (Option.some_ne_none node)
  · exact absurd (hnode.symm.trans hgone) (Option.some_ne_none node)
  · obtain ⟨call', hcall', rfl⟩ := List.mem_map.mp hmem
    obtain ⟨model, hmodel, -, hdata⟩ := hwrites
    refine ⟨call', hcall', model, hmodel, ?_⟩
    rw [← hdata]
    exact Option.some.inj (hnode.symm.trans hwritten)

/-- **Programs that share a directory** for one type of models, whatever their hash functions, the
    order of their calls and the failing calls of the file system are: each of them reads models
    that were passed to `create`, and finds no entry that it cannot decode. -/
theorem readsCreated (hcodec : ∀ model, repo.decode (repo.encode model) = some model)
    {env : Environment Id} {fm : FileManager Data} (hfresh : fm.Fresh (repo.getDirectoryURL env))
    (calls : List (Environment Id × Op Model)) :
    (∀ k model,
      repo.getElement env (.modelId k) (runShared fm (repo.sharedCalls calls)) = some model →
      ∃ call ∈ calls, model ∈ call.2.created) ∧
    (∀ model, model ∈ ((repo.getAll env).run (runShared fm (repo.sharedCalls calls))).1 →
      ∃ call ∈ calls, model ∈ call.2.created) ∧
    ∀ name, repo.Readable (runShared fm (repo.sharedCalls calls))
      ⟨repo.getDirectoryURL env, name⟩ := by
  -- what an entry decodes to has been created
  have hread : ∀ name data,
      (runShared fm (repo.sharedCalls calls)).contents ⟨repo.getDirectoryURL env, name⟩
        = some data →
      ∃ call ∈ calls, ∃ model ∈ call.2.created, repo.decode data = some model := by
    intro name data hdata
    obtain ⟨call, hcall, model, hmodel, hnode⟩ :=
      node_sharedCalls hfresh calls (FileManager.node_of_contents hdata)
    refine ⟨call, hcall, model, hmodel, ?_⟩
    rw [Node.file.inj hnode, hcodec]
  have hcreated : ∀ name model,
      repo.modelAt (runShared fm (repo.sharedCalls calls)) ⟨repo.getDirectoryURL env, name⟩
        = some model → ∃ call ∈ calls, model ∈ call.2.created := by
    intro name model hat
    obtain ⟨data, hdata, hdecode⟩ := Option.bind_eq_some_iff.mp hat
    obtain ⟨call, hcall, model', hmodel, hdecode'⟩ := hread name data hdata
    rw [Option.some.inj (hdecode.symm.trans hdecode')]
    exact ⟨call, hcall, hmodel⟩
  have hreadable : ∀ name, repo.Readable (runShared fm (repo.sharedCalls calls))
      ⟨repo.getDirectoryURL env, name⟩ := by
    intro name data hdata
    obtain ⟨call, -, model, -, hdecode⟩ := hread name data hdata
    rw [hdecode, Option.isSome_some]
  refine ⟨fun k model hfound => ?_, fun model hmem => ?_, hreadable⟩
  · rw [getElement_modelId] at hfound
    exact hcreated (fileName env k) model hfound
  · obtain ⟨names, fm', hrun, -⟩ :=
      repo.getAll_of_listed env _ (readable_of_mem_getAll hmem).1 hreadable
    rw [hrun] at hmem
    obtain ⟨name, -, hat⟩ := List.mem_filterMap.mp hmem
    exact hcreated name model hat

end FileSystemRepository

namespace Sample

/-- The calls of three processes. -/
def sharing : List (Environment Nat × Op Employee) :=
  [(process Int.ofNat, .create ⟨1, 21⟩), (failing 6, .createAll [⟨1, 22⟩, ⟨2, 24⟩]),
    (process fun n => -n, .update ⟨2, 25⟩)]

end Sample

/-- The employee that the first process has stored. -/
theorem runShared_provenance_employees :
    HasProvenance Sample.blank (Sample.employees.sharedCalls Sample.sharing)
      ⟨Sample.employees.getDirectoryURL (Sample.process Int.ofNat), "1"⟩ := by
  have hcall : (⟨Sample.employees, Sample.process Int.ofNat, .create ⟨1, 21⟩⟩ :
      SharedCall (List Nat)) ∈ Sample.employees.sharedCalls Sample.sharing := List.mem_cons_self
  exact runShared_provenance (Sample.employees.sharedCalls Sample.sharing) Sample.blank _ hcall "1"

namespace FileSystemRepository

/-- Processes with different hash functions share the employees; a `createFile` fails in one. -/
theorem readsCreated_employees :
    (∀ k model, Sample.employees.getElement (Sample.process Int.ofNat) (.modelId k)
        (runShared Sample.blank (Sample.employees.sharedCalls Sample.sharing)) = some model →
      ∃ call ∈ Sample.sharing, model ∈ call.2.created) ∧
    (∀ model, model ∈ ((Sample.employees.getAll (Sample.process Int.ofNat)).run
        (runShared Sample.blank (Sample.employees.sharedCalls Sample.sharing))).1 →
      ∃ call ∈ Sample.sharing, model ∈ call.2.created) ∧
    ∀ name, Sample.employees.Readable
      (runShared Sample.blank (Sample.employees.sharedCalls Sample.sharing))
      ⟨Sample.employees.getDirectoryURL (Sample.process Int.ofNat), name⟩ :=
  have hfresh : Sample.blank.Fresh
      (Sample.employees.getDirectoryURL (Sample.process Int.ofNat)) := Or.inl rfl
  readsCreated Sample.employees_codec hfresh Sample.sharing

end FileSystemRepository

end QBRepository
