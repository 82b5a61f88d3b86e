import QBRepository.FileSystem.Failure
import QBRepository.FileSystem.Refinement

namespace QBRepository

open IdentifiableCodable renaming id → idOf

/-!
# Two repositories in one base directory

What separates repositories of different model types is the folder each appends to the base
directory, which is named after the unqualified name of the type.

* `FileM.Keeps` — a computation leaves a directory alone; `step_listing` — a repository leaves every
  directory but its own alone;
* `SameView` — nothing that is read has changed; `sameView_of_listing` — it depends on the own
  directory only;
* `separate_iff` — two repositories do not interfere exactly if the names of their types differ.
-/

variable {Data α : Type}

/-! ### Directories a computation leaves alone -/

namespace FileM

/-- `block` leaves `directory` and all its entries as they are. -/
def Keeps (directory : URL) (block : FileM Data α) : Prop :=
  ∀ fm, (exec block fm).2.listing directory = fm.listing directory

end FileM

namespace Environment

variable {Id : Type} (env : Environment Id) {directory : URL}

/-- Creating a directory keeps the others. -/
theorem keeps_createDirectory {url : URL} (h : directory ≠ url) :
    FileM.Keeps directory (env.createDirectory url : FileM Data Unit) := by
  intro fm
  rw [exec_createDirectory]
  cases env.fault fm.calls with
  | some error => rfl
  | none => exact Function.update_of_ne h _ _

/-- Removing a file keeps the directories it is not in. -/
theorem keeps_removeItem {url : FileURL} (h : directory ≠ url.directory) :
    FileM.Keeps directory (env.removeItem url : FileM Data Unit) := by
  intro fm
  rw [exec_removeItem]
  cases env.fault fm.calls with
  | some error => rfl
  | none =>
    cases fm.fileExists url with
    | false => rfl
    | true => exact Function.update_of_ne h _ _

/-- So does writing a file. -/
theorem keeps_createFile {url : FileURL} (h : directory ≠ url.directory) (data : Data) :
    FileM.Keeps directory (env.createFile url data) := by
  intro fm
  simp only [createFile, FileM.exec_bind, FileM.exec_get, FileM.exec_set]
  split <;> first
    | exact Function.update_of_ne h _ _
    | rfl

end Environment

namespace FileSystemRepository

variable {Id Model : Type} [IdentifiableCodable Model Id]
variable {repo : FileSystemRepository Model Data} {env : Environment Id} {directory : URL}

/-- `create` changes the listing of the own directory only. -/
theorem create_listing (h : directory ≠ repo.getDirectoryURL env) (model : Model)
    (fm : FileManager Data) :
    (repo.step env fm (.create model)).listing directory = fm.listing directory := by
  have hcreate := repo.create_preserves env (v := fun fm => fm.listing directory) (fun _ => rfl)
    model (env.keeps_removeItem h) (env.keeps_createFile h) fm
  exact hcreate.trans (env.keeps_createDirectory h fm)

/-- So does `delete`. -/
theorem delete_listing (h : directory ≠ repo.getDirectoryURL env) (model : Model)
    (fm : FileManager Data) :
    (repo.step env fm (.delete model)).listing directory = fm.listing directory :=
  repo.delete_preserves env (v := fun fm => fm.listing directory) model (env.keeps_removeItem h) fm

/-- So does `deleteAll`. -/
theorem deleteAll_listing (h : directory ≠ repo.getDirectoryURL env) (fm : FileManager Data) :
    (repo.step env fm .deleteAll).listing directory = fm.listing directory :=
  repo.deleteAll_preserves env (v := fun fm => fm.listing directory) (fun _ => rfl)
    (fun url hurl => env.keeps_removeItem (by rw [hurl]; exact h)) fm

/-- **Frame.** A call on a repository leaves every directory but its own alone. -/
theorem step_listing (h : directory ≠ repo.getDirectoryURL env) (fm : FileManager Data)
    (op : Op Model) : (repo.step env fm op).listing directory = fm.listing directory := by
  -- a batch leaves alone what its single calls leave alone
  have hfold : ∀ {f : FileManager Data → Model → FileManager Data},
      (∀ model fm, (f fm model).listing directory = fm.listing directory) →
      ∀ models : List Model, (models.foldl f fm).listing directory = fm.listing directory := by
    intro f hf models
    induction models generalizing fm with
    | nil => rfl
    | cons model models ih => exact (ih (f fm model)).trans (hf model fm)
  cases op with
  | create model => exact create_listing h model fm
  | update model => exact create_listing h model fm
  | delete model => exact delete_listing h model fm
  | deleteAll => exact deleteAll_listing h fm
  | createAll models =>
    rw [step_createAll]
    exact hfold (create_listing h) models
  | deleteList models =>
    rw [step_deleteList]
    exact hfold (delete_listing h) models

/-! ### What is read depends on the own directory only -/

section Reading

omit [IdentifiableCodable Model Id]

/-- Everything that can be read through `repo` is the same in both states; a listing may enumerate
    the directory in another order. -/
structure SameView (repo : FileSystemRepository Model Data) (env : Environment Id)
    (fm fm' : FileManager Data) : Prop where
  getElement : ∀ anyId, repo.getElement env anyId fm' = repo.getElement env anyId fm
  getAll : ((repo.getAll env).run fm').1.Perm ((repo.getAll env).run fm).1

/-- A node of the directory of `repo` is a matter of its listing. -/
theorem node_of_listing {fm fm' : FileManager Data}
    (h : fm'.listing (repo.getDirectoryURL env) = fm.listing (repo.getDirectoryURL env))
    (name : String) : fm'.node ⟨repo.getDirectoryURL env, name⟩
      = fm.node ⟨repo.getDirectoryURL env, name⟩ := by
  simp only [FileManager.node, FileManager.entries, h]

/-- **What is read** depends on the directory of the repository only. -/
theorem sameView_of_listing (hq : env.Quiet) {fm fm' : FileManager Data}
    (h : fm'.listing (repo.getDirectoryURL env) = fm.listing (repo.getDirectoryURL env)) :
    repo.SameView env fm fm' := by
  have hcontents : ∀ name, fm'.contents ⟨repo.getDirectoryURL env, name⟩
      = fm.contents ⟨repo.getDirectoryURL env, name⟩ := by
    intro name
    rw [FileManager.contents, FileManager.contents, node_of_listing h]
  constructor
  · intro anyId
    cases anyId with
    | foreign => rfl
    | modelId k => simp only [getElement, fileURL, getURL, hcontents]
  · obtain ⟨names, _, hrun, hnodup, hmem⟩ := repo.getAll_spec env fm (hq fm.calls)
    obtain ⟨names', _, hrun', hnodup', hmem'⟩ := repo.getAll_spec env fm' (hq fm'.calls)
    -- both listings enumerate the same names
    have hperm : names'.Perm names := (List.perm_ext_iff_of_nodup hnodup' hnodup).mpr fun name => by
      rw [hmem, hmem', node_of_listing h]
    have hreadable : (∀ name ∈ names', repo.Readable fm' ⟨repo.getDirectoryURL env, name⟩) ↔
        ∀ name ∈ names, repo.Readable fm ⟨repo.getDirectoryURL env, name⟩ := by
      simp only [Readable, hcontents, hperm.mem_iff]
    have hmodelAt : (fun name => repo.modelAt fm' ⟨repo.getDirectoryURL env, name⟩)
        = fun name => repo.modelAt fm ⟨repo.getDirectoryURL env, name⟩ := by
      funext name
      rw [modelAt, modelAt, hcontents]
    rw [hrun, hrun']
    by_cases hall : ∀ name ∈ names, repo.Readable fm ⟨repo.getDirectoryURL env, name⟩
    · simp only [if_pos hall, if_pos (hreadable.mpr hall), hmodelAt]
      exact hperm.filterMap _
    · simp only [if_neg hall, if_neg (mt hreadable.mp hall), List.Perm.refl]

end Reading

end FileSystemRepository

/-! ### Two repositories -/

/-- The same process, as seen by the ids of another type. -/
def Environment.forIds {Id Id' : Type} (env : Environment Id) (hashValue : Id' → Int) :
    Environment Id' where
  hashValue := hashValue
  url := env.url
  fault := env.fault
  order := env.order
  order_perm := env.order_perm

section Pair

variable {A B IdA IdB : Type} [IdentifiableCodable A IdA] [IdentifiableCodable B IdB]
variable (repoA : FileSystemRepository A Data) (repoB : FileSystemRepository B Data)
variable (env : Environment IdA) (hashB : IdB → Int)

/-- A call on one of two repositories. -/
def stepEither (fm : FileManager Data) : Op A ⊕ Op B → FileManager Data
  | .inl op => repoA.step env fm op
  | .inr op => repoB.step (env.forIds hashB) fm op

/-- No call on one of two repositories, after any calls on them, changes what is read from the
    other. -/
def Separate (fm : FileManager Data) : Prop :=
  ∀ ops : List (Op A ⊕ Op B), let now := ops.foldl (stepEither repoA repoB env hashB) fm
    (∀ op, repoB.SameView (env.forIds hashB) now (repoA.step env now op)) ∧
      ∀ op, repoA.SameView env now (repoB.step (env.forIds hashB) now op)

variable {repoA repoB env hashB}

/-- A stored model is lost when another repository deletes all there is in the same folder. -/
theorem not_sameView_deleteAll {env' : Environment IdB} (hq : env.Quiet) (hq' : env'.Quiet)
    (hsame : repoB.getDirectoryURL env' = repoA.getDirectoryURL env)
    (hcodec : ∀ model, repoA.decode (repoA.encode model) = some model) (model : A)
    (fm : FileManager Data) :
    let now := repoA.run env fm [.deleteAll, .create model]
    ¬ repoA.SameView env now (repoB.step env' now .deleteAll) := by
  classical
  intro now hview
  have hinj : Set.InjOn env.hashValue {idOf model} := Set.injOn_singleton _ _
  have hstores : repoA.Stores env {idOf model} now (Live.store (fun _ => none) model) :=
    (FileSystemRepository.stores_deleteAll hq fm).create hq hinj rfl
  have hbefore : repoA.getElement env (.modelId (idOf model)) now = some model := by
    rw [hstores.getElement hinj hcodec rfl]
    exact Function.update_self ..
  have hafter : repoA.getElement env (.modelId (idOf model)) (repoB.step env' now .deleteAll)
      = none := by
    obtain ⟨_, fm', hrun, -, hgone⟩ := repoB.deleteAll_cases env' now
    refine FileSystemRepository.getElement_of_absent ?_
    show ((repoB.deleteAll env').run now).2.node _ = none
    rw [hrun, FileSystemRepository.fileURL, FileSystemRepository.getURL, ← hsame]
    exact hgone hq' _
  rw [hview.getElement, hbefore] at hafter
  cases hafter

/-- **Separation.** Two repositories with the same `Directory` do not interfere if the names of
    their model types differ; and if models can be read back, only then, unless neither type has
    any value. -/
theorem separate_iff (repoA : FileSystemRepository A Data) (repoB : FileSystemRepository B Data)
    (env : Environment IdA) (hashB : IdB → Int) (hdirectory : repoA.directory = repoB.directory)
    (hq : env.Quiet) (fm : FileManager Data) :
    (repoA.describingModel ≠ repoB.describingModel → Separate repoA repoB env hashB fm) ∧
      ((∀ model, repoA.decode (repoA.encode model) = some model) →
        (∀ model, repoB.decode (repoB.encode model) = some model) →
        (Separate repoA repoB env hashB fm ↔
          repoA.describingModel ≠ repoB.describingModel ∨ IsEmpty A ∧ IsEmpty B)) := by
  have hqB : (env.forIds hashB).Quiet := hq
  have hbase : FileSystemRepository.getBaseURL env repoA.directory
      = FileSystemRepository.getBaseURL (env.forIds hashB) repoB.directory := by
    rw [hdirectory]
    cases repoB.directory <;> rfl
  have hfolders : repoA.getDirectoryURL env = repoB.getDirectoryURL (env.forIds hashB) ↔
      repoA.describingModel = repoB.describingModel := by
    rw [FileSystemRepository.getDirectoryURL, FileSystemRepository.getDirectoryURL, hbase]
    simp
  have hseparate : repoA.describingModel ≠ repoB.describingModel →
      Separate repoA repoB env hashB fm := by
    intro hname ops
    have hne := mt hfolders.mp hname
    exact ⟨fun op => FileSystemRepository.sameView_of_listing hqB
        (FileSystemRepository.step_listing (Ne.symm hne) _ op),
      fun op => FileSystemRepository.sameView_of_listing hq
        (FileSystemRepository.step_listing hne _ op)⟩
  refine ⟨hseparate, fun hcodecA hcodecB => ⟨fun h => ?_, fun h => ?_⟩⟩
  · by_cases hname : repoA.describingModel = repoB.describingModel
    · have hsame := hfolders.mpr hname
      refine Or.inr ⟨⟨fun model => ?_⟩, ⟨fun model => ?_⟩⟩
      · exact not_sameView_deleteAll hq hqB hsame.symm hcodecA model fm
          ((h [.inl .deleteAll, .inl (.create model)]).2 .deleteAll)
      · exact not_sameView_deleteAll hqB hq hsame hcodecB model fm
          ((h [.inr .deleteAll, .inr (.create model)]).1 .deleteAll)
    · exact Or.inl hname
  · rcases h with hname | ⟨hA, hB⟩
    · exact hseparate hname
    · -- nothing can be read of a type without values
      exact fun ops =>
        ⟨fun op => ⟨fun _ => Subsingleton.elim _ _, List.Perm.of_eq (Subsingleton.elim _ _)⟩,
          fun op => ⟨fun _ => Subsingleton.elim _ _, List.Perm.of_eq (Subsingleton.elim _ _)⟩⟩

end Pair

namespace Sample

/-- Another type `Employee`, nested in `Archive`: `String(describing:)` drops the scope. -/
structure Archive.Employee where
  number : Nat

instance : IdentifiableCodable Archive.Employee Nat where
  id := Archive.Employee.number

/-- The repository of the archived employees, next to the one of the employees. -/
def Archive.employees : FileSystemRepository Archive.Employee (List Nat) where
  directory := .caches
  decode
    | [number] => some ⟨number⟩
    | _ => none
  encode employee := [employee.number]
  describingModel := "Employee"

end Sample

/-- Under another name, the archived employees do not interfere with the employees. -/
theorem separate_renamedEmployees :
    Separate Sample.employees { Sample.Archive.employees with describingModel := "Pensioner" }
      (Sample.process Int.ofNat) Int.ofNat Sample.blank :=
  ((separate_iff Sample.employees { Sample.Archive.employees with describingModel := "Pensioner" }
    (Sample.process Int.ofNat) Int.ofNat rfl (Sample.process_quiet Int.ofNat) Sample.blank).2
      Sample.employees_codec fun _ => rfl).mpr (Or.inl (by decide))

/-- Deleting the archived employees deletes the stored employee. -/
theorem not_separate_employees :
    ¬ Separate Sample.employees Sample.Archive.employees (Sample.process Int.ofNat) Int.ofNat
      Sample.blank := by
  intro h
  have hview := ((h [.inl (.create ⟨1, 21⟩)]).2 .deleteAll).getElement (.modelId 1)
  cases hview

end QBRepository
