import QBRepository.FileSystem.Run

namespace QBRepository

/-!
# `getElement` and `getAll` on any directory

`getElement` reads one file and `getAll` all of them; a file that does not decode costs the
former one model, and the latter all models.

`readsAgree_iff` — every model found by its id is listed exactly when the whole directory
decodes, or no id finds a model.
-/

variable {Id Model Data : Type}

namespace FileSystemRepository

variable (repo : FileSystemRepository Model Data) (env : Environment Id) (fm : FileManager Data)

/-- Every model found by an id is listed. -/
def ReadsAgree : Prop :=
  ∀ anyId model, repo.getElement env anyId fm = some model →
    model ∈ ((repo.getAll env).run fm).1

/-- A model is looked up in the file of its id. -/
theorem getElement_modelId (id : Id) :
    repo.getElement env (.modelId id) fm = repo.modelAt fm (repo.fileURL env id) := by
  rw [getElement, modelAt]
  cases fm.contents (repo.fileURL env id) with
  | none => rfl
  | some data => rfl

variable {repo env fm}

/-- A directory with a listed model could be listed, and all of its files decode. -/
theorem readable_of_mem_getAll {model : Model} (hmodel : model ∈ ((repo.getAll env).run fm).1) :
    env.fault fm.calls = none ∧ ∀ name, repo.Readable fm ⟨repo.getDirectoryURL env, name⟩ := by
  cases hlist : env.fault fm.calls with
  | some error =>
    rw [repo.getAll_of_fault env hlist] at hmodel
    exact absurd hmodel List.not_mem_nil
  | none =>
    obtain ⟨names, fm', hrun, -, hnames⟩ := repo.getAll_spec env fm hlist
    rw [hrun] at hmodel
    split at hmodel
    · rename_i hreadable
      refine ⟨rfl, fun name data hdata => hreadable name ((hnames name).mpr ?_) data hdata⟩
      rw [FileManager.node_of_contents hdata]
      rfl
    · exact absurd hmodel List.not_mem_nil

/-- **Every model found by its id is listed** exactly when no id finds a model, or the directory
    can be listed and all of its files decode. -/
theorem readsAgree_iff : repo.ReadsAgree env fm ↔
    (∀ id, repo.modelAt fm (repo.fileURL env id) = none) ∨
      env.fault fm.calls = none ∧ ∀ name, repo.Readable fm ⟨repo.getDirectoryURL env, name⟩ := by
  constructor
  · intro h
    refine or_iff_not_imp_left.mpr fun hfound => ?_
    obtain ⟨id, hid⟩ := not_forall.mp hfound
    obtain ⟨model, hmodel⟩ := Option.ne_none_iff_exists'.mp hid
    exact readable_of_mem_getAll (h (.modelId id) model
      ((repo.getElement_modelId env fm id).trans hmodel))
  · rintro h (id | _) model hmodel
    · rw [getElement_modelId] at hmodel
      rcases h with hnone | ⟨hlist, hreadable⟩
      · rw [hnone id] at hmodel
        exact absurd hmodel.symm (Option.some_ne_none model)
      · obtain ⟨names, fm', hrun, -, hnames⟩ := repo.getAll_spec env fm hlist
        rw [hrun, if_pos fun name _ => hreadable name]
        obtain ⟨data, hdata, -⟩ := Option.bind_eq_some_iff.mp hmodel
        refine List.mem_filterMap.mpr ⟨fileName env id, (hnames _).mpr ?_, hmodel⟩
        show (fm.node (repo.fileURL env id)).isSome = true
        rw [FileManager.node_of_contents hdata]
        rfl
    · -- an id of another type finds nothing
      exact absurd hmodel.symm (Option.some_ne_none model)

end FileSystemRepository

namespace Sample

/-- An employee is stored beside a file of another kind. -/
def withForeignFile : FileManager (List Nat) :=
  (employees.run (process Int.ofNat) blank [.create ⟨1, 30⟩]).modifyListing
    (employees.getDirectoryURL (process Int.ofNat)) (AList.insert "notes" (.file [7]))

end Sample

/-- The employee is found by the number, but not listed. -/
theorem not_readsAgree_withForeignFile :
    ¬ Sample.employees.ReadsAgree (Sample.process Int.ofNat) Sample.withForeignFile := by
  intro h
  have hmem : (⟨1, 30⟩ : Sample.Employee) ∈ [] := h (.modelId 1) ⟨1, 30⟩ rfl
  exact List.not_mem_nil hmem

end QBRepository
