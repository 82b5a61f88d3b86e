import QBRepository.FileSystem.Repository

namespace QBRepository

open IdentifiableCodable renaming id → idOf

/-!
# Deleting a list of models

`delete(_ models:)` deletes one model after another and does not stop at an error.  A repeated id is
deleted again, on what the earlier attempts have left.

* `removals` — the removals such a call attempts, each with the error it throws;
* `deleteList_cons` — the first model, then the others;
* `deleteList_node` — a node is gone exactly if some attempt on it has succeeded;
* `deleteList_attemptsEach` — every element is attempted, and the first error is reported.
-/

variable {Id Model Data : Type} [IdentifiableCodable Model Id]

/-- An attempted `removeItem` of the file of a model, with the error it throws. -/
structure Removal (Model : Type) where
  model : Model
  error : Option FileSystemError

namespace FileSystemRepository

variable (repo : FileSystemRepository Model Data) (env : Environment Id)

/-- The removals attempted when models are deleted one after another: one for each model whose file
    is there when its turn comes. -/
def removals : FileManager Data → List Model → List (Removal Model)
  | _, [] => []
  | fm, model :: models =>
    let later := removals ((repo.delete env model).run fm).2 models
    if fm.fileExists (repo.fileURL env (idOf model)) then
      ⟨model, env.fault fm.calls⟩ :: later
    else later

/-- What it means that deleting a list attempts every element of it. -/
structure AttemptsEach (models : List Model) (fm : FileManager Data) : Prop where
  /-- the attempts are made in the order of the list -/
  order : ((repo.removals env fm models).map Removal.model).Sublist models
  /-- they are all the calls there are, each with the error of that call -/
  calls : ((repo.deleteList env models).run fm).2.calls
    = fm.calls + (repo.removals env fm models).length
  errors : (repo.removals env fm models).map Removal.error
    = (List.range' fm.calls (repo.removals env fm models).length).map env.fault
  attempted : ∀ model ∈ models, fm.fileExists (repo.fileURL env (idOf model)) = true →
    ∃ removal ∈ repo.removals env fm models,
      repo.fileURL env (idOf removal.model) = repo.fileURL env (idOf model)
  /-- a file is there afterwards exactly if it was and every attempt on it has failed -/
  files : ∀ url, ((repo.deleteList env models).run fm).2.fileExists url = true ↔
    fm.fileExists url = true ∧ ∀ removal ∈ repo.removals env fm models,
      repo.fileURL env (idOf removal.model) = url → removal.error ≠ none
  contents : ∀ url, ((repo.deleteList env models).run fm).2.fileExists url = true →
    ((repo.deleteList env models).run fm).2.node url = fm.node url
  others : ∀ url, (∀ model ∈ models, repo.fileURL env (idOf model) ≠ url) →
    ((repo.deleteList env models).run fm).2.node url = fm.node url
  firstError : ((repo.deleteList env models).run fm).1
    = (repo.removals env fm models).findSome? Removal.error
  success : ((repo.deleteList env models).run fm).1 = none ↔
    ∀ removal ∈ repo.removals env fm models, removal.error = none

variable {fm : FileManager Data}

/-! ### One model, then the others -/

/-- A file that exists is removed. -/
theorem removals_cons_of_exists {model : Model} (models : List Model)
    (h : fm.fileExists (repo.fileURL env (idOf model)) = true) :
    repo.removals env fm (model :: models) = ⟨model, env.fault fm.calls⟩ ::
      repo.removals env ((repo.delete env model).run fm).2 models := by
  simp only [removals, h, if_true]

/-- A file that does not exist is passed over. -/
theorem removals_cons_of_absent {model : Model} (models : List Model)
    (h : fm.fileExists (repo.fileURL env (idOf model)) = false) :
    repo.removals env fm (model :: models)
      = repo.removals env ((repo.delete env model).run fm).2 models := by
  simp only [removals, h, Bool.false_eq_true, if_false]

/-- Deleting the first model, and then the others whatever became of it. -/
theorem deleteList_cons (model : Model) (models : List Model) (fm : FileManager Data) :
    (repo.deleteList env (model :: models)).run fm =
      (((repo.delete env model).run fm).1.or
        ((repo.deleteList env models).run ((repo.delete env model).run fm).2).1,
       ((repo.deleteList env models).run ((repo.delete env model).run fm).2).2) := by
  have hrun : (repo.deleteList env (model :: models)).run fm =
      (((((repo.delete env model).run fm).1 ::
          ((models.mapM (repo.delete env)).run ((repo.delete env model).run fm).2).1).filterMap
            fun result => result).head?,
        ((models.mapM (repo.delete env)).run ((repo.delete env model).run fm).2).2) := by
    rw [deleteList, List.mapM_cons]
    rfl
  rw [hrun]
  cases ((repo.delete env model).run fm).1 <;> rfl

/-- Only a file that exists takes a call to remove it. -/
theorem delete_calls (model : Model) (fm : FileManager Data) :
    ((repo.delete env model).run fm).2.calls
      = fm.calls + if fm.fileExists (repo.fileURL env (idOf model)) then 1 else 0 := by
  obtain ⟨fm', hrun, -, hcalls⟩ := repo.delete_spec env model fm
  rw [hrun]
  exact hcalls

/-- What one call leaves of a node: nothing if it removes it, otherwise what was there. -/
theorem delete_node (model : Model) (fm : FileManager Data) (url : FileURL) :
    ((repo.delete env model).run fm).2.node url =
      if repo.fileURL env (idOf model) = url ∧ repo.removalError env model fm = none then none
      else fm.node url := by
  obtain ⟨fm', hrun, hnode, -⟩ := repo.delete_spec env model fm
  rw [hrun, hnode]
  cases repo.removalError env model fm with
  | some error => rw [if_neg fun h => Option.some_ne_none error h.2]
  | none =>
    show Function.update fm.node (repo.fileURL env (idOf model)) none url = _
    by_cases hurl : repo.fileURL env (idOf model) = url
    · rw [if_pos ⟨hurl, rfl⟩, hurl, Function.update_self]
    · rw [if_neg fun h => hurl h.1, Function.update_of_ne (Ne.symm hurl)]

/-! ### What is attempted -/

/-- Every removal of the list is that of one of its models, in its place. -/
theorem removals_sublist (models : List Model) :
    ((repo.removals env fm models).map Removal.model).Sublist models := by
  induction models generalizing fm with
  | nil => exact List.Sublist.slnil
  | cons model models ih =>
    cases hex : fm.fileExists (repo.fileURL env (idOf model)) with
    | false =>
      rw [repo.removals_cons_of_absent env models hex]
      exact ih.cons model
    | true =>
      rw [repo.removals_cons_of_exists env models hex, List.map_cons]
      exact ih.cons_cons model

/-- Each attempt is one call, and there are no others. -/
theorem deleteList_calls (models : List Model) (fm : FileManager Data) :
    ((repo.deleteList env models).run fm).2.calls
        = fm.calls + (repo.removals env fm models).length ∧
      (repo.removals env fm models).map Removal.error
        = (List.range' fm.calls (repo.removals env fm models).length).map env.fault := by
  induction models generalizing fm with
  | nil => exact ⟨rfl, rfl⟩
  | cons model models ih =>
    obtain ⟨hcalls, herrors⟩ := ih ((repo.delete env model).run fm).2
    rw [deleteList_cons]
    rw [delete_calls] at hcalls herrors
    cases hex : fm.fileExists (repo.fileURL env (idOf model)) with
    | false =>
      rw [repo.removals_cons_of_absent env models hex]
      rw [hex] at hcalls herrors
      exact ⟨hcalls, herrors⟩
    | true =>
      rw [repo.removals_cons_of_exists env models hex, List.length_cons, List.range'_succ,
        List.map_cons, List.map_cons]
      rw [hex] at hcalls herrors
      simp only [if_true] at hcalls herrors
      exact ⟨by rw [hcalls]; omega, by rw [herrors]⟩

/-- **The error** is that of the first attempt that fails. -/
theorem deleteList_result (models : List Model) (fm : FileManager Data) :
    ((repo.deleteList env models).run fm).1
      = (repo.removals env fm models).findSome? Removal.error := by
  induction models generalizing fm with
  | nil => rfl
  | cons model models ih =>
    obtain ⟨fm', hrun, -⟩ := repo.delete_spec env model fm
    rw [deleteList_cons, ih, hrun, removalError]
    cases hex : fm.fileExists (repo.fileURL env (idOf model)) with
    | false =>
      rw [repo.removals_cons_of_absent env models hex, hrun]
      rfl
    | true =>
      rw [repo.removals_cons_of_exists env models hex, hrun, List.findSome?_cons]
      cases env.fault fm.calls <;> rfl

/-- **What is left of a node**: nothing if some attempt on it has succeeded, otherwise what was
    there. -/
theorem deleteList_node (models : List Model) (fm : FileManager Data) (url : FileURL) :
    ((repo.deleteList env models).run fm).2.node url =
      if ∃ removal ∈ repo.removals env fm models,
        repo.fileURL env (idOf removal.model) = url ∧ removal.error = none then none
      else fm.node url := by
  induction models generalizing fm with
  | nil => rfl
  | cons model models ih =>
    rw [deleteList_cons, ih, delete_node, removalError]
    cases hex : fm.fileExists (repo.fileURL env (idOf model)) with
    | false =>
      rw [repo.removals_cons_of_absent env models hex]
      -- no call is made, and there is no such node to begin with
      have habs : fm.node (repo.fileURL env (idOf model)) = none := by
        simpa [FileManager.fileExists] using hex
      congr 1
      by_cases hurl : repo.fileURL env (idOf model) = url
      · rw [← hurl, habs, ite_self]
      · rw [if_neg fun h => hurl h.1]
    | true =>
      rw [repo.removals_cons_of_exists env models hex]
      simp only [List.exists_mem_cons_iff, if_true]
      by_cases hlater : ∃ removal ∈ repo.removals env ((repo.delete env model).run fm).2 models,
          repo.fileURL env (idOf removal.model) = url ∧ removal.error = none
      · rw [if_pos hlater, if_pos (Or.inr hlater)]
      · rw [if_neg hlater]
        simp only [hlater, or_false]

/-- Removals of later files are removals of the list. -/
theorem mem_removals_cons {removal : Removal Model} {model : Model} {models : List Model}
    (h : removal ∈ repo.removals env ((repo.delete env model).run fm).2 models) :
    removal ∈ repo.removals env fm (model :: models) := by
  cases hex : fm.fileExists (repo.fileURL env (idOf model)) with
  | false => rwa [repo.removals_cons_of_absent env models hex]
  | true =>
    rw [repo.removals_cons_of_exists env models hex]
    exact List.mem_cons_of_mem _ h

/-- Every element whose file is there to begin with has its file attempted. -/
theorem exists_removal (models : List Model) {model : Model} (hmem : model ∈ models)
    (hex : fm.fileExists (repo.fileURL env (idOf model)) = true) :
    ∃ removal ∈ repo.removals env fm models,
      repo.fileURL env (idOf removal.model) = repo.fileURL env (idOf model) := by
  induction models generalizing fm with
  | nil => exact absurd hmem (List.not_mem_nil)
  | cons first models ih =>
    by_cases hurl : repo.fileURL env (idOf first) = repo.fileURL env (idOf model)
    · -- the first model is the one, or bears its file
      rw [← hurl] at hex ⊢
      rw [repo.removals_cons_of_exists env models hex]
      exact ⟨_, List.mem_cons_self, rfl⟩
    · have hne : model ≠ first := fun h => hurl (by rw [h])
      have hex' : ((repo.delete env first).run fm).2.fileExists (repo.fileURL env (idOf model))
          = true := by
        rw [FileManager.fileExists, delete_node, if_neg fun h => hurl h.1]
        exact hex
      obtain ⟨removal, hlater, hfile⟩ := ih ((List.mem_cons.mp hmem).resolve_left hne) hex'
      exact ⟨removal, repo.mem_removals_cons env hlater, hfile⟩

/-! ### The whole call -/

/-- **Deleting a list** attempts every element of it, whichever calls fail: only where all attempts
    on a file have failed is it still there, and the first failure is what is reported. -/
theorem deleteList_attemptsEach (models : List Model) (fm : FileManager Data) :
    repo.AttemptsEach env models fm := by
  have hresult := repo.deleteList_result env models fm
  have hnode := repo.deleteList_node env models fm
  obtain ⟨hcalls, herrors⟩ := repo.deleteList_calls env models fm
  refine ⟨repo.removals_sublist env models, hcalls, herrors,
    fun model hmem => repo.exists_removal env models hmem, fun url => ?_, fun url h => ?_,
    fun url hothers => ?_, hresult, ?_⟩
  · rw [FileManager.fileExists, FileManager.fileExists, hnode url]
    split
    next hgone =>
      obtain ⟨removal, hmem, hfile, hnone⟩ := hgone
      exact iff_of_false (by simp) fun h => h.2 removal hmem hfile hnone
    next hkept =>
      exact (and_iff_left fun removal hmem hfile hnone =>
        hkept ⟨removal, hmem, hfile, hnone⟩).symm
  · rw [FileManager.fileExists, hnode url] at h
    rw [hnode url]
    split at h
    next => exact absurd h (by simp)
    next hkept => rw [if_neg hkept]
  · rw [hnode url]
    refine if_neg fun hgone => ?_
    obtain ⟨removal, hmem, hfile, -⟩ := hgone
    exact hothers removal.model
      ((repo.removals_sublist env models).subset (List.mem_map_of_mem hmem)) hfile
  · rw [hresult, List.findSome?_eq_none_iff]

end FileSystemRepository

end QBRepository
