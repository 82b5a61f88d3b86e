import QBRepository.FileSystem.Run

namespace QBRepository

open IdentifiableCodable renaming id → idOf

/-!
# What `create` reports when calls fail

`createDirectory`, `encode` and `removeItem` throw, and `create` reports their errors.
`createFile` answers `false` instead, which nobody looks at; and the batch overload looks for the
first success where it should look for the first error.

* `tellsTruth_iff` — a success means stored, and an error means unchanged, exactly if the file is
  created whenever no call before that throws;
* `reportsFailures_iff` — a batch reports its first error exactly if it has none.
-/

variable {Id Model Data : Type} [IdentifiableCodable Model Id]

namespace FileSystemRepository

variable (repo : FileSystemRepository Model Data) (env : Environment Id)

/-! ### One model -/

/-- If `create` reports success, its model is found under its id; if it reports an error, every
    file has the content it had. -/
structure TellsTruth (model : Model) (fm : FileManager Data) : Prop where
  onSuccess : ∀ created, ((repo.create env model).run fm).1 = .success created →
    repo.getElement env (.modelId (idOf model)) ((repo.create env model).run fm).2 = some model
  onError : ∀ error, ((repo.create env model).run fm).1 = .error error →
    ∀ url, ((repo.create env model).run fm).2.contents url = fm.contents url

variable {repo env} {fm : FileManager Data}

omit [IdentifiableCodable Model Id] in
/-- A lookup decodes the file of its id, if there is one. -/
theorem getElement_of_file {k : Id} {data : Data}
    (h : fm.node (repo.fileURL env k) = some (.file data)) :
    repo.getElement env (.modelId k) fm = repo.decode data := by
  simp only [getElement, FileManager.contents, h]

omit [IdentifiableCodable Model Id] in
/-- Without an entry nothing is found. -/
theorem getElement_of_absent {k : Id} (h : fm.node (repo.fileURL env k) = none) :
    repo.getElement env (.modelId k) fm = none := by
  simp only [getElement, FileManager.contents, h]

/-- **`create` tells the truth** exactly if `createFile` does not fail after everything before it
    has succeeded. -/
theorem tellsTruth_iff {model : Model} (hcodec : repo.decode (repo.encode model) = some model)
    (fm : FileManager Data) : repo.TellsTruth env model fm ↔
      (repo.createError env model fm = none → repo.createFileFault env model fm = none) := by
  rcases repo.create_spec env model fm with
    ⟨error, fm', herror, hrun, hnode⟩ | ⟨fm', herror, hrun, hnode⟩
  · refine iff_of_true ⟨fun created h => ?_, fun error' _ url => ?_⟩ fun h => ?_
    · rw [hrun] at h
      cases h
    · rw [hrun, FileManager.contents, FileManager.contents, hnode]
    · rw [herror] at h
      cases h
  · have hself := (congrFun hnode (repo.fileURL env (idOf model))).trans (Function.update_self ..)
    rw [forall_prop_of_true herror]
    cases hfault : repo.createFileFault env model fm with
    | none =>
      rw [hfault] at hself
      refine iff_of_true ⟨fun _ _ => ?_, fun error h => ?_⟩ rfl
      · rw [hrun]
        exact (getElement_of_file hself).trans hcodec
      · rw [hrun] at h
        cases h
    | some error =>
      -- the previous version is gone, and the new one is not there
      rw [hfault] at hself
      refine iff_of_false (fun h => ?_) (Option.some_ne_none error)
      have hfound := h.onSuccess model (by rw [hrun])
      rw [hrun] at hfound
      exact Option.some_ne_none model (hfound.symm.trans (getElement_of_absent hself))

end FileSystemRepository

namespace Sample

/-- A process in which the `n`-th call fails. -/
def failing (n : Nat) : Environment Nat :=
  { process Int.ofNat with fault := fun k => if k = n then some (.failure 0) else none }

/-- Employee `1` at the age of 21 is stored; three calls have been made. -/
def stored : FileManager (List Nat) := employees.run (process Int.ofNat) blank [.create ⟨1, 21⟩]

end Sample

namespace FileSystemRepository

/-- Where the fourth call fails, `createDirectory`, the stored employee stays. -/
theorem tellsTruth_employees :
    Sample.employees.TellsTruth (Sample.failing 3) ⟨1, 22⟩ Sample.stored :=
  (tellsTruth_iff (Sample.employees_codec _) Sample.stored).mpr fun h => (by cases h)

/-- Where the seventh call fails, `createFile`, the stored employee is lost and a success is
    reported. -/
theorem not_tellsTruth_employees :
    ¬ ∀ (env : Environment Nat) (employee : Sample.Employee) (fm : FileManager (List Nat)),
      Sample.employees.TellsTruth env employee fm := by
  intro h
  have hfound : none = some (⟨1, 22⟩ : Sample.Employee) :=
    (h (Sample.failing 6) ⟨1, 22⟩ Sample.stored).onSuccess ⟨1, 22⟩ rfl
  cases hfound

/-! ### A batch -/

section Batch

variable (repo : FileSystemRepository Model Data) (env : Environment Id)

/-- The file system after creating models one after another. -/
def createEach (fm : FileManager Data) (models : List Model) : FileManager Data :=
  models.foldl (fun fm model => ((repo.create env model).run fm).2) fm

/-- The results of creating models one after another. -/
def createResults : FileManager Data → List Model →
    List (RepositoryEditResult FileSystemError Model)
  | _, [] => []
  | fm, model :: models =>
    ((repo.create env model).run fm).1 :: createResults ((repo.create env model).run fm).2 models

omit [IdentifiableCodable Model Id] in
/-- The error of the first result that is one. -/
def firstError (results : List (RepositoryEditResult FileSystemError Model)) :
    Option FileSystemError :=
  results.findSome? fun result =>
    match result with
    | .error error => some error
    | .success _ => none

/-- A batch leaves what creating its models one after another leaves, and reports the first error
    of that, if there is one. -/
structure ReportsFailures (models : List Model) (fm : FileManager Data) : Prop where
  directory : ((repo.createAll env models).run fm).2 = repo.createEach env fm models
  result : ((repo.createAll env models).run fm).1 =
    match firstError (repo.createResults env fm models) with
    | some error => .error error
    | none => .success models

omit [IdentifiableCodable Model Id] in
/-- What is found first is a success, so a success is what a batch reports. -/
theorem batchResult_eq (models : List Model)
    (results : List (RepositoryEditResult FileSystemError Model)) :
    batchResult models results = .success models := by
  simp only [batchResult]
  split
  next error hfirst =>
    have hfound := List.find?_some hfirst
    cases hfound
  next => rfl

variable {repo env} {fm : FileManager Data}

/-- The single results have no error exactly if no call throws on the way. -/
theorem firstError_createResults (models : List Model) :
    firstError (repo.createResults env fm models) = none ↔
      ∀ pre model post, models = pre ++ model :: post →
        repo.createError env model (repo.createEach env fm pre) = none := by
  induction models generalizing fm with
  | nil => exact iff_of_true rfl fun pre model post h => by simp at h
  | cons model models ih =>
    have hone : (∃ error, ((repo.create env model).run fm).1 = .error error ∧
        repo.createError env model fm ≠ none) ∨
        ((repo.create env model).run fm).1 = .success model ∧
        repo.createError env model fm = none := by
      rcases repo.create_spec env model fm with
        ⟨error, fm', herror, hrun, -⟩ | ⟨fm', herror, hrun, -⟩
      · exact Or.inl ⟨error, by rw [hrun], herror ▸ Option.some_ne_none error⟩
      · exact Or.inr ⟨by rw [hrun], herror⟩
    rw [createResults, firstError, List.findSome?_cons]
    rcases hone with ⟨error, hresult, herror⟩ | ⟨hresult, herror⟩
    · rw [hresult]
      exact iff_of_false (Option.some_ne_none error) fun h => herror (h [] model models rfl)
    · rw [hresult]
      refine ih.trans ⟨fun h pre model' post hsplit => ?_, fun h pre model' post hsplit => ?_⟩
      · rcases List.cons_eq_append_iff.mp hsplit with ⟨rfl, hfirst⟩ | ⟨pre, rfl, hlater⟩
        · obtain ⟨rfl, -⟩ := List.cons.inj hfirst
          exact herror
        · exact h pre model' post hlater
      · exact h (model :: pre) model' post (congrArg (model :: ·) hsplit)

/-- **A batch reports its failures** exactly if there are none: the calls before `createFile`
    succeed for each model when its turn comes. -/
theorem reportsFailures_iff (repo : FileSystemRepository Model Data) (env : Environment Id)
    (models : List Model) (fm : FileManager Data) : repo.ReportsFailures env models fm ↔
      ∀ pre model post, models = pre ++ model :: post →
        repo.createError env model (repo.createEach env fm pre) = none := by
  have hdirectory : ((repo.createAll env models).run fm).2 = repo.createEach env fm models :=
    repo.step_createAll env fm models
  have hresult : ((repo.createAll env models).run fm).1 = .success models :=
    batchResult_eq models _
  rw [← firstError_createResults]
  constructor
  · intro h
    have hreported := h.result
    rw [hresult] at hreported
    cases hfirst : firstError (repo.createResults env fm models) with
    | none => rfl
    | some error =>
      rw [hfirst] at hreported
      cases hreported
  · intro h
    exact ⟨hdirectory, by rw [hresult, h]⟩

/-- The first of two models fails, and a success is reported for both. -/
theorem not_reportsFailures_employees :
    ¬ ∀ (env : Environment Nat) (employees : List Sample.Employee) (fm : FileManager (List Nat)),
      Sample.employees.ReportsFailures env employees fm := by
  intro h
  have hreported := (h (Sample.failing 0) [⟨1, 21⟩, ⟨2, 24⟩] Sample.blank).result
  cases hreported

end Batch

end FileSystemRepository

end QBRepository
