import QBRepository.FileSystem.Refinement

namespace QBRepository

open IdentifiableCodable renaming id → idOf

/-!
# When distinct ids alias in `FileSystemRepository`

A file is named after the hash of an id, not after the id.  `KeepsIdsApart` is the frame
law of the repository: calls for one id leave the other ids alone, and a lookup returns a
model with the id it was asked for, in every reachable store and whichever calls fail.

`keepsIdsApart_iff` — the law holds exactly when no id has the hash value of another id that is in
use.  One direction is an invariant of the directory that survives failing calls
(`FilesNamedById`); for the other, storing the model of the other id is enough.
-/

variable {Id Model Data : Type} [IdentifiableCodable Model Id]

namespace FileSystemRepository

variable (repo : FileSystemRepository Model Data)

/-- In every store reached from a fresh one by calls on models of `models`, a lookup of any id
    returns a model with the id asked for, and creating, updating or deleting a model with another
    id does not change what it returns. -/
def KeepsIdsApart (hashValue : Id → Int) (models : Set Model) : Prop :=
  ∀ env : Environment Id, env.hashValue = hashValue →
  ∀ fm : FileManager Data, fm.Fresh (repo.getDirectoryURL env) →
  ∀ ops : List (Op Model), modelsUsed ops ⊆ models →
  ∀ x : Id,
    (∀ model, repo.getElement env (.modelId x) (repo.run env fm ops) = some model →
      idOf model = x) ∧
    ∀ model ∈ models, idOf model ≠ x →
      ∀ op ∈ [Op.create model, Op.update model, Op.delete model],
        repo.getElement env (.modelId x) (repo.step env (repo.run env fm ops) op)
          = repo.getElement env (.modelId x) (repo.run env fm ops)

variable {repo} {env : Environment Id} {models : Set Model} {fm : FileManager Data}

/-- Every file of the repository holds a model of `models` and bears the name of its id. -/
def FilesNamedById (repo : FileSystemRepository Model Data) (env : Environment Id)
    (models : Set Model) (fm : FileManager Data) : Prop :=
  ∀ name data, fm.node ⟨repo.getDirectoryURL env, name⟩ = some (.file data) →
    ∃ model ∈ models, repo.encode model = data ∧ fileName env (idOf model) = name

/-- An update of one location to a model of the right name, or to nothing, keeps the names. -/
theorem FilesNamedById.update {fm' : FileManager Data} (h : FilesNamedById repo env models fm)
    {model : Model} (hm : model ∈ models) {new : Option (Node Data)}
    (hnew : new = some (.file (repo.encode model)) ∨ new = none)
    (hnode : fm'.node = Function.update fm.node (repo.fileURL env (idOf model)) new) :
    FilesNamedById repo env models fm' := by
  intro name data hfile
  by_cases hu : (⟨repo.getDirectoryURL env, name⟩ : FileURL) = repo.fileURL env (idOf model)
  · rw [hnode, hu, Function.update_self] at hfile
    rcases hnew with rfl | rfl
    · simp only [Option.some.injEq, Node.file.injEq] at hfile
      exact ⟨model, hm, hfile, (FileURL.mk.inj hu).2.symm⟩
    · simp at hfile
  · rw [hnode, Function.update_of_ne hu] at hfile
    exact h name data hfile

/-- What a call on `model` may do to the files, whichever calls fail. -/
theorem step_single_node (repo : FileSystemRepository Model Data) (env : Environment Id)
    {model : Model} {op : Op Model}
    (hop : op ∈ [Op.create model, Op.update model, Op.delete model]) (fm : FileManager Data) :
    ∃ new, (new = some (.file (repo.encode model)) ∨ new = none ∨
        new = fm.node (repo.fileURL env (idOf model))) ∧
      (repo.step env fm op).node
        = Function.update fm.node (repo.fileURL env (idOf model)) new := by
  have hcreate : ∃ new, (new = some (.file (repo.encode model)) ∨ new = none ∨
        new = fm.node (repo.fileURL env (idOf model))) ∧
      (repo.step env fm (.create model)).node
        = Function.update fm.node (repo.fileURL env (idOf model)) new := by
    rcases repo.create_cases env model fm with ⟨fm', hrun, hnode | ⟨_, hnode⟩⟩ |
      ⟨_, fm', hrun, _, hnode⟩
    · exact ⟨_, Or.inl rfl, by simpa only [step, hrun] using hnode⟩
    · exact ⟨_, Or.inr (Or.inl rfl), by simpa only [step, hrun] using hnode⟩
    · exact ⟨_, Or.inr (Or.inr rfl),
        by simpa only [step, hrun, Function.update_eq_self] using hnode⟩
  simp only [List.mem_cons, List.not_mem_nil, or_false] at hop
  -- `update` is `create`
  rcases hop with rfl | rfl | rfl
  · exact hcreate
  · exact hcreate
  · rcases repo.delete_cases env model fm with ⟨fm', hrun, hnode⟩ | ⟨_, fm', hrun, _, hnode⟩
    · exact ⟨_, Or.inr (Or.inl rfl), by simpa only [step, hrun] using hnode⟩
    · exact ⟨_, Or.inr (Or.inr rfl),
        by simpa only [step, hrun, Function.update_eq_self] using hnode⟩

/-- A single call keeps the names. -/
theorem FilesNamedById.step (h : FilesNamedById repo env models fm) {model : Model}
    (hm : model ∈ models) {op : Op Model}
    (hop : op ∈ [Op.create model, Op.update model, Op.delete model]) :
    FilesNamedById repo env models (repo.step env fm op) := by
  obtain ⟨new, hnew, hnode⟩ := step_single_node repo env hop fm
  rcases hnew with hnew | hnew | hnew
  · exact h.update hm (Or.inl hnew) hnode
  · exact h.update hm (Or.inr hnew) hnode
  · rw [hnew, Function.update_eq_self] at hnode
    intro name data hfile
    exact h name data (by rw [← hnode]; exact hfile)

/-- Files keep their names in every run, with or without failing calls. -/
theorem FilesNamedById.run (h : FilesNamedById repo env models fm) (ops : List (Op Model))
    (hops : modelsUsed ops ⊆ models) : FilesNamedById repo env models (repo.run env fm ops) := by
  classical
  refine run_simulates (R := fun fm _ => FilesNamedById repo env models fm)
    (fun fm _ model hm h => h.step hm (by simp)) (fun fm _ model hm h => h.step hm (by simp))
    (fun fm _ h => ?_) ops hops (fun _ => none) h
  obtain ⟨result, fm', hrun, hframe, _⟩ := repo.deleteAll_cases env fm
  intro name data hfile
  simp only [FileSystemRepository.step, hrun] at hfile
  rcases hframe ⟨repo.getDirectoryURL env, name⟩ with hsame | ⟨_, hnone⟩
  · exact h name data (hsame ▸ hfile)
  · rw [hnone] at hfile
    simp at hfile

omit [IdentifiableCodable Model Id] in
/-- What a lookup returns was read from a file of the repository. -/
theorem getElement_eq_some {k : Id} {model : Model}
    (h : repo.getElement env (.modelId k) fm = some model) :
    ∃ data, fm.node (repo.fileURL env k) = some (.file data) ∧ repo.decode data = some model := by
  simp only [getElement, FileManager.contents] at h
  cases hnode : fm.node (repo.fileURL env k) with
  | none => simp [hnode] at h
  | some node =>
    cases node with
    | directory => simp [hnode] at h
    | file data => exact ⟨data, rfl, by simpa [hnode] using h⟩

omit [IdentifiableCodable Model Id] in
/-- Lookups depend on the file of the id only. -/
theorem getElement_congr {fm' : FileManager Data} {k : Id}
    (h : fm'.node (repo.fileURL env k) = fm.node (repo.fileURL env k)) :
    repo.getElement env (.modelId k) fm' = repo.getElement env (.modelId k) fm := by
  simp only [getElement, FileManager.contents, h]

/-- No id has the hash value of another id that a model of `models` has. -/
def HashesApart (hashValue : Id → Int) (models : Set Model) : Prop :=
  ∀ x : Id, ∀ model ∈ models, hashValue x = hashValue (idOf model) → x = idOf model

/-- Then file names determine ids. -/
theorem HashesApart.eq_of_fileName (h : HashesApart env.hashValue models) {x : Id} {model : Model}
    (hm : model ∈ models) (hname : fileName env x = fileName env (idOf model)) :
    x = idOf model := by
  have hinj : Set.InjOn env.hashValue {x, idOf model} := by
    rintro _ (rfl | rfl) _ (rfl | rfl) heq
    · rfl
    · exact h _ model hm heq
    · exact (h _ model hm heq.symm).symm
    · rfl
  exact fileName_injOn hinj (Set.mem_insert _ _) (Set.mem_insert_of_mem _ rfl) hname

/-- **Distinct ids stay apart exactly when the hash values of the ids in use are theirs alone.** -/
theorem keepsIdsApart_iff (hcodec : ∀ model, repo.decode (repo.encode model) = some model)
    (hashValue : Id → Int) (models : Set Model) :
    repo.KeepsIdsApart hashValue models ↔ HashesApart hashValue models := by
  constructor
  · -- store the model of the id in use and look up the other
    intro h x model hm heq
    let env : Environment Id :=
      { hashValue, url := fun _ => [], fault := fun _ => none, order := fun _ names => names
        order_perm := fun _ _ => List.Perm.refl _ }
    let fm : FileManager Data := { listing := fun _ => none, calls := 0 }
    have hused : modelsUsed [Op.create model] = {model} := by
      ext m; simp [modelsUsed, Op.models]
    classical
    have hstores : repo.Stores env {idOf model} (repo.run env fm [.create model])
        (liveAfter (fun _ => none) [.create model]) := by
      refine (stores_fresh (Or.inl rfl)).run (fun _ => rfl) (Set.injOn_singleton _ _) _ ?_
      rw [idsUsed, hused, Set.image_singleton]
    have hget : repo.getElement env (.modelId (idOf model)) (repo.run env fm [.create model])
        = some model := by
      rw [hstores.getElement (Set.injOn_singleton _ _) hcodec rfl]
      simp [Op.apply, Live.store]
    have hurl : repo.fileURL env x = repo.fileURL env (idOf model) := by
      show repo.getURL env (toString (hashValue x)) = _
      rw [heq]
      rfl
    have hget' : repo.getElement env (.modelId x) (repo.run env fm [.create model])
        = some model := by
      rw [← hget]
      simp only [getElement, hurl]
    have hops : modelsUsed [Op.create model] ⊆ models := by
      rw [hused, Set.singleton_subset_iff]; exact hm
    exact ((h env rfl fm (Or.inl rfl) [.create model] hops x).1 _ hget').symm
  · rintro hapart env rfl fm hfresh ops hops x
    -- a file holds a model of the id it is named after, and names determine ids
    have hnames : FilesNamedById repo env models (repo.run env fm ops) := by
      refine FilesNamedById.run (fun name data hfile => ?_) ops hops
      have hnone : fm.node ⟨repo.getDirectoryURL env, name⟩ = none :=
        congrFun hfresh.nodesIn name
      rw [hnone] at hfile
      simp at hfile
    refine ⟨fun model hget => ?_, fun model hm hne op hop => ?_⟩
    · obtain ⟨data, hfile, hdec⟩ := getElement_eq_some hget
      obtain ⟨stored, hstored, hdata, hname⟩ := hnames _ _ hfile
      rw [← hdata, hcodec, Option.some.injEq] at hdec
      rw [← hdec]
      exact (hapart.eq_of_fileName hstored hname.symm).symm
    · obtain ⟨new, _, hnode⟩ := step_single_node repo env hop
        (repo.run env fm ops)
      have hurl : repo.fileURL env x ≠ repo.fileURL env (idOf model) := by
        intro he
        exact hne (hapart.eq_of_fileName hm (FileURL.mk.inj he).2).symm
      exact getElement_congr (by rw [hnode, Function.update_of_ne hurl])

/-- The law for the sample employees and an injective hash function. -/
theorem keepsIdsApart_employees :
    Sample.employees.KeepsIdsApart Int.ofNat Set.univ :=
  (keepsIdsApart_iff Sample.employees_codec Int.ofNat Set.univ).mpr
    fun _ _ _ h => Int.ofNat.inj h

/-- With a constant hash function, employee `1` is not stored and yet found: the lookup
    returns employee `2`. -/
theorem not_keepsIdsApart_constant :
    ¬ Sample.employees.KeepsIdsApart (fun _ => 0) Set.univ := by
  intro h
  have hget : (⟨2, 24⟩ : Sample.Employee).number = 1 :=
    (h (Sample.process fun _ => 0) rfl Sample.blank (Or.inl rfl) [.create ⟨2, 24⟩]
      (Set.subset_univ _) 1).1 ⟨2, 24⟩ rfl
  exact absurd hget (by decide)

end FileSystemRepository

end QBRepository
