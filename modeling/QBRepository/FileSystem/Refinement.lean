import QBRepository.Lib.NamedStore
import QBRepository.FileSystem.Run

namespace QBRepository

open IdentifiableCodable renaming id → idOf

/-!
# `FileSystemRepository` refines a finite map

Within one execution, while no call fails and `hashValue` is injective on the ids in use,
the directory of the repository represents the live models: `Stores` is the relation
`NamedStore.Represents` between the nodes of the directory and the map from ids to models,
every call preserves it (`run_stores`), and reading through it gives back exactly the live
models (`getElement_of_stores`, `getAll_of_stores`).
-/

variable {Id Model Data : Type} [IdentifiableCodable Model Id]

/-- `directory` is absent or empty. -/
def FileManager.Fresh (fm : FileManager Data) (directory : URL) : Prop :=
  fm.listing directory = none ∨ fm.listing directory = some ∅

/-- The nodes of one directory by entry name. -/
def FileManager.nodesIn (fm : FileManager Data) (directory : URL) : String → Option (Node Data) :=
  fun name => fm.node ⟨directory, name⟩

/-- A fresh directory has no entries. -/
theorem FileManager.Fresh.nodesIn {fm : FileManager Data} {directory : URL}
    (h : fm.Fresh directory) : fm.nodesIn directory = fun _ => none := by
  funext name
  rcases h with h | h
  · exact node_of_listing_none h name
  · simp [FileManager.nodesIn, FileManager.node, FileManager.entries, h]

/-- An update at one location is an update at one name of its directory. -/
theorem FileManager.nodesIn_update {fm fm' : FileManager Data} {url : FileURL}
    {new : Option (Node Data)} (h : fm'.node = Function.update fm.node url new) :
    fm'.nodesIn url.directory = Function.update (fm.nodesIn url.directory) url.name new := by
  funext name
  by_cases hn : name = url.name
  · subst hn
    simp [nodesIn, h]
  · have hne : (⟨url.directory, name⟩ : FileURL) ≠ url := by
      intro he; exact hn (by rw [← he])
    rw [Function.update_of_ne hn, nodesIn, h, Function.update_of_ne hne, nodesIn]

/-- Decimal strings of different hash values differ. -/
theorem FileSystemRepository.fileName_injOn {env : Environment Id} {S : Set Id}
    (hinj : Set.InjOn env.hashValue S) : Set.InjOn (FileSystemRepository.fileName env) S :=
  fun _ hx _ hy h => hinj hx hy (Int.repr_injective h)

namespace FileSystemRepository

variable (repo : FileSystemRepository Model Data) (env : Environment Id)

/-- The node of a stored model. -/
def nodeOf (model : Model) : Node Data := .file (repo.encode model)

/-- The directory of the repository holds exactly the live models, whose ids lie in `S`. -/
structure Stores (S : Set Id) (fm : FileManager Data) (live : Live Id Model) : Prop where
  represents : NamedStore.Represents (fileName env) repo.nodeOf
    (fm.nodesIn (repo.getDirectoryURL env)) live
  liveIn : NamedStore.LiveIn live S
  keyed : ∀ k model, live k = some model → idOf model = k

variable {repo env} {S : Set Id} {fm : FileManager Data} {live : Live Id Model}

/-- A fresh directory stores no models. -/
theorem stores_fresh (h : fm.Fresh (repo.getDirectoryURL env)) :
    repo.Stores env S fm fun _ => none where
  represents := by rw [h.nodesIn]; exact NamedStore.represents_empty
  liveIn := NamedStore.liveIn_empty
  keyed := by intro k model h; simp at h

section Writing

variable [DecidableEq Id]

/-- Writing the file of a model stores it. -/
theorem Stores.written (h : repo.Stores env S fm live) (hinj : Set.InjOn env.hashValue S)
    {model : Model} (hm : idOf model ∈ S) {fm' : FileManager Data}
    (hnode : fm'.node
      = Function.update fm.node (repo.fileURL env (idOf model)) (some (repo.nodeOf model))) :
    repo.Stores env S fm' (live.store model) := by
  refine ⟨?_, h.liveIn.update hm _, fun k model' hk => ?_⟩
  -- one file changes, the one named after the id of `model`
  · have hdir := FileManager.nodesIn_update hnode
    exact hdir ▸ h.represents.update h.liveIn (fileName_injOn hinj) hm model
  · by_cases hkm : k = idOf model
    · rw [hkm, Live.store, Function.update_self, Option.some.injEq] at hk
      rw [hkm, hk]
    · rw [Live.store, Function.update_of_ne hkm] at hk
      exact h.keyed k model' hk

/-- Removing the file of a model forgets its id. -/
theorem Stores.removed (h : repo.Stores env S fm live) (hinj : Set.InjOn env.hashValue S)
    {model : Model} (hm : idOf model ∈ S) {fm' : FileManager Data}
    (hnode : fm'.node = Function.update fm.node (repo.fileURL env (idOf model)) none) :
    repo.Stores env S fm' (live.forget model) := by
  refine ⟨?_, h.liveIn.update hm _, fun k model' hk => ?_⟩
  · have hdir := FileManager.nodesIn_update hnode
    exact hdir ▸ h.represents.erase h.liveIn (fileName_injOn hinj) hm
  · by_cases hkm : k = idOf model
    · rw [hkm, Live.forget, Function.update_self] at hk
      exact absurd hk (by simp)
    · rw [Live.forget, Function.update_of_ne hkm] at hk
      exact h.keyed k model' hk

/-- A successful `create` stores its model. -/
theorem Stores.create (h : repo.Stores env S fm live) (hq : env.Quiet)
    (hinj : Set.InjOn env.hashValue S) {model : Model} (hm : idOf model ∈ S) :
    repo.Stores env S (repo.step env fm (.create model)) (live.store model) := by
  refine h.written hinj hm ?_
  rcases repo.create_cases env model fm with ⟨fm', hrun, hnode | ⟨hnq, _⟩⟩ | ⟨_, _, _, hnq, _⟩
  · simpa only [step, hrun, nodeOf] using hnode
  · exact absurd hq hnq
  · exact absurd hq hnq

/-- `delete` forgets the id of its model. -/
theorem Stores.delete (h : repo.Stores env S fm live) (hq : env.Quiet)
    (hinj : Set.InjOn env.hashValue S) {model : Model} (hm : idOf model ∈ S) :
    repo.Stores env S (repo.step env fm (.delete model)) (live.forget model) := by
  refine h.removed hinj hm ?_
  rcases repo.delete_cases env model fm with ⟨fm', hrun, hnode⟩ | ⟨_, _, _, hnq, _⟩
  · simpa only [step, hrun] using hnode
  · exact absurd hq hnq

omit [DecidableEq Id] in
/-- `deleteAll` leaves nothing, whether or not the directory exists. -/
theorem stores_deleteAll (hq : env.Quiet) (fm : FileManager Data) :
    repo.Stores env S (repo.step env fm .deleteAll) fun _ => none := by
  obtain ⟨result, fm', hrun, _, hgone⟩ := repo.deleteAll_cases env fm
  have hnodes : (repo.step env fm .deleteAll).nodesIn (repo.getDirectoryURL env)
      = fun _ => none := by
    funext name
    simpa only [step, hrun, FileManager.nodesIn] using hgone hq name
  exact ⟨by rw [hnodes]; exact NamedStore.represents_empty, NamedStore.liveIn_empty,
    fun k model hk => absurd hk (by simp)⟩

/-- Every run over ids of `S` keeps the directory and the live models together. -/
theorem Stores.run (h : repo.Stores env S fm live) (hq : env.Quiet)
    (hinj : Set.InjOn env.hashValue S) (ops : List (Op Model)) (hS : idsUsed ops ⊆ S) :
    repo.Stores env S (repo.run env fm ops) (liveAfter live ops) :=
  run_simulates (U := modelsUsed ops) (R := repo.Stores env S)
    (fun _ _ _ hm h => h.create hq hinj (hS ⟨_, hm, rfl⟩))
    (fun _ _ _ hm h => h.delete hq hinj (hS ⟨_, hm, rfl⟩))
    (fun fm _ _ => stores_deleteAll hq fm) ops (fun _ hm => hm) live h

end Writing

section Reading

/-- The content of the file of `k` is the live model of `k`. -/
theorem Stores.contents (h : repo.Stores env S fm live) (hinj : Set.InjOn env.hashValue S)
    {k : Id} (hk : k ∈ S) :
    fm.contents (repo.fileURL env k) = (live k).map repo.encode := by
  have hnode : fm.node (repo.fileURL env k) = (live k).map repo.nodeOf :=
    h.represents.get h.liveIn (fileName_injOn hinj) hk
  rw [FileManager.contents, hnode]
  cases live k <;> rfl

/-- `getElement` finds the live model. -/
theorem Stores.getElement (h : repo.Stores env S fm live) (hinj : Set.InjOn env.hashValue S)
    (hcodec : ∀ model, repo.decode (repo.encode model) = some model) {k : Id} (hk : k ∈ S) :
    repo.getElement env (.modelId k) fm = live k := by
  simp only [FileSystemRepository.getElement, h.contents hinj hk]
  cases hl : live k with
  | none => rfl
  | some model => exact hcodec model

/-- Where the directory can be listed, `getAll` lists the live models, each once. -/
theorem Stores.getAll_of_listed (h : repo.Stores env S fm live) (hlist : env.fault fm.calls = none)
    (hcodec : ∀ model, repo.decode (repo.encode model) = some model) :
    ((repo.getAll env).run fm).1.Nodup ∧
      ∀ model, model ∈ ((repo.getAll env).run fm).1 ↔ live (idOf model) = some model := by
  -- every entry of the directory is the file of a live model
  have hentry : ∀ name node, fm.node ⟨repo.getDirectoryURL env, name⟩ = some node →
      ∃ model, live (idOf model) = some model ∧ fileName env (idOf model) = name ∧
        repo.nodeOf model = node := by
    intro name node hnode
    obtain ⟨k, model, hk, hname, henc⟩ := h.represents.covered name node hnode
    obtain rfl := h.keyed k model hk
    exact ⟨model, hk, hname, henc⟩
  -- the file of a live model is read as that model
  have hcontents : ∀ name model, live (idOf model) = some model →
      fileName env (idOf model) = name →
      repo.modelAt fm ⟨repo.getDirectoryURL env, name⟩ = some model := by
    rintro name model hlive rfl
    have hnode : fm.node ⟨repo.getDirectoryURL env, fileName env (idOf model)⟩
        = some (repo.nodeOf model) := h.represents.stored _ _ hlive
    simp [modelAt, FileManager.contents, hnode, nodeOf, hcodec]
  have hdec : ∀ name data, fm.contents ⟨repo.getDirectoryURL env, name⟩ = some data →
      (repo.decode data).isSome := by
    intro name data hdata
    cases hnode : fm.node ⟨repo.getDirectoryURL env, name⟩ with
    | none => simp [FileManager.contents, hnode] at hdata
    | some node =>
      obtain ⟨model, _, _, rfl⟩ := hentry name node hnode
      simp only [FileManager.contents, hnode, nodeOf, Option.some.injEq] at hdata
      rw [← hdata, hcodec]
      rfl
  obtain ⟨names, fm', hrun, hnd, hmem⟩ := repo.getAll_of_listed env fm hlist hdec
  rw [hrun]
  -- and only the file of a live model is read as that model
  have hread : ∀ name model, repo.modelAt fm ⟨repo.getDirectoryURL env, name⟩ = some model →
      live (idOf model) = some model ∧ fileName env (idOf model) = name := by
    intro name model hat
    cases hnode : fm.node ⟨repo.getDirectoryURL env, name⟩ with
    | none => simp [modelAt, FileManager.contents, hnode] at hat
    | some node =>
      obtain ⟨model', hlive, hfile, _⟩ := hentry name node hnode
      have hat' := hcontents name model' hlive hfile
      rw [hat, Option.some.injEq] at hat'
      rw [hat']
      exact ⟨hlive, hfile⟩
  refine ⟨?_, fun model => ⟨fun hm => ?_, fun hlive => ?_⟩⟩
  · refine List.Nodup.filterMap (fun name name' model hat hat' => ?_) hnd
    rw [← (hread name model hat).2, ← (hread name' model hat').2]
  · obtain ⟨name, _, hat⟩ := List.mem_filterMap.mp hm
    exact (hread name model hat).1
  · refine List.mem_filterMap.mpr ⟨fileName env (idOf model), ?_, hcontents _ model hlive rfl⟩
    have hnode : fm.node ⟨repo.getDirectoryURL env, fileName env (idOf model)⟩
        = some (repo.nodeOf model) := h.represents.stored _ _ hlive
    rw [hmem, hnode]
    rfl

/-- `getAll` lists the live models, each once. -/
theorem Stores.getAll (h : repo.Stores env S fm live) (hq : env.Quiet)
    (hcodec : ∀ model, repo.decode (repo.encode model) = some model) :
    ((repo.getAll env).run fm).1.Nodup ∧
      ∀ model, model ∈ ((repo.getAll env).run fm).1 ↔ live (idOf model) = some model :=
  h.getAll_of_listed (hq fm.calls) hcodec

end Reading

/-- **Refinement.** Starting from an absent or empty directory, after any sequence of calls
    `getElement` returns the model last stored under an id and not deleted since, and
    `getAll` lists exactly the live models. -/
theorem refines_live_models [DecidableEq Id]
    (hcodec : ∀ model, repo.decode (repo.encode model) = some model) (hq : env.Quiet)
    (hfresh : fm.Fresh (repo.getDirectoryURL env)) (ops : List (Op Model)) (k : Id)
    (hinj : Set.InjOn env.hashValue (insert k (idsUsed ops))) :
    repo.getElement env (.modelId k) (repo.run env fm ops) = liveAfter (fun _ => none) ops k ∧
    ((repo.getAll env).run (repo.run env fm ops)).1.Nodup ∧
    ∀ model, model ∈ ((repo.getAll env).run (repo.run env fm ops)).1 ↔
      liveAfter (fun _ => none) ops (idOf model) = some model := by
  have h : repo.Stores env (insert k (idsUsed ops)) (repo.run env fm ops)
      (liveAfter (fun _ => none) ops) :=
    (stores_fresh hfresh).run hq hinj ops (Set.subset_insert _ _)
  exact ⟨h.getElement hinj hcodec (Set.mem_insert _ _), h.getAll hq hcodec⟩

/-- The refinement on a run that overwrites one employee and deletes another. -/
theorem refines_live_models_employees :
    let env := Sample.process Int.ofNat
    let fm := Sample.employees.run env Sample.blank
      [.create ⟨1, 21⟩, .createAll [⟨2, 24⟩, ⟨1, 22⟩], .delete ⟨2, 24⟩]
    Sample.employees.getElement env (.modelId 1) fm = some ⟨1, 22⟩ ∧
      ((Sample.employees.getAll env).run fm).1.Nodup :=
  have hfresh : Sample.blank.Fresh (Sample.employees.getDirectoryURL (Sample.process Int.ofNat)) :=
    Or.inl rfl
  have h := refines_live_models Sample.employees_codec (Sample.process_quiet Int.ofNat) hfresh
    [.create ⟨1, 21⟩, .createAll [⟨2, 24⟩, ⟨1, 22⟩], .delete ⟨2, 24⟩] 1
    (fun _ _ _ _ h => Int.ofNat.inj h)
  ⟨h.1, h.2.1⟩

end FileSystemRepository

end QBRepository
