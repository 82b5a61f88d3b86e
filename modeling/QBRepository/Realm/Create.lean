import QBRepository.Realm.AddObject
import QBRepository.Realm.Isomorphism
import QBRepository.Realm.Repository
import QBRepository.Realm.Subtypes

namespace QBRepository

/-!
# Creating models

`create` deletes the rows below a model before it adds the model.  For a model that leads to a
stored object, or to one that an earlier model of the list has stored, this destroys the very
graph that is to be stored.

* `KeepsGraphs` — what `create` is for;
* `Storable` — the models for which it works;
* `Stage`, `Stage.step` — the models done, and one more;
* `addCascading_converges` — storable models are stored.
-/

variable {Scalar : Type} {env : RealmEnvironment Scalar} {update : Bool}
  {className : String} {s s' t : Realm Scalar} {models pre : List Ref} {m : Ref}

/-- The call succeeds, and then every model is stored with the graph it has had before. -/
def KeepsGraphs {Result : Type} (s : Realm Scalar) (models : List Ref)
    (call : Nat → Outcome (Result × Realm Scalar)) (result : Result) : Prop :=
  ∃ t, Outcome.Converges call (result, t) ∧
    ∀ m ∈ models, t.Managed m ∧ Isomorphic s (s.vertexOf m) t (t.vertexOf m)

/-- What is below a model is unmanaged and does not belong to an earlier model. -/
def OwnsBelow (s : Realm Scalar) (models : List Ref) : Prop :=
  ∀ pre m post, models = pre ++ m :: post → ∀ a ∈ s.below m,
    (∃ r, a = .object r) ∧ a ∉ s.graph pre

/-- No row has the key of an unmanaged object of the graph. -/
def KeysFree (env : RealmEnvironment Scalar) (s : Realm Scalar) (models : List Ref) : Prop :=
  ∀ r record, .object r ∈ s.graph models → s.object r = some (.unmanaged record) →
    ∀ key, record.key env.primaryKey = some key → ∀ row, s.rowKey env row ≠ some key

/-- The models that `create` keeps.  Without a primary key the repository does not allow
    updates. -/
structure Storable (env : RealmEnvironment Scalar) (repo : RealmRepository) (s : Realm Scalar)
    (models : List Ref) : Prop where
  idle : s.inWriteTransaction = false
  below : OwnsBelow s models
  unstored : repo.isIdentifiable env = false → KeysFree env s models

/-! ### One model -/

/-- What is below a model belongs to its graph. -/
theorem Realm.below_subset (hm : m ∈ models) : s.below m ⊆ s.graph models := by
  rintro a ⟨b, hb, hba⟩
  exact ⟨s.vertexOf m, ⟨m, hm, rfl⟩, .head hb hba⟩

/-- What is below a model afterwards is what was below it. -/
theorem Adds.below_image (hs : Request env className s models)
    (h : Adds env update (s.refs models) s s') (hm : m ∈ models) :
    s'.image '' s.below m = s'.below m := by
  have hgraph : Reachable s.Edge {b | s.Edge (s.vertexOf m) b} ⊆ s.graph models :=
    Realm.below_subset hm
  rw [Realm.below, h.reachable_image hs hgraph, Realm.below]
  refine congrArg (Reachable s'.Edge) (Set.ext fun b' => ?_)
  rw [← h.image_vertexOf (hs.mem_refs hm).1]
  exact (h.edge_image hs (hs.mem_refs hm).2 b').symm

/-- Objects that do not belong to the earlier models are still unmanaged. -/
theorem Adds.image_of_notMem (hs : Request env className s models)
    (h : Adds env update (s.refs pre) s s') {r : Ref} (hr : .object r ∈ s.graph models)
    (hpre : .object r ∉ s.graph pre) : s'.image (.object r) = .object r := by
  obtain ⟨record, hobject⟩ := hs.object hr
  rcases h.stored r record hobject with hsame | ⟨row, hstored⟩
  · rw [Realm.image, s'.vertexOf_unmanaged hsame]
  · have hmem := hstored.mem.2
    rw [s.vertexOf_unmanaged hobject] at hmem
    exact absurd hmem hpre

/-- If what is below a model is its own, it is still the same. -/
theorem Adds.below_eq (hs : Request env className s models)
    (h : Adds env update (s.refs pre) s s') (hpre : ∀ m ∈ pre, m ∈ models) (hm : m ∈ models)
    (hbelow : ∀ a ∈ s.below m, (∃ r, a = .object r) ∧ a ∉ s.graph pre) :
    s'.below m = s.below m ∧ ∀ a ∈ s.below m, s'.image a = a := by
  have hfix : ∀ a ∈ s.below m, s'.image a = a := by
    intro a ha
    obtain ⟨⟨r, rfl⟩, hnot⟩ := hbelow a ha
    exact h.image_of_notMem hs (Realm.below_subset hm ha) hnot
  rw [← (h.mono (s.refs_mono hpre)).below_image hs hm]
  exact ⟨(Set.image_congr hfix).trans (Set.image_id' _), hfix⟩

/-- Then deleting its subtypes deletes nothing. -/
theorem Adds.cascade (hs : Request env className s models)
    (h : Adds env update (s.refs pre) s s') (hpre : ∀ m ∈ pre, m ∈ models) (hm : m ∈ models)
    (hbelow : ∀ a ∈ s.below m, (∃ r, a = .object r) ∧ a ∉ s.graph pre) {fuel : Nat}
    (hcascade : cascadeDeleteSubtypes env fuel m s' = .returns t) (G : Set Ref) :
    Adds env update G s' t := by
  obtain ⟨-, hkeeps, hnext, hrows⟩ := cascadeDeleteSubtypes_spec hcascade
  refine .of_keeps hkeeps hnext ?_
  rw [hrows, (h.below_eq hs hpre hm hbelow).1]
  refine without_eq_self fun row hrow => ?_
  obtain ⟨r, hr⟩ := (hbelow _ hrow).1
  cases hr

/-- An object that is not unmanaged is managed. -/
theorem Realm.managed_of_known {r : Ref} (hknown : s.object r ≠ none)
    (h : ∀ record, s.object r ≠ some (.unmanaged record)) : s.Managed r := by
  obtain ⟨object, hobject⟩ := Option.ne_none_iff_exists'.mp hknown
  cases object with
  | managed className row => exact ⟨row, Realm.rowOf_of_object hobject⟩
  | unmanaged record => exact absurd hobject (h record)

/-- Managed objects stay managed. -/
theorem Adds.managed_of_managed {G : Set Ref} (h : Adds env update G s t) {r : Ref}
    (hr : s.Managed r) : t.Managed r := by
  obtain ⟨className, row, hobject⟩ := hr.object
  exact ⟨row, Realm.rowOf_of_object (h.managed r className row hobject)⟩

/-- What the models done have become: they are stored, and nothing else has changed. -/
structure Stage (env : RealmEnvironment Scalar) (update : Bool) (s : Realm Scalar)
    (pre : List Ref) (t : Realm Scalar) : Prop where
  adds : Adds env update (s.refs pre) s t
  managed : ∀ m ∈ pre, t.Managed m

/-- At the start nothing is done. -/
theorem Stage.start (env : RealmEnvironment Scalar) (update : Bool) (s : Realm Scalar) :
    Stage env update s [] s := ⟨.refl env update _ s, by simp⟩

section Models

variable [DecidableEq Scalar]

/-- A model that is added is added as an object. -/
theorem addObject_of_add {fuel : Nat} (h : add env fuel m update s = .returns t) :
    addObject env update fuel m s = .returns t := by
  rw [add] at h
  split at h
  · cases h
  · exact h

/-- **A model that leads to objects of its own only** is stored. -/
theorem Stage.step (hs : Request env className s models) (h : Stage env update s pre s')
    {post : List Ref} (hsplit : models = pre ++ m :: post)
    (hbelow : ∀ a ∈ s.below m, (∃ r, a = .object r) ∧ a ∉ s.graph pre) {fuel : Nat}
    (hcall : addEntityCascading env fuel update m s' = .returns t) :
    Stage env update s (pre ++ [m]) t := by
  obtain ⟨c, hcascade, hadd⟩ := Outcome.bind_eq_returns.mp hcall
  have hall : ∀ x ∈ pre ++ [m], x ∈ models := by
    intro x hx
    rw [hsplit, ← List.singleton_append, ← List.append_assoc]
    exact List.mem_append_left post hx
  have haddable := (hs.mono hall).addable
  have hmem := (hs.mono hall).mem_refs (List.mem_append_right pre (List.mem_singleton_self m))
  -- the cascade deletes no row of the models, since all below `m` is unmanaged
  have hfirst := h.adds.cascade hs (fun x hx => hall x (List.mem_append_left [m] hx))
    (hall m (by simp)) hbelow hcascade (s.refs (pre ++ [m]))
  have hc := (h.adds.mono (s.refs_mono fun x hx => List.mem_append_left [m] hx)).trans haddable
    hfirst
  have hadds := addObject_adds fuel hmem (hc.addable haddable) (addObject_of_add hadd)
  refine ⟨hc.trans haddable hadds, fun x hx => ?_⟩
  rcases List.mem_append.mp hx with hx | hx
  · exact hadds.managed_of_managed (hfirst.managed_of_managed (h.managed x hx))
  · rw [List.mem_singleton.mp hx]
    exact Realm.managed_of_known (hadds.known (hc.known hmem.1))
      (addObject_promoted (addObject_of_add hadd))

/-- One model is a list of one model. -/
theorem addEntityCascading_eq (env : RealmEnvironment Scalar) (fuel : Nat) (update : Bool)
    (m : Ref) : addEntityCascading env fuel update m = addCascading env fuel update [m] :=
  funext fun s => (Outcome.forEach_singleton _ m s).symm

/-- **The models one after another**, if all of them do. -/
theorem addCascading_stage (hs : Request env className s models)
    (hbelow : OwnsBelow s models) {fuel : Nat}
    (h : addCascading env fuel update models s = .returns t) : Stage env update s models t :=
  Outcome.forEach_invariant (I := fun pre t => Stage env update s pre t)
    (fun pre m post _ _ hsplit hpre hcall => hpre.step hs hsplit (hbelow pre m post hsplit) hcall)
    (.start env update s) h

end Models

/-! ### The call returns -/

/-- The links among the unmanaged objects of a request descend. -/
theorem Request.ranked (hs : Request env className s models) :
    ∃ rank : Vertex → ℕ, ∀ a ∈ s.graph models, ∀ b ∈ s.graph models,
      (∃ r, a = .object r) → (∃ r, b = .object r) → s.Edge a b → rank b < rank a := by
  have hacyclic : s.Acyclic (s.vertices models) := hs.acyclic
  obtain ⟨rank, hrank⟩ := hacyclic.descends
  refine ⟨rank, fun a ha b _ hobject _ hab => ?_⟩
  obtain ⟨r, rfl⟩ := hobject
  exact hrank r ha b hab

/-- The rank of a reference; accessors have the smallest one. -/
def Realm.rankOf (s : Realm Scalar) (rank : Vertex → ℕ) (r : Ref) : ℕ :=
  match s.object r with
  | some (.unmanaged _) => rank (.object r) + 1
  | some (.managed _ _) | none => 0

/-- The objects of a request are ready to be added, unless a key of theirs is in use. -/
theorem Request.ready (hs : Request env className s models)
    (hunstored : update = false → KeysFree env s models) :
    ∃ rank, Ready env update rank (s.refs models) s := by
  obtain ⟨rank, hrank⟩ := hs.ranked
  refine ⟨s.rankOf rank, hs.addable, fun r hr => hr.1, fun r hr => hs.valid hr, ?_, ?_⟩
  · intro hupdate r hr record hobject
    have hmem := hr.2
    rw [s.vertexOf_unmanaged hobject] at hmem
    exact hunstored hupdate r record hmem hobject
  · intro r hr record hobject v hv
    have hmem := hr.2
    rw [s.vertexOf_unmanaged hobject] at hmem
    obtain ⟨hknown, htarget⟩ := Request.target hr hobject hv
    obtain ⟨object, hv'⟩ := Option.ne_none_iff_exists'.mp hknown
    rw [Realm.rankOf, Realm.rankOf, hobject, hv']
    -- accessors have the least rank
    cases object with
    | managed className row => exact Nat.succ_pos _
    | unmanaged record' =>
      rw [s.vertexOf_unmanaged hv'] at htarget
      exact Nat.succ_lt_succ (hrank _ hmem _ htarget ⟨r, rfl⟩ ⟨v, rfl⟩
        ((s.edge_object hobject).mpr ⟨v, hv, s.vertexOf_unmanaged hv'⟩))

/-- Deleting the subtypes returns if they are the model's own. -/
theorem Adds.cascade_converges (hash : ∀ s r, s.isInvalidated r = false → env.hash s r = true)
    (hs : Request env className s models) (h : Adds env update (s.refs pre) s s')
    (hpre : ∀ m ∈ pre, m ∈ models) (hm : m ∈ models)
    (hbelow : ∀ a ∈ s.below m, (∃ r, a = .object r) ∧ a ∉ s.graph pre) :
    ∃ t, Outcome.Converges (fun fuel => cascadeDeleteSubtypes env fuel m s') t := by
  obtain ⟨rank, hrank⟩ := hs.ranked
  have hmem := hs.mem_refs hm
  obtain ⟨hsame, hfix⟩ := h.below_eq hs hpre hm hbelow
  refine cascadeDeleteSubtypes_converges_of_objects hash (h.valid hmem.1 (hs.valid hmem))
    (fun a ha => (hbelow a (hsame ▸ ha)).1) rank fun a ha b hab => ?_
  rw [hsame] at ha
  -- the edge has been there before
  have ha' := Realm.below_subset hm ha
  rw [← hfix a ha] at hab
  obtain ⟨b₀, hab₀, rfl⟩ := ((h.mono (s.refs_mono hpre)).edge_image hs ha' b).mp hab
  have hb₀ : b₀ ∈ s.below m := Reachable.tail ha hab₀
  rw [hfix b₀ hb₀]
  exact hrank a ha' b₀ (Realm.below_subset hm hb₀) (hbelow a ha).1 (hbelow b₀ hb₀).1 hab₀

section Models

variable [DecidableEq Scalar]

/-- Adding a model of the repository is allowed. -/
theorem add_eq_addObject {fuel : Nat} {repo : RealmRepository}
    (hclass : s.className m = some repo.className) :
    add env fuel m (repo.isIdentifiable env) s
      = addObject env (repo.isIdentifiable env) fuel m s := by
  rw [add, hclass, Option.bind_some, RealmRepository.isIdentifiable]
  cases env.primaryKey repo.className <;> rfl

/-- Storing a model returns if both of its halves do. -/
theorem addEntityCascading_converges {repo : RealmRepository} {c : Realm Scalar}
    (hcascade : Outcome.Converges (fun fuel => cascadeDeleteSubtypes env fuel m s) c)
    (hclass : c.className m = some repo.className)
    (hadd : Outcome.Converges (fun fuel => addObject env (repo.isIdentifiable env) fuel m c) t) :
    Outcome.Converges (fun fuel => addEntityCascading env fuel (repo.isIdentifiable env) m s) t :=
  hcascade.bind (g := fun c fuel => add env fuel m (repo.isIdentifiable env) c)
    (by simpa only [add_eq_addObject hclass] using hadd)

/-- **Storing one more model returns.** -/
theorem Adds.addEntityCascading_converges {repo : RealmRepository}
    (hash : ∀ s r, s.isInvalidated r = false → env.hash s r = true)
    (hs : Request env repo.className s models) {rank : Ref → ℕ}
    (hready : Ready env (repo.isIdentifiable env) rank (s.refs models) s)
    (h : Adds env (repo.isIdentifiable env) (s.refs pre) s s') (hpre : ∀ m ∈ pre, m ∈ models)
    (hm : m ∈ models) (hbelow : ∀ a ∈ s.below m, (∃ r, a = .object r) ∧ a ∉ s.graph pre) :
    ∃ t, Outcome.Converges
      (fun fuel => addEntityCascading env fuel (repo.isIdentifiable env) m s') t := by
  obtain ⟨c, n, hn⟩ := h.cascade_converges hash hs hpre hm hbelow
  have hc : Adds env (repo.isIdentifiable env) (s.refs models) s c :=
    (h.mono (s.refs_mono hpre)).trans hs.addable (h.cascade hs hpre hm hbelow (hn n le_rfl) _)
  obtain ⟨t, hadd⟩ := (hready.adds hc).addObject_converges (hs.mem_refs hm)
  exact ⟨t, QBRepository.addEntityCascading_converges ⟨n, hn⟩ (hc.className (hs.ofClass m hm)) hadd⟩

/-- **The models one after another return**, if what is below them is their own. -/
theorem addCascading_converges {repo : RealmRepository}
    (hash : ∀ s r, s.isInvalidated r = false → env.hash s r = true)
    (hs : Request env repo.className s models) (hown : OwnsBelow s models)
    (hunstored : repo.isIdentifiable env = false → KeysFree env s models) :
    ∃ t, Outcome.Converges (fun fuel => addCascading env fuel (repo.isIdentifiable env) models s) t
      ∧ Stage env (repo.isIdentifiable env) s models t := by
  obtain ⟨rank, hready⟩ : ∃ rank, Ready env (repo.isIdentifiable env) rank (s.refs models) s :=
    hs.ready hunstored
  refine Outcome.forEach_converges
    (I := fun pre t => Stage env (repo.isIdentifiable env) s pre t) ?_ (.start env _ s)
  intro pre m post s' hsplit hstage
  have hbelow := hown pre m post hsplit
  obtain ⟨t, n, hn⟩ := hstage.adds.addEntityCascading_converges hash hs hready
    (fun x hx => hsplit ▸ List.mem_append_left _ hx) (by simp [hsplit]) hbelow
  exact ⟨t, ⟨n, hn⟩, hstage.step hs hsplit hbelow (hn n le_rfl)⟩

end Models

end QBRepository
