import Mathlib.Data.Multiset.DershowitzManna
import Mathlib.Data.Set.Card
import Mathlib.Data.Set.Image
import Mathlib.Logic.Relation

/-!
# Exploring a graph with a worklist

A search keeps the nodes it is done with and the nodes still pending.  `Explores` is what it
maintains, whatever the order in which pending nodes are picked and even if the graph is
destroyed behind it: only edges of the original graph are mentioned.

* `Reachable.subset_of_closed` — the induction rule;
* `Explores.start`, `Explores.addRoot`, `Explores.visit` — the steps of a search;
* `Explores.finish` — with nothing pending, the search is done with exactly the reachable nodes;
* `exists_rank` — the edges of a finite graph without cycles descend;
* `rest_append_lt` — so a search that may visit nodes again terminates on it.
-/

open Relation

variable {α : Type*} {edge : α → α → Prop} {roots done pending pending' : Set α} {a : α}

/-- The nodes reachable from some roots. -/
def Reachable (edge : α → α → Prop) (roots : Set α) : Set α :=
  {a | ∃ r ∈ roots, ReflTransGen edge r a}

/-- The state of a search. -/
structure Explores (edge : α → α → Prop) (roots done pending : Set α) : Prop where
  reached : done ∪ pending ⊆ Reachable edge roots
  rooted : roots ⊆ done ∪ pending
  closed : ∀ a ∈ done, ∀ b, edge a b → b ∈ done ∪ pending

/-- The roots are reachable. -/
theorem subset_reachable : roots ⊆ Reachable edge roots := fun a ha => ⟨a, ha, .refl⟩

/-- What something reachable leads to is reachable. -/
theorem Reachable.tail {b : α} (ha : a ∈ Reachable edge roots) (hab : edge a b) :
    b ∈ Reachable edge roots := by
  obtain ⟨r, hr, hra⟩ := ha
  exact ⟨r, hr, hra.tail hab⟩

/-- From more roots more is reachable. -/
theorem Reachable.mono {roots' : Set α} (h : roots ⊆ roots') :
    Reachable edge roots ⊆ Reachable edge roots' := fun _ ⟨r, hr, hra⟩ => ⟨r, h hr, hra⟩

/-- **Induction rule.** What is reachable belongs to every set that contains the roots and all
    successors of its nodes. -/
theorem Reachable.subset_of_closed {nodes : Set α} (hroots : roots ⊆ nodes)
    (hclosed : ∀ a ∈ nodes, ∀ b, edge a b → b ∈ nodes) : Reachable edge roots ⊆ nodes := by
  rintro a ⟨r, hr, hra⟩
  induction hra with
  | refl => exact hroots hr
  | tail _ hab ih => exact hclosed _ ih _ hab

/-- A map that takes the successors of a node to those of its image takes what is reachable to
    what is reachable. -/
theorem Reachable.image {β : Type*} {edge' : β → β → Prop} {f : α → β}
    (h : ∀ a ∈ Reachable edge roots, ∀ b', edge' (f a) b' ↔ ∃ b, edge a b ∧ f b = b') :
    f '' Reachable edge roots = Reachable edge' (f '' roots) := by
  refine Set.Subset.antisymm ?_ ?_
  · rintro _ ⟨a, ⟨r, hr, hra⟩, rfl⟩
    refine ⟨f r, Set.mem_image_of_mem f hr, ?_⟩
    induction hra with
    | refl => exact .refl
    | tail hrb hbc ih => exact ih.tail ((h _ ⟨r, hr, hrb⟩ _).mpr ⟨_, hbc, rfl⟩)
  · refine Reachable.subset_of_closed (Set.image_mono subset_reachable) ?_
    rintro _ ⟨b, hb, rfl⟩ b' hedge
    obtain ⟨c, hbc, rfl⟩ := (h b hb b').mp hedge
    exact ⟨c, Reachable.tail hb hbc, rfl⟩

namespace Explores

/-- At the start everything is pending. -/
theorem start (edge : α → α → Prop) (roots : Set α) : Explores edge roots ∅ roots where
  reached := by rw [Set.empty_union]; exact subset_reachable
  rooted := by rw [Set.empty_union]
  closed a ha := ha.elim

/-- A new root is pending. -/
theorem addRoot (h : Explores edge roots done pending) (a : α) :
    Explores edge (insert a roots) done (insert a pending) where
  reached := by
    rintro b (hb | rfl | hb)
    · exact Reachable.mono (Set.subset_insert a roots) (h.reached (Or.inl hb))
    · exact subset_reachable (Set.mem_insert b roots)
    · exact Reachable.mono (Set.subset_insert a roots) (h.reached (Or.inr hb))
  rooted := by
    rintro b (rfl | hb)
    · exact Or.inr (Set.mem_insert b pending)
    · exact (h.rooted hb).imp_right fun hb => Set.mem_insert_of_mem a hb
  closed b hb c hbc := (h.closed b hb c hbc).imp_right fun hc => Set.mem_insert_of_mem a hc

/-- A pending node is done once its successors are done or pending. -/
theorem visit (h : Explores edge roots done pending) (ha : a ∈ pending)
    (hpending : pending ⊆ insert a pending')
    (hsucc : ∀ b, edge a b → b ∈ insert a done ∪ pending')
    (hnew : ∀ b ∈ pending', b ∈ pending ∨ edge a b) :
    Explores edge roots (insert a done) pending' where
  reached := by
    have hreach : a ∈ Reachable edge roots := h.reached (Or.inr ha)
    rintro b ((rfl | hb) | hb)
    · exact hreach
    · exact h.reached (Or.inl hb)
    · exact (hnew b hb).elim (fun hb => h.reached (Or.inr hb)) (Reachable.tail hreach)
  rooted := by
    intro b hb
    rcases h.rooted hb with hb | hb
    · exact Or.inl (Set.mem_insert_of_mem a hb)
    · rcases hpending hb with rfl | hb
      · exact Or.inl (Set.mem_insert b done)
      · exact Or.inr hb
  closed := by
    rintro b (rfl | hb) c hbc
    · exact hsucc c hbc
    · rcases h.closed b hb c hbc with hc | hc
      · exact Or.inl (Set.mem_insert_of_mem a hc)
      · rcases hpending hc with rfl | hc
        · exact Or.inl (Set.mem_insert c done)
        · exact Or.inr hc

/-- **With nothing pending, the nodes done are the reachable ones.** -/
theorem finish (h : Explores edge roots done ∅) : done = Reachable edge roots := by
  refine Set.Subset.antisymm (fun a ha => h.reached (Or.inl ha))
    (Reachable.subset_of_closed (fun a ha => ?_) fun a ha b hab => ?_)
  · exact (h.rooted ha).resolve_right (Set.notMem_empty a)
  · exact (h.closed a ha b hab).resolve_right (Set.notMem_empty b)

end Explores

/-! ### Graphs without cycles -/

/-- The nodes of a finite graph without cycles have ranks that decrease along its edges. -/
theorem exists_rank (edge : α → α → Prop) {nodes : Set α} (hfinite : nodes.Finite)
    (hacyclic : ∀ a ∈ nodes, ¬ TransGen edge a a) :
    ∃ rank : α → ℕ, ∀ a ∈ nodes, ∀ b ∈ nodes, edge a b → rank b < rank a := by
  refine ⟨fun a => {c ∈ nodes | TransGen edge a c}.ncard, fun a _ b hb hab => ?_⟩
  refine Set.ncard_lt_ncard (Set.ssubset_iff_exists.mpr ⟨?_, b, ⟨hb, .single hab⟩, ?_⟩)
    (hfinite.subset (Set.sep_subset ..))
  · exact fun c ⟨hc, hbc⟩ => ⟨hc, .head hab hbc⟩
  · exact fun ⟨_, hbb⟩ => hacyclic b hb hbb

/-- Replacing a node of a worklist by nodes of smaller rank decreases the worklist. -/
theorem rest_append_lt {β : Type*} (rank : β → ℕ) {worklist rest added : List β} {b : β}
    (hperm : (b :: rest).Perm worklist) (hadded : ∀ c ∈ added, rank c < rank b) :
    Multiset.IsDershowitzMannaLT (((rest ++ added).map rank : List ℕ) : Multiset ℕ)
      ((worklist.map rank : List ℕ) : Multiset ℕ) := by
  refine ⟨(rest.map rank : List ℕ), (added.map rank : List ℕ), {rank b},
    Multiset.singleton_ne_zero _, by simp, ?_, ?_⟩
  · rw [← Multiset.coe_eq_coe.mpr (hperm.map rank), List.map_cons, add_comm]
    rfl
  · intro n hn
    obtain ⟨c, hc, rfl⟩ := List.mem_map.mp (Multiset.mem_coe.mp hn)
    exact ⟨rank b, Multiset.mem_singleton_self _, hadded c hc⟩
