import QBRepository.Realm.Delete
import QBRepository.Realm.Subtypes

namespace QBRepository

/-!
# Cycles of unmanaged objects

Deleting an element invalidates it only if it is managed.  An unmanaged object on a cycle leads
back to itself, so the cascade takes it out and puts it in again.

* `Realm.Circling` — what leads to such a cycle;
* `Cascading.circling` — once something of it is pending, something is so after every iteration;
* `cascade_terminates_iff` — both cascades terminate exactly on graphs without such cycles.
-/

variable {Scalar : Type} {env : RealmEnvironment Scalar} {s₀ s : Realm Scalar}
  {roots done : Set Vertex} {toBeDeleted : List Ref} {entity : Ref}

/-- The vertices that lead to a cycle of unmanaged objects. -/
def Realm.Circling (s : Realm Scalar) : Set Vertex :=
  {a | ∃ r, Relation.ReflTransGen s.Edge a (.object r) ∧
    Relation.TransGen s.Edge (.object r) (.object r)}

/-- A vertex leads to no cycle, unless it is circling. -/
theorem Realm.acyclic_iff {a : Vertex} : s.Acyclic {a} ↔ a ∉ s.Circling := by
  constructor
  · rintro h ⟨r, hpath, hcycle⟩
    exact h r ⟨a, rfl, hpath⟩ hcycle
  · rintro h r ⟨_, rfl, hpath⟩ hcycle
    exact h ⟨r, hpath, hcycle⟩

/-- The way goes on. -/
theorem Realm.circling_succ {a : Vertex} (ha : a ∈ s.Circling) :
    ∃ b ∈ s.Circling, s.Edge a b := by
  obtain ⟨r, hpath, hcycle⟩ := ha
  rcases hpath.cases_head with rfl | ⟨b, hab, hbr⟩
  · obtain ⟨b, hb, hback⟩ := Relation.TransGen.head'_iff.mp hcycle
    exact ⟨b, ⟨r, hback, hcycle⟩, hb⟩
  · exact ⟨b, ⟨r, hbr, hcycle⟩, hab⟩

/-- Only unmanaged objects lead to unmanaged objects. -/
theorem Realm.circling_object {a : Vertex} (ha : a ∈ s.Circling) : ∃ r, a = .object r := by
  cases a with
  | object r => exact ⟨r, rfl⟩
  | row row =>
    obtain ⟨r, hpath, -⟩ := ha
    have hreached : .object r ∈ Reachable s.Edge {.row row} := ⟨_, rfl, hpath⟩
    obtain ⟨row', hrow⟩ := Realm.reachable_rows (fun _ h => ⟨row, h⟩) hreached
    cases hrow

/-- **What circles stays pending**: it is not invalidated, and its links are put in again. -/
theorem Cascading.circling (h : Cascading s₀ roots done s toBeDeleted)
    (hcircling : ∃ a ∈ s.vertices toBeDeleted, a ∈ s₀.Circling)
    {next : Option (Realm Scalar × List Ref)}
    (hstep : cascadeStep env (s, toBeDeleted) = .returns next) :
    ∃ state', next = some state' ∧ ∃ a ∈ state'.1.vertices state'.2, a ∈ s₀.Circling := by
  obtain ⟨a, ⟨r, hr, rfl⟩, ha⟩ := hcircling
  rcases cascadeStep_cases hstep with
    ⟨rfl, -⟩ | ⟨element, rest, hperm, ⟨hinvalid, rfl⟩ | ⟨⟨s', toBeDeleted'⟩, hresolve, rfl⟩⟩
  · exact (List.not_mem_nil hr).elim
  · refine ⟨_, rfl, s.vertexOf r, ⟨r, ?_, rfl⟩, ha⟩
    -- the element that is skipped is another one
    refine (List.mem_cons.mp (hperm.mem_iff.mpr hr)).resolve_left ?_
    rintro rfl
    obtain ⟨r', hvertex⟩ := Realm.circling_object ha
    obtain ⟨rfl, record, hobject⟩ := s.object_of_vertexOf_object (h.known r hr) hvertex
    rw [Realm.isInvalidated_unmanaged hobject] at hinvalid
    cases hinvalid
  · have htaken := h.take hperm
    obtain ⟨-, -, hvertices⟩ :=
      resolve_vertices (fun r hr => htaken.known r (List.mem_cons_of_mem element hr)) hresolve
    refine ⟨_, rfl, ?_⟩
    rw [hvertices]
    rcases List.mem_cons.mp (hperm.mem_iff.mpr hr) with rfl | hrest
    · -- a target of the element circles as well
      obtain ⟨b, hb, hedge⟩ := Realm.circling_succ ha
      obtain ⟨r', hvertex⟩ := Realm.circling_object ha
      refine ⟨b, Or.inr ?_, hb⟩
      show Realm.Edge _ (s.vertexOf r) b
      rw [hvertex] at hedge ⊢
      exact htaken.keeps.edge.mpr hedge
    · exact ⟨s.vertexOf r, Or.inl ⟨r, hrest, rfl⟩, ha⟩

/-- **The loop does not come back** once something that circles is pending. -/
theorem Cascading.loop_diverges (hash : LinksHash env s₀ roots)
    (h : Cascading s₀ roots done s toBeDeleted)
    (hcircling : ∃ a ∈ s.vertices toBeDeleted, a ∈ s₀.Circling) (fuel : Nat) :
    cascadeLoop env fuel (s, toBeDeleted) = .diverges := by
  refine Outcome.loop_diverges (I := fun state =>
    (∃ done, Cascading s₀ roots done state.1 state.2) ∧
    ∃ a ∈ state.1.vertices state.2, a ∈ s₀.Circling) ?_ fuel ⟨⟨done, h⟩, hcircling⟩
  rintro ⟨s, toBeDeleted⟩ ⟨⟨done, hstate⟩, hcircling⟩
  obtain ⟨next, hnext⟩ := hstate.cascadeStep_returns hash
  obtain ⟨state', rfl, hcircling'⟩ := hstate.circling hcircling hnext
  exact ⟨state', hnext, hstate.step hnext, hcircling'⟩

/-- The cascade does not end on such an object. -/
theorem cascadeDelete_diverges (hash : ∀ s r, env.hash s r = true) (hknown : s.object entity ≠ none)
    (hcircling : s.vertexOf entity ∈ s.Circling) (fuel : Nat) :
    cascadeDelete env fuel entity s = .diverges := by
  have hstart := (Cascading.start s).addRoot hknown
  have hloop : cascadeLoop env fuel (s, [entity]) = .diverges :=
    hstart.loop_diverges (linksHash_of_total hash) ⟨_, ⟨entity, List.mem_cons_self, rfl⟩, hcircling⟩
      fuel
  rw [cascadeDelete, insert_nil, hash, if_pos rfl, Outcome.returns_bind, hloop]
  rfl

/-- Neither does the cascade below it. -/
theorem cascadeDeleteSubtypes_diverges (hash : ∀ s r, env.hash s r = true)
    (hvalid : s.isInvalidated entity = false) (hcircling : s.vertexOf entity ∈ s.Circling)
    (fuel : Nat) : cascadeDeleteSubtypes env fuel entity s = .diverges := by
  obtain ⟨⟨s₁, toBeDeleted⟩, hresolve⟩ :=
    resolve_total env false hvalid (fun _ _ => hash _ _) []
  -- a target of the entity circles
  obtain ⟨b, hb, hedge⟩ := Realm.circling_succ hcircling
  have hpending : b ∈ s₁.vertices toBeDeleted := by
    rw [(resolve_vertices (by simp) hresolve).2.2]
    exact Or.inr hedge
  have hloop : cascadeLoop env fuel (s₁, toBeDeleted) = .diverges :=
    (Cascading.subtypes hresolve).loop_diverges (linksHash_of_total hash) ⟨b, hpending, hb⟩ fuel
  rw [cascadeDeleteSubtypes, hresolve, Outcome.returns_bind, hloop]
  rfl

/-- **Both cascades terminate** exactly if no unmanaged object they reach lies on a cycle, whatever
    the order of the set (`env.pick`). -/
theorem cascade_terminates_iff (hash : ∀ s r, env.hash s r = true) (s : Realm Scalar)
    (hknown : s.object entity ≠ none) :
    ((∃ s', Outcome.Converges (fun fuel => cascadeDelete env fuel entity s) s') ↔
        s.Acyclic {s.vertexOf entity}) ∧
      (s.isInvalidated entity = false →
        ((∃ s', Outcome.Converges (fun fuel => cascadeDeleteSubtypes env fuel entity s) s') ↔
          s.Acyclic {s.vertexOf entity})) := by
  refine ⟨⟨?_, fun h => ?_⟩, fun hvalid => ⟨?_, fun h => ?_⟩⟩
  · rintro ⟨s', hconverges⟩
    refine Realm.acyclic_iff.mpr fun hcircling => ?_
    exact Outcome.not_converges_of_diverges (cascadeDelete_diverges hash hknown hcircling) s'
      hconverges
  · have hacyclic : s.Acyclic (insert (s.vertexOf entity) (s.vertices [])) := by
      rwa [s.vertices_nil, insert_empty_eq]
    obtain ⟨rank, hrank⟩ := hacyclic.descends
    exact (Cascading.start s).cascadeDelete_converges hknown (hash s entity)
      (linksHash_of_total hash) hrank
  · rintro ⟨s', hconverges⟩
    refine Realm.acyclic_iff.mpr fun hcircling => ?_
    exact Outcome.not_converges_of_diverges
      (cascadeDeleteSubtypes_diverges hash hvalid hcircling) s' hconverges
  · have hacyclic : s.Acyclic {b | s.Edge (s.vertexOf entity) b} := by
      rintro r ⟨b, hb, hpath⟩
      exact h r ⟨s.vertexOf entity, rfl, .head hb hpath⟩
    obtain ⟨rank, hrank⟩ := hacyclic.descends
    exact cascadeDeleteSubtypes_converges hvalid (fun _ _ => hash _ _) (linksHash_of_total hash)
      hrank

/-- Only unmanaged objects circle, so deleting two stored persons who are friends comes back. -/
theorem terminates_friends :
    (∃ s', Outcome.Converges (fun fuel => cascadeDelete unkeyed fuel 0 friends) s') ∧
      ∃ s', Outcome.Converges (fun fuel => cascadeDeleteSubtypes unkeyed fuel 0 friends) s' := by
  have hacyclic : friends.Acyclic {friends.vertexOf 0} := by
    refine Realm.acyclic_iff.mpr fun hcircling => ?_
    obtain ⟨r, hr⟩ := Realm.circling_object hcircling
    cases hr
  have hhash : ∀ s r, unkeyed.hash s r = true := fun _ _ => rfl
  have hknown : friends.object 0 ≠ none := Option.some_ne_none _
  obtain ⟨hdelete, hsubtypes⟩ := cascade_terminates_iff hhash friends hknown
  exact ⟨hdelete.mpr hacyclic, (hsubtypes rfl).mpr hacyclic⟩

/-- A new person who is their own friend. -/
def ownFriend : Realm Nat where
  rows := .empty
  heap := .single ⟨"Person", [("friend", .object (some 0))]⟩ fun _ => List.mem_singleton.mp
  inWriteTransaction := false
  picks := 0

/-- Storing this person does not come back. -/
theorem not_terminates_ownFriend :
    ¬ ∃ s', Outcome.Converges (fun fuel => cascadeDeleteSubtypes unkeyed fuel 0 ownFriend) s' := by
  rintro ⟨s', hconverges⟩
  have hedge : ownFriend.Edge (.object 0) (.object 0) := by
    show Vertex.object 0 ∈ [Vertex.object 0]
    exact List.mem_singleton_self _
  have hcircling : ownFriend.vertexOf 0 ∈ ownFriend.Circling := ⟨0, .refl, .single hedge⟩
  exact Outcome.not_converges_of_diverges
    (cascadeDeleteSubtypes_diverges (fun _ _ => rfl) rfl hcircling) s' hconverges

end QBRepository
