import QBRepository.Realm.Termination

namespace QBRepository

/-!
# Deleting the subtypes of an object

`cascadeDeleteSubtypes` deletes the rows below an object before the object is added.  Below an
unmanaged object there may be unmanaged ones: the loop visits them, again and again if they are
shared, but does not delete anything there.

* `cascadeDeleteSubtypes_spec` — the rows below are gone;
* `cascadeDeleteSubtypes_converges` — the loop terminates if everything below is unmanaged and
  has no cycles.
-/

variable {Scalar : Type} {env : RealmEnvironment Scalar} {s : Realm Scalar} {entity : Ref}

/-- The vertices below an object. -/
def Realm.below (s : Realm Scalar) (r : Ref) : Set Vertex :=
  Reachable s.Edge {b | s.Edge (s.vertexOf r) b}

/-- After collecting what the entity leads to, that is what is to be deleted. -/
theorem Cascading.subtypes {s' : Realm Scalar} {toBeDeleted : List Ref}
    (h : resolve env entity false s [] = .returns (s', toBeDeleted)) :
    Cascading s {b | s.Edge (s.vertexOf entity) b} ∅ s' toBeDeleted := by
  obtain ⟨hkeeps, hknown, hvertices⟩ := resolve_vertices (by simp) h
  obtain ⟨-, -, rfl⟩ := resolve_eq_returns.mp h
  have hlinks := (s.links_spec entity).1
  refine ⟨hkeeps, hknown, hlinks.rows ▸ rfl, ?_, ?_⟩
  · rw [without_eq_self fun _ hrow => hrow.elim]
    exact congrArg FreshMap.get hlinks.rows
  · rw [hvertices, Realm.vertices_nil, Set.empty_union]
    exact Explores.start s.Edge _

/-- **The rows below the entity are deleted**, and nothing else. -/
theorem cascadeDeleteSubtypes_spec {s' : Realm Scalar} {fuel : Nat}
    (h : cascadeDeleteSubtypes env fuel entity s = .returns s') :
    s.isInvalidated entity = false ∧ s.KeepsObjects s' ∧ s'.rows.next = s.rows.next ∧
      s'.rows.get = without s.rows (rowsIn (s.below entity)) := by
  obtain ⟨⟨s₁, toBeDeleted⟩, hresolve, h⟩ := Outcome.bind_eq_returns.mp h
  obtain ⟨⟨s₂, rest⟩, hloop, h⟩ := Outcome.bind_eq_returns.mp h
  obtain rfl := Outcome.returns.inj h
  obtain ⟨done, hend⟩ := (Cascading.subtypes hresolve).loop hloop
  exact ⟨(resolve_eq_returns.mp hresolve).1, hend.keeps, hend.next, hend.finish⟩

/-! ### Termination -/

/-- **The loop terminates** if what is read can be hashed and nothing unmanaged lies on a cycle. -/
theorem cascadeDeleteSubtypes_converges (hvalid : s.isInvalidated entity = false)
    (hchildren : ∀ r ∈ (s.links entity).1, env.hash (s.links entity).2 r = true)
    (hash : LinksHash env s {b | s.Edge (s.vertexOf entity) b}) {rank : Vertex → ℕ}
    (hrank : s.Descends {b | s.Edge (s.vertexOf entity) b} rank) :
    ∃ s', Outcome.Converges (fun fuel => cascadeDeleteSubtypes env fuel entity s) s' := by
  obtain ⟨⟨s₁, toBeDeleted⟩, hresolve⟩ := resolve_total env false hvalid hchildren []
  obtain ⟨⟨s', rest⟩, n, hn⟩ := (Cascading.subtypes hresolve).converges hash hrank
  refine ⟨s', n, fun fuel hfuel => ?_⟩
  have hloop : cascadeLoop env fuel (s₁, toBeDeleted) = .returns (s', rest) := hn fuel hfuel
  show cascadeDeleteSubtypes env fuel entity s = .returns s'
  rw [cascadeDeleteSubtypes, hresolve, Outcome.returns_bind, hloop]
  rfl

/-- In particular if all below the entity is unmanaged and its links descend. -/
theorem cascadeDeleteSubtypes_converges_of_objects
    (hash : ∀ s r, s.isInvalidated r = false → env.hash s r = true)
    (hvalid : s.isInvalidated entity = false)
    (hobjects : ∀ a ∈ s.below entity, ∃ r, a = .object r) (rank : Vertex → ℕ)
    (hrank : ∀ a ∈ s.below entity, ∀ b, s.Edge a b → rank b < rank a) :
    ∃ s', Outcome.Converges (fun fuel => cascadeDeleteSubtypes env fuel entity s) s' := by
  obtain ⟨-, hlinked, hvalues⟩ := s.links_spec entity
  refine cascadeDeleteSubtypes_converges hvalid (fun r hr => ?_)
    (linksHash_of_objects hash hobjects) fun r hr b => hrank _ hr b
  -- what the entity leads to is unmanaged, so it can be hashed
  have hbelow : (s.links entity).2.vertexOf r ∈ s.below entity := by
    refine subset_reachable ?_
    show _ ∈ s.targets (s.vertexOf entity)
    rw [← hvalues]
    exact List.mem_map_of_mem hr
  obtain ⟨r', hvertex⟩ := hobjects _ hbelow
  obtain ⟨-, record, hobject⟩ :=
    (s.links entity).2.object_of_vertexOf_object (hlinked r hr) hvertex
  exact hash _ r (Realm.isInvalidated_unmanaged hobject)

end QBRepository
