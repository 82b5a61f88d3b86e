import Mathlib.Data.List.Perm.Basic
import QBRepository.Lib.Worklist
import QBRepository.Realm.Repository
import QBRepository.Realm.Without

namespace QBRepository

/-!
# Cascading deletion deletes the reachable rows

The loop destroys the graph it explores.  `Cascading` relates its state to the graph it has
started from: the rows are those of the start without the rows done, and the vertices done and
pending explore the graph of the start.  No order of the set is assumed.
-/

variable {Scalar : Type} {env : RealmEnvironment Scalar}

/-- The rows among some vertices. -/
def rowsIn (vertices : Set Vertex) : Set RowId := {row | Vertex.row row ∈ vertices}

@[simp] theorem Realm.vertices_nil (s : Realm Scalar) : s.vertices [] = ∅ := by
  ext a
  simp [Realm.vertices]

/-- One element more. -/
theorem Realm.vertices_cons (s : Realm Scalar) (r : Ref) (toBeDeleted : List Ref) :
    s.vertices (r :: toBeDeleted) = insert (s.vertexOf r) (s.vertices toBeDeleted) := by
  ext a
  simp [Realm.vertices, eq_comm]

/-- One element more, at the end. -/
theorem Realm.vertices_concat (s : Realm Scalar) (r : Ref) (toBeDeleted : List Ref) :
    s.vertices (toBeDeleted ++ [r]) = insert (s.vertexOf r) (s.vertices toBeDeleted) := by
  ext a
  simp [Realm.vertices, eq_comm, or_comm]

/-- The state of a cascade that has started from the graph of `s₀` at `roots`. -/
structure Cascading (s₀ : Realm Scalar) (roots done : Set Vertex) (s : Realm Scalar)
    (toBeDeleted : List Ref) : Prop where
  keeps : s₀.KeepsObjects s
  known : ∀ r ∈ toBeDeleted, s.object r ≠ none
  next : s.rows.next = s₀.rows.next
  rows : s.rows.get = without s₀.rows (rowsIn done)
  explores : Explores s₀.Edge roots done (s.vertices toBeDeleted)

/-- A cascade that has nothing to delete yet. -/
theorem Cascading.start (s : Realm Scalar) : Cascading s (s.vertices []) ∅ s [] where
  keeps := .refl s
  known r hr := (List.not_mem_nil hr).elim
  next := rfl
  rows := (without_eq_self fun _ hrow => hrow.elim).symm
  explores := by
    rw [s.vertices_nil]
    exact Explores.start s.Edge ∅

/-- Reading objects in between does not matter. -/
theorem Cascading.read {s₀ s s' : Realm Scalar} {roots done : Set Vertex}
    (h : Cascading s₀ roots done s []) (hread : s.Extends s') :
    Cascading s₀ roots done s' [] where
  keeps := h.keeps.trans hread.toKeepsObjects
  known r hr := (List.not_mem_nil hr).elim
  next := by rw [hread.rows, h.next]
  rows := by rw [hread.rows, h.rows]
  explores := by
    have hexplores := h.explores
    rw [Realm.vertices_nil] at hexplores ⊢
    exact hexplores

/-- A cascade that has nothing left to delete has removed the reachable rows. -/
theorem Cascading.finish {s₀ s : Realm Scalar} {roots done : Set Vertex}
    (h : Cascading s₀ roots done s []) :
    s.rows.get = without s₀.rows (rowsIn (Reachable s₀.Edge roots)) := by
  have hexplores := h.explores
  rw [s.vertices_nil] at hexplores
  rw [← hexplores.finish]
  exact h.rows

/-! ### The set -/

/-- Equal references denote one vertex. -/
theorem Realm.vertexOf_of_isEqual {s : Realm Scalar} {a b : Ref} (h : s.isEqual env a b = true) :
    s.vertexOf a = s.vertexOf b := by
  rw [Realm.isEqual, Bool.or_eq_true] at h
  rcases h with h | h
  · rw [beq_iff_eq.mp h]
  · rw [Realm.vertexOf, Realm.vertexOf]
    -- two accessors of one row; anything else is equal to itself only
    cases ha : s.object a with
    | none => simp [ha] at h
    | some object =>
      cases hb : s.object b with
      | none => cases object <;> simp [ha, hb] at h
      | some object' =>
        cases object with
        | unmanaged record => simp [ha] at h
        | managed className row =>
          cases object' with
          | unmanaged record => simp [ha, hb] at h
          | managed className' row' =>
            simp only [ha, hb, Bool.and_eq_true, beq_iff_eq] at h
            rw [h.1.2]

/-- Inserting references adds their vertices; equal references are not inserted twice. -/
theorem insert_spec {s : Realm Scalar} {values toBeDeleted toBeDeleted' : List Ref}
    (h : Outcome.forEach (ToBeDeleted.insert env s) values toBeDeleted = .returns toBeDeleted') :
    s.vertices toBeDeleted' = s.vertices toBeDeleted ∪ s.vertices values ∧
      ∃ added, toBeDeleted' = toBeDeleted ++ added ∧ ∀ r ∈ added, r ∈ values := by
  induction values generalizing toBeDeleted with
  | nil =>
    obtain rfl := Outcome.returns.inj h
    exact ⟨by simp [Realm.vertices], [], by simp, fun r hr => hr⟩
  | cons value values ih =>
    obtain ⟨next, hnext, h⟩ := Outcome.bind_eq_returns.mp h
    obtain ⟨hvertices, added, rfl, hadded⟩ := ih h
    -- one insertion, of an equal element or a new one
    have hone : s.vertices next = insert (s.vertexOf value) (s.vertices toBeDeleted) ∧
        ∃ first, next = toBeDeleted ++ first ∧ ∀ r ∈ first, r = value := by
      rw [ToBeDeleted.insert] at hnext
      split at hnext
      · obtain rfl := Outcome.returns.inj hnext
        split
        · next hany =>
          obtain ⟨r, hr, hequal⟩ := List.any_eq_true.mp hany
          refine ⟨(Set.insert_eq_of_mem ?_).symm, [], by simp, by simp⟩
          exact ⟨r, hr, Realm.vertexOf_of_isEqual hequal⟩
        · exact ⟨s.vertices_concat value toBeDeleted, [value], rfl, by simp⟩
      · cases hnext
    obtain ⟨hfirst, first, rfl, hall⟩ := hone
    refine ⟨?_, first ++ added, List.append_assoc .., fun r hr => ?_⟩
    · rw [hvertices, hfirst, s.vertices_cons, Set.insert_union, Set.union_insert]
    · rcases List.mem_append.mp hr with hr | hr
      · exact hall r hr ▸ List.mem_cons_self
      · exact List.mem_cons_of_mem value (hadded r hr)

/-- `removeFirst` takes out one element. -/
theorem removeFirst_perm {pick : Nat} {toBeDeleted rest : List Ref} {element : Ref}
    (h : ToBeDeleted.removeFirst pick toBeDeleted = some (element, rest)) :
    (element :: rest).Perm toBeDeleted := by
  obtain ⟨element', helement, heq⟩ := Option.map_eq_some_iff.mp h
  obtain ⟨hlt, hget⟩ := List.getElem?_eq_some_iff.mp helement
  obtain ⟨rfl, rfl⟩ := Prod.mk.inj heq
  rw [← hget]
  exact List.getElem_cons_eraseIdx_perm hlt

/-- An element is removed from every set that has one. -/
theorem removeFirst_eq_none {pick : Nat} {toBeDeleted : List Ref} :
    ToBeDeleted.removeFirst pick toBeDeleted = none ↔ toBeDeleted = [] := by
  constructor
  · intro h
    rw [ToBeDeleted.removeFirst, Option.map_eq_none_iff, List.getElem?_eq_none_iff] at h
    by_contra hne
    exact Nat.not_lt.mpr h (Nat.mod_lt _ (List.length_pos_iff.mpr hne))
  · rintro rfl
    rfl

/-! ### One iteration -/

@[simp] theorem rowsIn_insert_row (row : RowId) (vertices : Set Vertex) :
    rowsIn (insert (.row row) vertices) = insert row (rowsIn vertices) := by
  ext k
  simp [rowsIn]

@[simp] theorem rowsIn_insert_object (r : Ref) (vertices : Set Vertex) :
    rowsIn (insert (.object r) vertices) = rowsIn vertices := by
  ext k
  simp [rowsIn]

/-- A link that is not there any more has led to a deleted row, or from one. -/
theorem Cascading.edge {s₀ s : Realm Scalar} {roots done : Set Vertex} {toBeDeleted : List Ref}
    (h : Cascading s₀ roots done s toBeDeleted) (a b : Vertex) :
    (s.Edge a b → s₀.Edge a b) ∧ (s₀.Edge a b → s.Edge a b ∨ a ∈ done ∨ b ∈ done) := by
  cases a with
  | object r => exact ⟨h.keeps.edge.mp, fun hb => Or.inl (h.keeps.edge.mpr hb)⟩
  | row row =>
    -- a deleted row has no links left; another one has lost those to deleted rows
    by_cases hdone : row ∈ rowsIn done
    · have hnone : s.targets (.row row) = [] := by
        rw [Realm.targets, Realm.record, h.rows, without_of_mem hdone, Option.map_none]
      rw [Realm.Edge, hnone]
      exact ⟨fun hb => (List.not_mem_nil hb).elim, fun _ => Or.inr (Or.inl hdone)⟩
    · rw [Realm.Edge, Realm.Edge, Realm.targets, Realm.targets, Realm.record, Realm.record,
        h.rows, without_of_notMem hdone]
      cases s₀.rows.get row with
      | none => exact ⟨id, Or.inl⟩
      | some record =>
        simp only [Option.map_some, Record.targets_map, Record.targets_filterMap]
        constructor
        · rintro hb
          obtain ⟨t, ht, rfl⟩ := List.mem_map.mp hb
          obtain ⟨t', ht', hsurvivor⟩ := List.mem_filterMap.mp ht
          exact List.mem_map.mpr ⟨t', ht', congrArg Vertex.row (eq_of_survivor hsurvivor)⟩
        · rintro hb
          obtain ⟨t, ht, rfl⟩ := List.mem_map.mp hb
          by_cases hlost : t ∈ rowsIn done ∧ s₀.rows.get t ≠ none
          · exact Or.inr (Or.inr hlost.1)
          · exact Or.inl (List.mem_map.mpr
              ⟨t, List.mem_filterMap.mpr ⟨t, ht, if_neg hlost⟩, rfl⟩)

/-- Deleting the element removes its row, if it has one. -/
theorem Cascading.rows_deleteMain {s₀ s : Realm Scalar} {done : Set Vertex} {element : Ref}
    (hrows : s.rows.get = without s₀.rows (rowsIn done))
    (hvalid : s.isInvalidated element = false) :
    (s.deleteMain element).rows.get
      = without s₀.rows (rowsIn (insert (s.vertexOf element) done)) := by
  rw [Realm.isInvalidated] at hvalid
  rw [Realm.deleteMain, Realm.vertexOf]
  cases hobject : s.object element with
  | none => exact hrows.trans (by rw [rowsIn_insert_object])
  | some object =>
    cases object with
    | unmanaged record => exact hrows.trans (by rw [rowsIn_insert_object])
    | managed className row =>
      simp only [hobject, Option.isNone_eq_false_iff, Option.isSome_iff_ne_none] at hvalid
      rw [rowsIn_insert_row]
      exact Realm.rows_deleteRow hrows hvalid

@[simp] theorem Realm.next_deleteMain (s : Realm Scalar) (element : Ref) :
    (s.deleteMain element).rows.next = s.rows.next := by
  rw [Realm.deleteMain]
  split <;> rfl

@[simp] theorem Realm.heap_deleteMain (s : Realm Scalar) (element : Ref) :
    (s.deleteMain element).heap = s.heap := by
  rw [Realm.deleteMain]
  split <;> rfl

/-- The vertices of a set depend on those of its elements. -/
theorem Realm.vertices_congr {s s' : Realm Scalar} {toBeDeleted : List Ref}
    (h : ∀ r ∈ toBeDeleted, s'.vertexOf r = s.vertexOf r) :
    s'.vertices toBeDeleted = s.vertices toBeDeleted := by
  ext a
  exact exists_congr fun r => and_congr_right fun hr => by rw [h r hr]

/-- Taking an element out goes on with the exploration, if what it still leads to is pending:
    its other links have led to deleted rows. -/
theorem Cascading.explores_visit {s₀ s : Realm Scalar} {roots done pending : Set Vertex}
    {element : Ref} {rest : List Ref} (h : Cascading s₀ roots done s (element :: rest))
    (hrest : s.vertices rest ⊆ pending)
    (hsucc : ∀ b, s.Edge (s.vertexOf element) b → b ∈ pending)
    (hnew : ∀ b ∈ pending, b ∈ s.vertices rest ∨ s.Edge (s.vertexOf element) b) :
    Explores s₀.Edge roots (insert (s.vertexOf element) done) pending := by
  have hexplores := h.explores
  rw [s.vertices_cons] at hexplores
  refine hexplores.visit (Set.mem_insert _ _) (Set.insert_subset_insert hrest) ?_ ?_
  · intro b hb
    rcases (h.edge _ b).2 hb with hb' | ha | hb'
    · exact Or.inr (hsucc b hb')
    -- the element was an accessor of a row that has been deleted before
    · rcases hexplores.closed _ ha b hb with hb' | rfl | hb'
      · exact Or.inl (Set.mem_insert_of_mem _ hb')
      · exact Or.inl (Set.mem_insert _ _)
      · exact Or.inr (hrest hb')
    · exact Or.inl (Set.mem_insert_of_mem _ hb')
  · intro b hb
    rcases hnew b hb with hb | hb
    · exact Or.inl (Set.mem_insert_of_mem _ hb)
    · exact Or.inr ((h.edge _ b).1 hb)

/-- Skipping an accessor of a deleted row. -/
theorem Cascading.skip {s₀ s : Realm Scalar} {roots done : Set Vertex} {element : Ref}
    {rest : List Ref} (h : Cascading s₀ roots done s (element :: rest))
    (hinvalid : s.isInvalidated element = true) :
    Cascading s₀ roots (insert (s.vertexOf element) done) s rest := by
  -- an invalidated element is an accessor of a row that is gone
  obtain ⟨row, hvertex, hnone⟩ : ∃ row, s.vertexOf element = .row row ∧ s.rows.get row = none := by
    rw [Realm.isInvalidated] at hinvalid
    rw [Realm.vertexOf]
    cases hobject : s.object element with
    | none => simp [hobject] at hinvalid
    | some object =>
      cases object with
      | unmanaged record => simp [hobject] at hinvalid
      | managed className row => exact ⟨row, rfl, by simpa [hobject] using hinvalid⟩
  have htargets : ∀ b, ¬ s.Edge (s.vertexOf element) b := by
    intro b
    rw [Realm.Edge, Realm.targets, hvertex, Realm.record, hnone]
    exact List.not_mem_nil
  refine ⟨h.keeps, fun r hr => h.known r (List.mem_cons_of_mem element hr), h.next, ?_, ?_⟩
  · rw [hvertex, rowsIn_insert_row, without_insert_of_none]
    · exact h.rows
    · rw [← h.rows, hnone]
  · exact h.explores_visit subset_rfl (fun b hb => (htargets b hb).elim) fun b => Or.inl

/-- `resolve` returns if the element is valid and its links can be inserted. -/
theorem resolve_eq_returns {s s' : Realm Scalar} {element : Ref} {deleteMainItem : Bool}
    {rest toBeDeleted : List Ref} :
    resolve env element deleteMainItem s rest = .returns (s', toBeDeleted) ↔
      s.isInvalidated element = false ∧
      Outcome.forEach (ToBeDeleted.insert env (s.links element).2) (s.links element).1 rest
        = .returns toBeDeleted ∧
      s' = if deleteMainItem then (s.links element).2.deleteMain element
        else (s.links element).2 := by
  rw [resolve]
  cases s.isInvalidated element with
  | true => exact ⟨fun h => (by cases h), fun h => (by cases h.1)⟩
  | false =>
    rw [if_neg Bool.false_ne_true]
    refine Outcome.bind_eq_returns.trans ⟨?_, ?_⟩
    · rintro ⟨next, hnext, h⟩
      obtain ⟨rfl, rfl⟩ := Prod.mk.inj (Outcome.returns.inj h)
      exact ⟨rfl, hnext, rfl⟩
    · rintro ⟨-, hnext, rfl⟩
      exact ⟨toBeDeleted, hnext, rfl⟩

/-- What is to be deleted after collecting the links of an element. -/
theorem resolve_vertices {s s' : Realm Scalar} {element : Ref} {deleteMainItem : Bool}
    {rest toBeDeleted : List Ref} (hrest : ∀ r ∈ rest, s.object r ≠ none)
    (h : resolve env element deleteMainItem s rest = .returns (s', toBeDeleted)) :
    s.KeepsObjects s' ∧ (∀ r ∈ toBeDeleted, s'.object r ≠ none) ∧
      s'.vertices toBeDeleted = s.vertices rest ∪ {b | s.Edge (s.vertexOf element) b} := by
  obtain ⟨-, hinsert, rfl⟩ := resolve_eq_returns.mp h
  obtain ⟨hlinks, hlinked, hvalues⟩ := s.links_spec element
  obtain ⟨hnext, added, rfl, hadded⟩ := insert_spec hinsert
  have hknown : ∀ r ∈ rest ++ added, (s.links element).2.object r ≠ none := by
    intro r hr
    rcases List.mem_append.mp hr with hr | hr
    · exact hlinks.known (hrest r hr)
    · exact hlinked r (hadded r hr)
  -- the links are read first; deleting the element changes no object
  have hpending : (s.links element).2.vertices (rest ++ added)
      = s.vertices rest ∪ {b | s.Edge (s.vertexOf element) b} := by
    rw [hnext, Realm.vertices_congr fun r hr => hlinks.vertexOf (hrest r hr)]
    refine congrArg (s.vertices rest ∪ ·) (Set.ext fun b => ?_)
    show (∃ r ∈ _, _) ↔ b ∈ s.targets (s.vertexOf element)
    rw [← hvalues, List.mem_map]
  cases deleteMainItem with
  | false => exact ⟨hlinks.toKeepsObjects, hknown, hpending⟩
  | true =>
    have hkeeps : (s.links element).2.KeepsObjects ((s.links element).2.deleteMain element) :=
      .of_heap ((s.links element).2.heap_deleteMain element)
    refine ⟨hlinks.toKeepsObjects.trans hkeeps, fun r hr => hkeeps.known (hknown r hr), ?_⟩
    exact (Realm.vertices_congr fun r hr => hkeeps.vertexOf (hknown r hr)).trans hpending

/-- Collecting what the element leads to, and deleting it. -/
theorem Cascading.visit {s₀ s s' : Realm Scalar} {roots done : Set Vertex} {element : Ref}
    {rest toBeDeleted : List Ref} (h : Cascading s₀ roots done s (element :: rest))
    (hresolve : resolve env element true s rest = .returns (s', toBeDeleted)) :
    Cascading s₀ roots (insert (s.vertexOf element) done) s' toBeDeleted := by
  obtain ⟨hkeeps, hknown, hpending⟩ :=
    resolve_vertices (fun r hr => h.known r (List.mem_cons_of_mem element hr)) hresolve
  obtain ⟨hvalid, -, rfl⟩ := resolve_eq_returns.mp hresolve
  have hlinks := (s.links_spec element).1
  have hvertex : (s.links element).2.vertexOf element = s.vertexOf element :=
    hlinks.vertexOf (h.known element List.mem_cons_self)
  refine ⟨h.keeps.trans hkeeps, hknown, ?_, ?_, ?_⟩
  · exact ((s.links element).2.next_deleteMain element).trans (hlinks.rows ▸ h.next)
  · rw [← hvertex]
    refine Cascading.rows_deleteMain (hlinks.rows ▸ h.rows) ?_
    rw [Realm.isInvalidated] at hvalid ⊢
    obtain ⟨object, hobject⟩ := Option.ne_none_iff_exists'.mp (h.known element List.mem_cons_self)
    rw [hlinks.rows, hlinks.object element object hobject]
    rwa [hobject] at hvalid
  · rw [hpending]
    exact h.explores_visit Set.subset_union_left (fun b => Or.inr) fun b => id

/-- Taking an element out changes neither the rows nor the objects. -/
theorem Cascading.take {s₀ s : Realm Scalar} {roots done : Set Vertex} {element : Ref}
    {rest toBeDeleted : List Ref} (h : Cascading s₀ roots done s toBeDeleted)
    (hperm : (element :: rest).Perm toBeDeleted) :
    Cascading s₀ roots done { s with picks := s.picks + 1 } (element :: rest) where
  keeps := h.keeps.trans (.of_heap rfl)
  known r hr := h.known r (hperm.mem_iff.mp hr)
  next := h.next
  rows := h.rows
  explores := by
    have hvertices : s.vertices (element :: rest) = s.vertices toBeDeleted :=
      Set.ext fun a => exists_congr fun r => and_congr_left fun _ => hperm.mem_iff
    exact hvertices ▸ h.explores

/-- What one iteration does: nothing is left to be deleted, an accessor of a deleted row is
    skipped, or an element is resolved. -/
theorem cascadeStep_cases {s : Realm Scalar} {toBeDeleted : List Ref}
    {next : Option (Realm Scalar × List Ref)}
    (h : cascadeStep env (s, toBeDeleted) = .returns next) :
    toBeDeleted = [] ∧ next = none ∨ ∃ element rest, (element :: rest).Perm toBeDeleted ∧
      (s.isInvalidated element = true ∧ next = some ({ s with picks := s.picks + 1 }, rest) ∨
        ∃ state', resolve env element true { s with picks := s.picks + 1 } rest
          = .returns state' ∧ next = some state') := by
  rw [cascadeStep] at h
  split at h
  next hfirst => exact Or.inl ⟨removeFirst_eq_none.mp hfirst, (Outcome.returns.inj h).symm⟩
  next element rest hfirst =>
    refine Or.inr ⟨element, rest, removeFirst_perm hfirst, ?_⟩
    split at h
    next hinvalid => exact Or.inl ⟨hinvalid, (Outcome.returns.inj h).symm⟩
    next =>
      obtain ⟨state', hresolve, h⟩ := Outcome.bind_eq_returns.mp h
      exact Or.inr ⟨state', hresolve, (Outcome.returns.inj h).symm⟩

/-- **One iteration keeps the invariant**, whichever element is taken. -/
theorem Cascading.step {s₀ s s' : Realm Scalar} {roots done : Set Vertex}
    {toBeDeleted toBeDeleted' : List Ref} (h : Cascading s₀ roots done s toBeDeleted)
    (hstep : cascadeStep env (s, toBeDeleted) = .returns (some (s', toBeDeleted'))) :
    ∃ done', Cascading s₀ roots done' s' toBeDeleted' := by
  rcases cascadeStep_cases hstep with
    ⟨-, hnone⟩ | ⟨element, rest, hperm, ⟨hinvalid, hsome⟩ | ⟨state', hresolve, hsome⟩⟩
  · cases hnone
  · obtain ⟨rfl, rfl⟩ := Prod.mk.inj (Option.some.inj hsome)
    exact ⟨_, (h.take hperm).skip hinvalid⟩
  · obtain rfl := Option.some.inj hsome
    exact ⟨_, (h.take hperm).visit hresolve⟩

/-- **A loop that returns has nothing left to delete.** -/
theorem Cascading.loop {s₀ s s' : Realm Scalar} {roots done : Set Vertex}
    {toBeDeleted toBeDeleted' : List Ref} {fuel : Nat}
    (h : Cascading s₀ roots done s toBeDeleted)
    (hloop : cascadeLoop env fuel (s, toBeDeleted) = .returns (s', toBeDeleted')) :
    ∃ done', Cascading s₀ roots done' s' [] := by
  obtain ⟨⟨done', hend⟩, hnone⟩ := Outcome.loop_invariant
    (I := fun state => ∃ done, Cascading s₀ roots done state.1 state.2)
    (fun state state' ⟨_, hstate⟩ hstep => hstate.step hstep) ⟨done, h⟩ hloop
  -- an iteration returns `none` on the empty set only
  rcases cascadeStep_cases hnone with ⟨rfl, -⟩ | ⟨_, _, _, ⟨_, hsome⟩ | ⟨_, _, hsome⟩⟩
  · exact ⟨done', hend⟩
  · cases hsome
  · cases hsome

/-- Rows lead to rows only. -/
theorem Realm.reachable_rows {s : Realm Scalar} {roots : Set Vertex}
    (hroots : ∀ a ∈ roots, ∃ row, a = .row row) {a : Vertex} (ha : a ∈ Reachable s.Edge roots) :
    ∃ row, a = .row row := by
  have hsub : Reachable s.Edge roots ⊆ {a | ∃ row, a = .row row} := by
    refine Reachable.subset_of_closed hroots ?_
    rintro _ ⟨row, rfl⟩ b hab
    obtain ⟨record, _, t, _, rfl⟩ := s.edge_row.mp hab
    exact ⟨t, rfl⟩
  exact hsub ha

end QBRepository
