import Mathlib.Data.Prod.Lex
import QBRepository.Realm.Closure

namespace QBRepository

/-!
# Termination of the cascade

There is no set of visited objects.  An iteration deletes a row, or skips an accessor of a deleted
row, or replaces an unmanaged object by what it leads to; only the last one may go on forever.

* `LinksHash` — whatever a cascade reads can be hashed, so that no iteration raises;
* `Realm.Acyclic`, `Realm.Descends` — no unmanaged object lies on a cycle; their ranks;
* `remaining` — what every iteration decreases: the rows, or else the ranks that are pending;
* `Cascading.converges` — the loop returns.
-/

variable {Scalar : Type} {env : RealmEnvironment Scalar} {s₀ s : Realm Scalar}
  {roots done : Set Vertex} {toBeDeleted : List Ref}

/-! ### Nothing raises -/

/-- Whatever is read by a cascade that has started from the graph of `s₀` can be hashed. -/
def LinksHash (env : RealmEnvironment Scalar) (s₀ : Realm Scalar) (roots : Set Vertex) : Prop :=
  ∀ s done element rest, Cascading s₀ roots done s (element :: rest) →
    s.isInvalidated element = false → ∀ r ∈ (s.links element).1,
    env.hash (s.links element).2 r = true

/-- Where everything can be hashed, so can what is read. -/
theorem linksHash_of_total (hash : ∀ s r, env.hash s r = true) : LinksHash env s₀ roots :=
  fun _ _ _ _ _ _ _ _ => hash _ _

/-- What is read leads on in the graph the cascade has started from. -/
theorem Cascading.vertexOf_links {element : Ref} {rest : List Ref}
    (h : Cascading s₀ roots done s (element :: rest)) {r : Ref} (hr : r ∈ (s.links element).1) :
    (s.links element).2.vertexOf r ∈ Reachable s₀.Edge roots := by
  have htarget : (s.links element).2.vertexOf r ∈ s.targets (s.vertexOf element) := by
    rw [← (s.links_spec element).2.2]
    exact List.mem_map_of_mem hr
  have hreached := h.explores.reached (Or.inr ⟨element, List.mem_cons_self, rfl⟩)
  exact Reachable.tail hreached ((h.edge _ _).1 htarget)

/-- An unmanaged object is not invalidated. -/
theorem Realm.isInvalidated_unmanaged {r : Ref} {record : Record Scalar Ref}
    (h : s.object r = some (.unmanaged record)) : s.isInvalidated r = false := by
  rw [Realm.isInvalidated, h]

/-- Among unmanaged objects, hashing what is not invalidated is enough. -/
theorem linksHash_of_objects (hash : ∀ s r, s.isInvalidated r = false → env.hash s r = true)
    (hobjects : ∀ a ∈ Reachable s₀.Edge roots, ∃ r, a = .object r) : LinksHash env s₀ roots := by
  intro s done element rest h _ r hr
  obtain ⟨r', hvertex⟩ := hobjects _ (h.vertexOf_links hr)
  obtain ⟨-, record, hobject⟩ :=
    (s.links element).2.object_of_vertexOf_object ((s.links_spec element).2.1 r hr) hvertex
  exact hash _ r (Realm.isInvalidated_unmanaged hobject)

/-- A set whose elements can be hashed can be added to. -/
theorem insert_total (values : List Ref) (hash : ∀ r ∈ values, env.hash s r = true)
    (toBeDeleted : List Ref) :
    ∃ toBeDeleted', Outcome.forEach (ToBeDeleted.insert env s) values toBeDeleted
      = .returns toBeDeleted' := by
  induction values generalizing toBeDeleted with
  | nil => exact ⟨toBeDeleted, rfl⟩
  | cons value values ih =>
    rw [Outcome.forEach_cons, ToBeDeleted.insert, if_pos (hash value List.mem_cons_self),
      Outcome.returns_bind]
    exact ih (fun r hr => hash r (List.mem_cons_of_mem value hr)) _

/-- A step of the cascade does not raise. -/
theorem resolve_total (env : RealmEnvironment Scalar) {element : Ref} (deleteMainItem : Bool)
    (hvalid : s.isInvalidated element = false)
    (hash : ∀ r ∈ (s.links element).1, env.hash (s.links element).2 r = true) (rest : List Ref) :
    ∃ state', resolve env element deleteMainItem s rest = .returns state' := by
  obtain ⟨next, hnext⟩ := insert_total _ hash rest
  exact ⟨(_, next), resolve_eq_returns.mpr ⟨hvalid, hnext, rfl⟩⟩

/-- **No iteration raises** if what it reads can be hashed. -/
theorem Cascading.cascadeStep_returns (hash : LinksHash env s₀ roots)
    (h : Cascading s₀ roots done s toBeDeleted) :
    ∃ next, cascadeStep env (s, toBeDeleted) = .returns next := by
  rw [cascadeStep]
  split
  next => exact ⟨_, rfl⟩
  next element rest hfirst =>
  cases hinvalid : s.isInvalidated element with
  | true => exact ⟨_, if_pos rfl⟩
  | false =>
    rw [if_neg Bool.false_ne_true]
    have htaken := h.take (removeFirst_perm hfirst)
    obtain ⟨state', hresolve⟩ := resolve_total env (s := { s with picks := s.picks + 1 }) true
      hinvalid (hash _ _ _ _ htaken hinvalid) rest
    exact ⟨some state', by rw [hresolve]; rfl⟩

/-! ### Every iteration decreases -/

/-- No unmanaged object that is reachable from `roots` lies on a cycle. -/
def Realm.Acyclic (s : Realm Scalar) (roots : Set Vertex) : Prop :=
  ∀ r, .object r ∈ Reachable s.Edge roots → ¬ Relation.TransGen s.Edge (.object r) (.object r)

/-- The links of the unmanaged objects that are reachable from `roots` descend. -/
def Realm.Descends (s : Realm Scalar) (roots : Set Vertex) (rank : Vertex → ℕ) : Prop :=
  ∀ r, .object r ∈ Reachable s.Edge roots → ∀ b, s.Edge (.object r) b →
    rank b < rank (.object r)

/-- Only an object that is there leads anywhere. -/
theorem Realm.object_of_edge {r : Ref} {b : Vertex} (h : s.Edge (.object r) b) :
    ∃ record, s.object r = some (.unmanaged record) ∧ ∃ t ∈ record.targets, s.vertexOf t = b := by
  cases hobject : s.object r with
  | none =>
    rw [Realm.Edge, Realm.targets, Realm.record, hobject] at h
    exact (List.not_mem_nil h).elim
  | some object =>
    cases object with
    | unmanaged record => exact ⟨record, rfl, (s.edge_object hobject).mp h⟩
    | managed className row =>
      rw [Realm.Edge, Realm.targets, Realm.record, hobject] at h
      exact (List.not_mem_nil h).elim

/-- Without cycles there are ranks; rows have the least one. -/
theorem Realm.Acyclic.descends (h : s.Acyclic roots) : ∃ rank, s.Descends roots rank := by
  -- there are finitely many objects, and no cycles among them
  have hfinite : {a ∈ Reachable s.Edge roots | ∃ r, a = .object r ∧ s.object r ≠ none}.Finite := by
    refine ((Set.finite_lt_nat s.heap.objects.next).image Vertex.object).subset ?_
    rintro _ ⟨-, r, rfl, hknown⟩
    obtain ⟨object, hobject⟩ := Option.ne_none_iff_exists'.mp hknown
    exact ⟨r, s.heap.objects.lt_next_of_get hobject, rfl⟩
  obtain ⟨rank, hrank⟩ := exists_rank s.Edge hfinite (by
    rintro _ ⟨ha, r, rfl, -⟩
    exact h r ha)
  refine ⟨Vertex.rec (fun r => rank (.object r) + 1) fun _ => 0, fun r hr b hb => ?_⟩
  obtain ⟨record, hobject, t, ht, rfl⟩ := Realm.object_of_edge hb
  cases hvertex : s.vertexOf t with
  | row row => exact Nat.succ_pos _
  | object r' =>
    obtain ⟨rfl, record', hobject'⟩ :=
      s.object_of_vertexOf_object (s.heap.closed r record hobject t ht) hvertex
    rw [hvertex] at hb
    exact Nat.succ_lt_succ (hrank _ ⟨hr, r, rfl, hobject ▸ Option.some_ne_none _⟩ _
      ⟨Reachable.tail hr hb, r', rfl, hobject' ▸ Option.some_ne_none _⟩ hb)

/-- Among rows there is nothing to show. -/
theorem Realm.descends_of_rows (hroots : ∀ a ∈ roots, ∃ row, a = .row row) (rank : Vertex → ℕ) :
    s.Descends roots rank := by
  intro r hr
  obtain ⟨row, hrow⟩ := Realm.reachable_rows hroots hr
  cases hrow

/-- Deleting a row leaves fewer rows. -/
theorem Realm.length_keys_deleteRow {row : RowId} (hrow : s.rows.get row ≠ none) :
    (s.deleteRow row).rows.keys.length < s.rows.keys.length := by
  rw [Realm.deleteRow, FreshMap.keys_filterMap, List.length_filter_lt_length_iff_exists]
  refine ⟨row, s.rows.mem_keys.mpr (Option.isSome_iff_ne_none.mpr hrow), ?_⟩
  cases s.rows.get row <;> simp

/-- The rows that are left, and the ranks of what is to be deleted. -/
def remaining (rank : Vertex → ℕ) (state : Realm Scalar × List Ref) : ℕ × Multiset ℕ :=
  (state.1.rows.keys.length, (state.2.map fun r => rank (state.1.vertexOf r) : List ℕ))

/-- Fewer rows, or as many and smaller ranks. -/
def Decreases (rank : Vertex → ℕ) (state' state : Realm Scalar × List Ref) : Prop :=
  Prod.Lex (· < ·) Multiset.IsDershowitzMannaLT (remaining rank state') (remaining rank state)

/-- This cannot go on for ever. -/
theorem wellFounded_decreases (rank : Vertex → ℕ) :
    WellFounded (@Decreases Scalar rank) :=
  InvImage.wf (remaining rank)
    (WellFounded.prod_lex wellFounded_lt Multiset.wellFounded_isDershowitzMannaLT)

/-- **Every iteration decreases**, if the links of unmanaged objects descend. -/
theorem Cascading.decreases {rank : Vertex → ℕ} (hrank : s₀.Descends roots rank)
    (h : Cascading s₀ roots done s toBeDeleted) {state' : Realm Scalar × List Ref}
    (hstep : cascadeStep env (s, toBeDeleted) = .returns (some state')) :
    Decreases rank state' (s, toBeDeleted) := by
  rcases cascadeStep_cases hstep with
    ⟨-, hnone⟩ | ⟨element, rest, hperm, ⟨-, hsome⟩ | ⟨⟨s', toBeDeleted'⟩, hresolve, hsome⟩⟩
  · cases hnone
  · -- an accessor of a deleted row is dropped
    obtain rfl := Option.some.inj hsome
    refine Prod.Lex.right _ ?_
    have hnone : ∀ c ∈ ([] : List Ref), rank (s.vertexOf c) < rank (s.vertexOf element) :=
      fun c hc => (List.not_mem_nil hc).elim
    have hlt := rest_append_lt (fun r => rank (s.vertexOf r)) hperm hnone
    rwa [List.append_nil] at hlt
  · obtain rfl := Option.some.inj hsome
    have htaken := h.take hperm
    obtain ⟨hvalid, hinsert, rfl⟩ := resolve_eq_returns.mp hresolve
    obtain ⟨object, hobject⟩ :=
      Option.ne_none_iff_exists'.mp (htaken.known element List.mem_cons_self)
    cases object with
    | managed className row =>
      -- the row of the element is deleted
      refine Prod.Lex.left _ _ ?_
      have hlinks := (Realm.links_spec { s with picks := s.picks + 1 } element).1
      have hrow : s.rows.get row ≠ none := by
        rw [Realm.isInvalidated, hobject] at hvalid
        simpa [Option.isNone_eq_false_iff, Option.isSome_iff_ne_none] using hvalid
      rw [if_pos rfl, Realm.deleteMain, hlinks.object element _ hobject]
      have hlt := Realm.length_keys_deleteRow (hlinks.rows ▸ hrow)
      rwa [hlinks.rows] at hlt
    | unmanaged record =>
      -- the element is replaced by its targets
      have hlinks : Realm.links { s with picks := s.picks + 1 } element
          = (record.targets, { s with picks := s.picks + 1 }) := by
        rw [Realm.links]
        simp only [hobject]
      rw [hlinks] at hinsert ⊢
      obtain ⟨-, added, rfl, hadded⟩ := insert_spec hinsert
      rw [if_pos rfl, Realm.deleteMain, hobject]
      refine Prod.Lex.right _ (rest_append_lt (fun r => rank (s.vertexOf r)) hperm
        fun t ht => ?_)
      have hreached := htaken.explores.reached (Or.inr ⟨element, List.mem_cons_self, rfl⟩)
      rw [Realm.vertexOf_unmanaged _ hobject] at hreached
      have hvertex : s.vertexOf element = .object element := s.vertexOf_unmanaged hobject
      rw [hvertex]
      exact hrank element hreached _ ((htaken.edge _ _).1
        ((Realm.edge_object _ hobject).mpr ⟨t, hadded t ht, rfl⟩))

/-- **The loop terminates.** -/
theorem Cascading.converges (hash : LinksHash env s₀ roots) {rank : Vertex → ℕ}
    (hrank : s₀.Descends roots rank) (h : Cascading s₀ roots done s toBeDeleted) :
    ∃ state, Outcome.Converges (fun fuel => cascadeLoop env fuel (s, toBeDeleted)) state := by
  refine Outcome.loop_converges (I := fun state => ∃ done, Cascading s₀ roots done state.1 state.2)
    (wellFounded_decreases rank) ?_ ⟨done, h⟩
  rintro ⟨s, toBeDeleted⟩ ⟨done, hstate⟩
  obtain ⟨next, hnext⟩ := hstate.cascadeStep_returns hash
  cases next with
  | none => exact Or.inl hnext
  | some state' => exact Or.inr ⟨state', hnext, hstate.step hnext, hstate.decreases hrank hnext⟩

end QBRepository
