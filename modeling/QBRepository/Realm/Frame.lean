import QBRepository.Realm.Create
import QBRepository.Realm.Delete
import QBRepository.Realm.Upserts

namespace QBRepository

/-!
# What creating models leaves alone

`create` runs a cascade before it adds a model, over links that the earlier models of the list may
have changed: their objects have become accessors, and rows with their keys have new links.  Still
no cascade gets beyond the graph that the models have had in the beginning.

* `Realm.Touched` — the rows of this graph, and those with the keys of its objects;
* `LeavesOthers` — what happens to any other row;
* `Confined` — the invariant, which a cascade (`Confined.cascade`) and an addition
  (`Confined.upserts`) keep;
* `create_leavesOthers` — the frame of `create`.
-/

variable {Scalar : Type}

/-- The models lead to the row, or to an object with its primary key. -/
def Realm.Touched (env : RealmEnvironment Scalar) (s : Realm Scalar) (models : List Ref)
    (row : RowId) : Prop :=
  .row row ∈ s.graph models ∨ ∃ a ∈ s.graph models, ∃ record key, s.record a = some record ∧
    record.key env.primaryKey = some key ∧ s.rowKey env row = some key

/-- The rows of `s` that are not in `t` any more are those in `deleted`. -/
structure Deletes (s t : Realm Scalar) (deleted : Set RowId) : Prop where
  gone : ∀ row ∈ deleted, t.rows.get row = none
  complete : ∀ row, s.rows.get row ≠ none → t.rows.get row = none → row ∈ deleted

open Classical in
/-- A link to a deleted row is dropped. -/
noncomputable def kept (deleted : Set RowId) (row : RowId) : Option RowId :=
  if row ∈ deleted then none else some row

/-- A row that the models do not touch is still there: with its scalars, and with its links and
    lists, except that links to deleted rows have become null, and entries for them are dropped. -/
def LeavesOthers (env : RealmEnvironment Scalar) (s : Realm Scalar) (models : List Ref)
    (t : Realm Scalar) : Prop :=
  ∃ deleted, Deletes s t deleted ∧ ∀ row record, s.rows.get row = some record →
    ¬ s.Touched env models row → t.rows.get row = some (record.filterMap (kept deleted))

variable {env : RealmEnvironment Scalar} {update : Bool} {models : List Ref} {m : Ref}
  {s t t' : Realm Scalar} {deleted : Set RowId}

/-- A link to a deleted row. -/
theorem kept_of_mem {row : RowId} (h : row ∈ deleted) : kept deleted row = none := if_pos h

/-- A link to any other row. -/
theorem kept_of_notMem {row : RowId} (h : row ∉ deleted) : kept deleted row = some row := if_neg h

/-- Links are dropped when more rows are deleted, or have been dropped before. -/
theorem kept_bind_survivor {rows : FreshMap (Record Scalar RowId)} {gone : Set RowId}
    (row : RowId) : (kept deleted row).bind (survivor rows gone)
      = kept (deleted ∪ {row | row ∈ gone ∧ rows.get row ≠ none}) row := by
  by_cases hbefore : row ∈ deleted
  · rw [kept_of_mem hbefore, kept_of_mem (Or.inl hbefore), Option.bind_none]
  · rw [kept_of_notMem hbefore, Option.bind_some, survivor]
    by_cases hnow : row ∈ gone ∧ rows.get row ≠ none
    · rw [if_pos hnow, kept_of_mem (Or.inr hnow)]
    · rw [if_neg hnow, kept_of_notMem fun h => h.elim hbefore hnow]

/-! ### What the models lead to later -/

/-- After rows have been deleted, the models lead to nothing new. -/
theorem Realm.KeepsObjects.graph_subset {gone : Set RowId} (h : t.KeepsObjects t')
    (hrows : t'.rows.get = without t.rows gone) (hknown : ∀ m ∈ models, t.object m ≠ none) :
    t'.graph models ⊆ t.graph models := by
  refine Reachable.subset_of_closed ?_ fun a ha b hab => ?_
  · rintro _ ⟨m, hm, rfl⟩
    rw [h.vertexOf (hknown m hm)]
    exact subset_reachable ⟨m, hm, rfl⟩
  · refine Reachable.tail ha ?_
    cases a with
    | object r => exact h.edge.mp hab
    | row row =>
      obtain ⟨record, hget, k, hk, rfl⟩ := t'.edge_row.mp hab
      rw [hrows] at hget
      obtain ⟨-, record₀, hget₀, rfl⟩ := of_without_eq_some hget
      -- the links that are left have been there before
      rw [Record.targets_filterMap] at hk
      obtain ⟨k₀, hk₀, hsurvivor⟩ := List.mem_filterMap.mp hk
      exact t.edge_row.mpr ⟨record₀, hget₀, k₀, hk₀, by rw [eq_of_survivor hsurvivor]⟩

/-- The row of an object of the models is one they have led to, or has been taken. -/
theorem Upserts.row_cases (h : Upserts env (t.refs models) t t') {r : Ref}
    (hr : r ∈ t.refs models) {className : String} {row : RowId}
    (hobject : t'.object r = some (.managed className row)) :
    .row row ∈ t.graph models ∨ ∃ u record, Taken env (t.refs models) t t' u record row := by
  obtain ⟨object, hbefore⟩ := Option.ne_none_iff_exists'.mp hr.1
  cases object with
  | unmanaged record =>
    exact Or.inr (h.taken r record row hbefore (Realm.rowOf_of_object hobject))
  | managed className' row' =>
    have hsame := h.managed r className' row' hbefore
    rw [hobject, Option.some.injEq, RLMObject.managed.injEq] at hsame
    obtain ⟨-, rfl⟩ := hsame
    exact Or.inl (t.vertexOf_managed hbefore ▸ hr.2)

/-- A row that has been taken leads to what has become of objects of the models. -/
theorem Taken.edge {u : Ref} {record : Record Scalar Ref} {row : RowId}
    (h : Taken env (t.refs models) t t' u record row) {b : Vertex}
    (hb : t'.Edge (.row row) b) : b ∈ t'.vertexOf '' t.refs models := by
  obtain ⟨record', hget, k, hk, rfl⟩ := t'.edge_row.mp hb
  obtain rfl := Option.some.inj (h.stored.symm.trans hget)
  rw [Record.targets_filterMap] at hk
  obtain ⟨v, hv, hrow⟩ := List.mem_filterMap.mp hk
  obtain ⟨className, row', hobject⟩ := Realm.Managed.object ⟨k, hrow⟩
  obtain rfl : row' = k := Option.some.inj ((Realm.rowOf_of_object hobject).symm.trans hrow)
  exact ⟨v, Request.target h.mem h.object hv, t'.vertexOf_managed hobject⟩

/-- After objects have been added, the models lead to what has become of their objects, and to rows
    they have led to before. -/
theorem Upserts.graph_subset (h : Upserts env (t.refs models) t t')
    (hknown : ∀ m ∈ models, t.object m ≠ none) : t'.graph models ⊆
      t'.vertexOf '' t.refs models ∪ {a | a ∈ t.graph models ∧ ∃ row, a = .row row} := by
  have hrow : ∀ row b, (.row row ∈ t.graph models ∨
      ∃ u record, Taken env (t.refs models) t t' u record row) → t'.Edge (.row row) b →
      b ∈ t'.vertexOf '' t.refs models ∪ {a | a ∈ t.graph models ∧ ∃ row, a = .row row} := by
    intro row b hcases hb
    rcases hcases with hmem | ⟨u, record, htaken⟩
    · rcases h.unchanged row with hsame | ⟨u, record, htaken⟩
      · obtain ⟨record, hget, k, hk, rfl⟩ := t'.edge_row.mp hb
        have hedge := t.edge_row.mpr ⟨record, hsame ▸ hget, k, hk, rfl⟩
        exact Or.inr ⟨Reachable.tail hmem hedge, k, rfl⟩
      · exact Or.inl (htaken.edge hb)
    · exact Or.inl (htaken.edge hb)
  refine Reachable.subset_of_closed ?_ fun a ha b hab => ?_
  · rintro _ ⟨m, hm, rfl⟩
    exact Or.inl ⟨m, ⟨hknown m hm, subset_reachable ⟨m, hm, rfl⟩⟩, rfl⟩
  · rcases ha with ⟨r, hr, rfl⟩ | ⟨ha, row, rfl⟩
    · obtain ⟨object, hobject⟩ := Option.ne_none_iff_exists'.mp (h.known r hr.1)
      cases object with
      | unmanaged record =>
        rw [t'.vertexOf_unmanaged hobject] at hab
        obtain ⟨v, hv, rfl⟩ := (t'.edge_object hobject).mp hab
        exact Or.inl ⟨v, Request.target hr (h.unmanaged r record hobject) hv, rfl⟩
      | managed className row =>
        rw [t'.vertexOf_managed hobject] at hab
        exact hrow row b (h.row_cases hr hobject) hab
    · exact hrow row b (Or.inl ha) hab

/-! ### The invariant -/

/-- Between two models, what is left of `s`: the models lead to objects they have led to in `s`, to
    rows they touch and to new rows, and all other rows are left alone. -/
structure Confined (env : RealmEnvironment Scalar) (models : List Ref) (s : Realm Scalar)
    (deleted : Set RowId) (t : Realm Scalar) : Prop extends Deletes s t deleted where
  next : s.rows.next ≤ t.rows.next
  allocated : ∀ row ∈ deleted, row < t.rows.next
  known : ∀ m ∈ models, t.object m ≠ none
  unmanaged : ∀ r record, t.object r = some (.unmanaged record) →
    s.object r = some (.unmanaged record)
  rowKey : ∀ row key, row < s.rows.next → t.rowKey env row = some key →
    s.rowKey env row = some key
  objects : ∀ r, .object r ∈ t.graph models → .object r ∈ s.graph models
  rows : ∀ row, .row row ∈ t.graph models → s.rows.next ≤ row ∨ s.Touched env models row
  others : ∀ row record, s.rows.get row = some record → ¬ s.Touched env models row →
    t.rows.get row = some (record.filterMap (kept deleted))

namespace Confined

/-- At the start nothing is deleted. -/
theorem start (hknown : ∀ m ∈ models, s.object m ≠ none) : Confined env models s ∅ s where
  gone _ hrow := hrow.elim
  complete _ hrow hnone := absurd hnone hrow
  next := le_rfl
  allocated _ hrow := hrow.elim
  known := hknown
  unmanaged _ _ h := h
  rowKey _ _ _ h := h
  objects _ h := h
  rows _ h := Or.inr (Or.inl h)
  others row record hrow _ := by
    have hkept : kept ∅ = some := funext fun k => kept_of_notMem (Set.notMem_empty k)
    rw [hrow, hkept, Record.filterMap_some]

/-- **A cascade** deletes rows below a model only. -/
theorem cascade (h : Confined env models s deleted t) {gone : Set RowId}
    (hgone : ∀ row ∈ gone, .row row ∈ t.graph models) (hkeeps : t.KeepsObjects t')
    (hnext : t'.rows.next = t.rows.next) (hrows : t'.rows.get = without t.rows gone) :
    Confined env models s (deleted ∪ {row | row ∈ gone ∧ t.rows.get row ≠ none}) t' := by
  have hgraph := hkeeps.graph_subset hrows h.known
  refine ⟨⟨?_, ?_⟩, hnext ▸ h.next, ?_, fun m hm => hkeeps.known (h.known m hm), ?_, ?_,
    fun r hr => h.objects r (hgraph hr), fun row hrow => h.rows row (hgraph hrow), ?_⟩
  · rintro row (hrow | ⟨hrow, -⟩)
    · rw [hrows]
      by_contra hne
      exact (without_ne_none.mp hne).1 (h.gone row hrow)
    · rw [hrows, without_of_mem hrow]
  · intro row hrow hnone
    by_cases hleft : t.rows.get row = none
    · exact Or.inl (h.complete row hrow hleft)
    · rw [hrows] at hnone
      refine Or.inr ⟨?_, hleft⟩
      by_contra hnot
      exact without_ne_none.mpr ⟨hleft, hnot⟩ hnone
  · rintro row (hrow | ⟨-, hne⟩)
    · exact hnext ▸ h.allocated row hrow
    · obtain ⟨record, hget⟩ := Option.ne_none_iff_exists'.mp hne
      exact hnext ▸ t.rows.lt_next_of_get hget
  · exact fun r record hr => h.unmanaged r record (hkeeps.unmanaged r record hr)
  · intro row key hlt hrow
    refine h.rowKey row key hlt ?_
    obtain ⟨record, hget, hkey⟩ := Option.bind_eq_some_iff.mp hrow
    rw [hrows] at hget
    obtain ⟨-, record₀, hget₀, rfl⟩ := of_without_eq_some hget
    rw [Record.key_filterMap] at hkey
    rw [Realm.rowKey, hget₀, Option.bind_some, hkey]
  · intro row record hrow huntouched
    have hnot : row ∉ gone := by
      intro hmem
      rcases h.rows row (hgone row hmem) with hle | htouched
      · exact absurd (s.rows.lt_next_of_get hrow) (Nat.not_lt.mpr hle)
      · exact huntouched htouched
    rw [hrows, without_of_notMem hnot, h.others row record hrow huntouched, Option.map_some,
      Record.filterMap_filterMap]
    exact congrArg some (Record.filterMap_congr fun k _ => kept_bind_survivor k)

/-- A row that is taken for an object of the models is new, or has its key. -/
theorem touched_of_taken (h : Confined env models s deleted t) {u : Ref}
    {record : Record Scalar Ref} {row : RowId}
    (htaken : Taken env (t.refs models) t t' u record row) :
    s.rows.next ≤ row ∨ s.Touched env models row := by
  rcases htaken.origin with hle | ⟨key, hkey, hrow⟩
  · exact Or.inl (h.next.trans hle)
  · by_cases hlt : row < s.rows.next
    · have hmem := htaken.mem.2
      rw [t.vertexOf_unmanaged htaken.object] at hmem
      refine Or.inr (Or.inr ⟨.object u, h.objects u hmem, record.map s.vertexOf, key, ?_, ?_, ?_⟩)
      · exact Request.record_object (h.unmanaged u record htaken.object)
      · rw [Record.key_map, hkey]
      · exact h.rowKey row key hlt hrow
    · exact Or.inl (Nat.le_of_not_lt hlt)

/-- **An addition** takes rows with the keys of the models, and new ones. -/
theorem upserts (h : Confined env models s deleted t)
    (hadd : Upserts env (t.refs models) t t') : Confined env models s deleted t' := by
  have hgraph := hadd.graph_subset h.known
  refine ⟨⟨?_, ?_⟩, h.next.trans hadd.next,
    fun row hrow => Nat.lt_of_lt_of_le (h.allocated row hrow) hadd.next,
    fun m hm => hadd.known m (h.known m hm),
    fun r record hr => h.unmanaged r record (hadd.unmanaged r record hr), ?_, ?_, ?_, ?_⟩
  · intro row hrow
    by_contra hne
    exact hadd.live (h.allocated row hrow) hne (h.gone row hrow)
  · intro row hrow hnone
    refine h.complete row hrow ?_
    by_contra hne
    exact hadd.rows row hne hnone
  · intro row key hlt hrow
    rw [← hadd.rowKey (Nat.lt_of_lt_of_le hlt h.next)] at hrow
    exact h.rowKey row key hlt hrow
  · intro r hr
    rcases hgraph hr with ⟨v, hv, hvertex⟩ | ⟨-, row, hrow⟩
    · obtain ⟨rfl, record, hobject⟩ := t'.object_of_vertexOf_object (hadd.known v hv.1) hvertex
      have hmem := hv.2
      rw [t.vertexOf_unmanaged (hadd.unmanaged r record hobject)] at hmem
      exact h.objects r hmem
    · cases hrow
  · intro row hr
    rcases hgraph hr with ⟨v, hv, hvertex⟩ | ⟨hmem, -⟩
    · obtain ⟨className, hobject⟩ := t'.object_of_vertexOf_row hvertex
      rcases hadd.row_cases hv hobject with hmem | ⟨u, record, htaken⟩
      · exact h.rows row hmem
      · exact h.touched_of_taken htaken
    · exact h.rows row hmem
  · intro row record hrow huntouched
    rcases hadd.unchanged row with hsame | ⟨u, record', htaken⟩
    · rw [hsame, h.others row record hrow huntouched]
    · rcases h.touched_of_taken htaken with hle | htouched
      · exact absurd (s.rows.lt_next_of_get hrow) (Nat.not_lt.mpr hle)
      · exact absurd htouched huntouched

end Confined

/-! ### The models one after another -/

section Models

variable [DecidableEq Scalar] {fuel : Nat}

/-- One more model. -/
theorem Confined.step (h : Confined env models s deleted t) (hm : m ∈ models)
    (hcall : addEntityCascading env fuel update m t = .returns t') :
    ∃ deleted', Confined env models s deleted' t' := by
  obtain ⟨c, hcascade, hadd⟩ := Outcome.bind_eq_returns.mp hcall
  obtain ⟨-, hkeeps, hnext, hrows⟩ := cascadeDeleteSubtypes_spec hcascade
  have hc := h.cascade (fun row hrow => Realm.below_subset hm hrow) hkeeps hnext hrows
  -- the model is added to what the cascade has left
  have hmem : m ∈ c.refs models := ⟨hc.known m hm, subset_reachable ⟨m, hm, rfl⟩⟩
  have hwithin : c.Within (c.refs models) := fun _ hr _ hobject _ hv => Request.target hr hobject hv
  exact ⟨_, hc.upserts (addObject_upserts fuel hmem hwithin (addObject_of_add hadd))⟩

/-- The list is added one model after the other. -/
theorem addCascading_confined (hknown : ∀ m ∈ models, s.object m ≠ none)
    (hcall : addCascading env fuel update models s = .returns t) :
    ∃ deleted, Confined env models s deleted t := by
  refine Outcome.forEach_invariant (I := fun _ t => ∃ deleted, Confined env models s deleted t)
    ?_ ⟨∅, .start hknown⟩ hcall
  intro pre m post t t' hsplit hinv hcall
  obtain ⟨deleted, h⟩ := hinv
  exact h.step (by simp [hsplit]) hcall

/-- In a write transaction of its own. -/
theorem leavesOthers_of_write (hknown : ∀ m ∈ models, s.object m ≠ none)
    (hcall : write (addCascading env fuel update models) s = .returns t) :
    LeavesOthers env s models t := by
  obtain ⟨-, t, hblock, rfl⟩ := of_write_eq_returns hcall
  obtain ⟨deleted, h⟩ :=
    addCascading_confined (s := { s with inWriteTransaction := true }) hknown hblock
  exact ⟨deleted, ⟨h.gone, h.complete⟩, h.others⟩

end Models

/-- Person 0 has person 1 for a friend, and both are members of a club; the program holds an
    accessor of person 0. -/
def club : Realm Nat where
  rows := ((FreshMap.empty.alloc ⟨"Person", [("friend", .object (some 1))]⟩).alloc
    ⟨"Person", [("friend", .object none)]⟩).alloc ⟨"Club", [("members", .list [0, 1])]⟩
  heap := friends.heap
  inWriteTransaction := false
  picks := 0

/-- Person 0 leads to the friend, and not to the club. -/
theorem graph_club : club.graph [0] ⊆ {.row 0, .row 1} := by
  refine Reachable.subset_of_closed ?_ fun a ha b hab => ?_
  · rintro _ ⟨m, hm, rfl⟩
    obtain rfl := List.mem_singleton.mp hm
    exact Or.inl rfl
  · rcases ha with rfl | rfl
    · exact Or.inr (List.mem_singleton.mp hab)
    · exact (List.not_mem_nil hab).elim

/-- The friend is deleted, and the club loses this member. -/
example : match RealmRepository.createAll ⟨"Person"⟩ unkeyed 5 [0] club with
    | .returns (_, t) => t.rows.keys = [0, 2] ∧
      t.rows.get 2 = some ⟨"Club", [("members", .list [0])]⟩
    | .raises | .diverges => False := ⟨rfl, rfl⟩

end QBRepository
