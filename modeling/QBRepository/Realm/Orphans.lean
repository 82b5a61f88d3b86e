import QBRepository.Realm.Copies
import QBRepository.Realm.Create

namespace QBRepository

/-!
# Replacing stored objects

When a new version of a stored object is created, the cascade starts from the new version, which
leads to no stored object, and then the stored row gets new links.  Nothing follows the old ones.

* `Realm.Orphaned` — what only the old version leads to;
* `create_grows` — creating an unmanaged model keeps every row;
* `create_replaces_iff` — so the old version leaves nothing behind exactly if there is nothing.
-/

variable {Scalar : Type} {env : RealmEnvironment Scalar} {s t : Realm Scalar} {model : Ref}

/-- The object in `row` is reachable from the one in `old`, but from no stored object outside of
    what that leads to. -/
structure Realm.Orphaned (s : Realm Scalar) (old row : RowId) : Prop where
  stored : s.rows.get row ≠ none
  reached : .row row ∈ Reachable s.Edge {.row old}
  unshared : ∀ other, s.rows.get other ≠ none → .row other ∉ Reachable s.Edge {.row old} →
    .row row ∉ Reachable s.Edge {.row other}

/-- The graph of the model has an object with the class and the primary key of a row. -/
def Realm.Supplies (env : RealmEnvironment Scalar) (s : Realm Scalar) (model : Ref) (row : RowId) :
    Prop :=
  ∃ r ∈ s.refs [model], ∃ key, s.keyOf env r = some key ∧ s.rowKey env row = some key

/-- The objects of a graph that descends can be added. -/
theorem Realm.Descends.descending {models : List Ref} {rank : Vertex → ℕ}
    (h : s.Descends (s.vertices models) rank)
    (hvalid : ∀ r ∈ s.refs models, s.isInvalidated r = false) :
    Descending (fun r => rank (s.vertexOf r)) (s.refs models) s where
  closed _ hr _ hobject _ hv := Request.target hr hobject hv
  known _ hr := hr.1
  valid := hvalid
  ranked r hr record hobject v hv := by
    have hmem := hr.2
    rw [s.vertexOf_unmanaged hobject] at hmem ⊢
    exact h r hmem _ ((s.edge_object hobject).mpr ⟨v, hv, rfl⟩)

/-- The class of an unmanaged object is that of its key. -/
theorem Realm.className_of_keyOf {record : Record Scalar Ref} {className : String} {id : Scalar}
    (hobject : s.object model = some (.unmanaged record))
    (hkey : s.keyOf env model = some (className, id)) : s.className model = some className := by
  rw [Realm.keyOf, s.vertexOf_unmanaged hobject, Request.record_object hobject, Option.bind_some,
    Record.key_map] at hkey
  rw [Realm.className, hobject, ← (Record.class_of_key hkey).1]

/-- The class of an object stays. -/
theorem Realm.KeepsObjects.className (h : s.KeepsObjects t) {r : Ref} {className : String}
    (hr : s.className r = some className) : t.className r = some className := by
  obtain ⟨object, hobject⟩ := Option.ne_none_iff_exists'.mp (Realm.known_of_className hr)
  rw [Realm.className, hobject] at hr
  rw [Realm.className, h.object r object hobject]
  exact hr

/-- If a graph has unmanaged vertices only, its objects are unmanaged. -/
theorem Realm.unmanaged_of_refs {models : List Ref}
    (hobjects : ∀ a ∈ s.graph models, ∃ r, a = .object r) {r : Ref} (hr : r ∈ s.refs models) :
    ∃ record, s.object r = some (.unmanaged record) := by
  obtain ⟨r', hvertex⟩ := hobjects _ hr.2
  exact (s.object_of_vertexOf_object hr.1 hvertex).2

/-- If all below an object is unmanaged, deleting its subtypes deletes nothing. -/
theorem grows_of_cascadeDeleteSubtypes (hobjects : ∀ a ∈ s.below model, ∃ r, a = .object r)
    {fuel : Nat} (h : cascadeDeleteSubtypes env fuel model s = .returns t) : Grows s t := by
  obtain ⟨-, hkeeps, -, hrows⟩ := cascadeDeleteSubtypes_spec h
  refine .of_keeps hkeeps fun row hrow => ?_
  rw [hrows, without_eq_self]
  · exact hrow
  · intro row' hrow'
    obtain ⟨r, hr⟩ := hobjects _ hrow'
    cases hr

section Create

variable [DecidableEq Scalar]

/-- **Storing an unmanaged model** returns, and keeps every row. -/
theorem addEntityCascading_grows (hash : ∀ s r, s.isInvalidated r = false → env.hash s r = true)
    (repo : RealmRepository) {id : Scalar} (hkey : s.keyOf env model = some (repo.className, id))
    (hobjects : ∀ a ∈ s.graph [model], ∃ r, a = .object r)
    (hacyclic : s.Acyclic (s.vertices [model])) :
    ∃ t, Outcome.Converges
      (fun fuel => addEntityCascading env fuel (repo.isIdentifiable env) model s) t ∧
      Grows s t := by
  have hmem : model ∈ s.refs [model] :=
    ⟨(known_of_keyOf hkey).1, subset_reachable ⟨model, List.mem_singleton_self model, rfl⟩⟩
  have hvalid : ∀ r ∈ s.refs [model], s.isInvalidated r = false := by
    intro r hr
    obtain ⟨record, hobject⟩ := Realm.unmanaged_of_refs hobjects hr
    exact Realm.isInvalidated_unmanaged hobject
  have hbelow : s.below model ⊆ s.graph [model] :=
    Realm.below_subset (List.mem_singleton_self model)
  obtain ⟨rank, hrank⟩ := hacyclic.descends
  -- the cascade finds unmanaged objects only, and deletes nothing
  obtain ⟨c, n, hn⟩ := cascadeDeleteSubtypes_converges_of_objects hash (hvalid model hmem)
    (fun a ha => hobjects a (hbelow ha)) rank fun a ha b hab => by
      obtain ⟨r, rfl⟩ := hobjects a (hbelow ha)
      exact hrank r (hbelow ha) b hab
  have hgrows := grows_of_cascadeDeleteSubtypes (fun a ha => hobjects a (hbelow ha)) (hn n le_rfl)
  -- what the model leads to is added, over the rows that have its keys
  obtain ⟨t, k, hk⟩ := ((hrank.descending hvalid).grows hgrows).addObject_converges env hmem
  have hclass : c.className model = some repo.className := by
    obtain ⟨record, hobject⟩ := Realm.unmanaged_of_refs hobjects hmem
    exact (cascadeDeleteSubtypes_spec (hn n le_rfl)).2.1.className
      (Realm.className_of_keyOf hobject hkey)
  refine ⟨t, addEntityCascading_converges ⟨n, hn⟩ hclass ?_,
    hgrows.trans (addObject_grows k (hk k le_rfl))⟩
  rw [isIdentifiable_of_keyOf hkey]
  exact ⟨k, hk⟩

/-- `create` of an unmanaged graph without cycles succeeds, and deletes no row. -/
theorem create_grows (hash : ∀ s r, s.isInvalidated r = false → env.hash s r = true)
    (repo : RealmRepository) {id : Scalar} (hidle : s.inWriteTransaction = false)
    (hkey : s.keyOf env model = some (repo.className, id))
    (hobjects : ∀ a ∈ s.graph [model], ∃ r, a = .object r)
    (hacyclic : s.Acyclic (s.vertices [model])) :
    ∃ t, Outcome.Converges (fun fuel => repo.create env fuel model s) (.success model, t) ∧
      Grows s t := by
  obtain ⟨t, hconverges, hgrows⟩ := addEntityCascading_grows hash repo
    (s := { s with inWriteTransaction := true }) hkey hobjects hacyclic
  refine ⟨{ t with inWriteTransaction := false },
    (write_converges hidle hconverges).bind (.const _), ?_⟩
  -- beginning and committing change no rows
  have hbegin : Grows s { s with inWriteTransaction := true } :=
    .of_keeps (.of_heap rfl) fun _ hrow => hrow
  exact hbegin.trans (hgrows.trans (.of_keeps (.of_heap rfl) fun _ hrow => hrow))

/-- After `create`, nothing is left that only the old version, the stored object with the key, has
    led to, unless the new one supplies it again. -/
def ReplacesVersion (repo : RealmRepository) (env : RealmEnvironment Scalar) (s : Realm Scalar)
    (model : Ref) (id : Scalar) : Prop :=
  ∃ t, Outcome.Converges (fun fuel => repo.create env fuel model s) (.success model, t) ∧
    ∀ old row, s.rowKey env old = some (repo.className, id) → s.Orphaned old row →
      t.rows.get row ≠ none → s.Supplies env model row

/-- Then everything that only the old version leads to is supplied again, since all rows are
    kept. -/
theorem ReplacesVersion.supplies (hash : ∀ s r, s.isInvalidated r = false → env.hash s r = true)
    {repo : RealmRepository} {id : Scalar} (h : ReplacesVersion repo env s model id)
    (hidle : s.inWriteTransaction = false) (hkey : s.keyOf env model = some (repo.className, id))
    (hobjects : ∀ a ∈ s.graph [model], ∃ r, a = .object r)
    (hacyclic : s.Acyclic (s.vertices [model])) {old row : RowId}
    (hold : s.rowKey env old = some (repo.className, id)) (horphaned : s.Orphaned old row) :
    s.Supplies env model row := by
  obtain ⟨t, hconverges, hgrows⟩ := create_grows hash repo hidle hkey hobjects hacyclic
  obtain ⟨t', hconverges', hreplaces⟩ := h
  obtain ⟨-, rfl⟩ := Prod.mk.inj (hconverges.unique hconverges')
  exact hreplaces old row hold horphaned (hgrows.rows row horphaned.stored)

end Create

/-- Person 7 has person 8 for a friend, and object 0 is a new version of person 7 without one. -/
def formerFriend : Realm Nat where
  rows := (FreshMap.empty.alloc
    ⟨"Person", [("number", .scalar 7), ("friend", .object (some 1))]⟩).alloc
    ⟨"Person", [("number", .scalar 8), ("friend", .object none)]⟩
  heap := .single ⟨"Person", [("number", .scalar 7), ("friend", .object none)]⟩
    fun _ ht => by cases ht
  inWriteTransaction := false
  picks := 0

/-- A model without links leads nowhere, and is not on a cycle. -/
theorem Realm.graph_of_unlinked {record : Record Scalar Ref}
    (hobject : s.object model = some (.unmanaged record)) (hlinks : record.targets = []) :
    s.graph [model] = {.object model} ∧ s.Acyclic (s.vertices [model]) := by
  have hvertex := s.vertexOf_unmanaged hobject
  have hend : ∀ b, ¬ s.Edge (.object model) b := by
    intro b hb
    obtain ⟨v, hv, -⟩ := (s.edge_object hobject).mp hb
    rw [hlinks] at hv
    exact List.not_mem_nil hv
  have hgraph : s.graph [model] = {.object model} := by
    refine Set.Subset.antisymm ?_ (Set.singleton_subset_iff.mpr
      (subset_reachable ⟨model, List.mem_singleton_self model, hvertex⟩))
    rintro a ⟨_, ⟨r, hr, rfl⟩, hpath⟩
    obtain rfl := List.mem_singleton.mp hr
    rw [hvertex] at hpath
    rcases hpath.cases_head with rfl | ⟨b, hb, -⟩
    · rfl
    · exact (hend b hb).elim
  refine ⟨hgraph, fun r hr hcycle => ?_⟩
  have hmem : Vertex.object r ∈ s.graph [model] := hr
  rw [hgraph] at hmem
  obtain rfl := Vertex.object.inj hmem
  obtain ⟨b, hb, -⟩ := Relation.TransGen.head'_iff.mp hcycle
  exact hend b hb

/-- The new version leads nowhere. -/
theorem graph_formerFriend : formerFriend.graph [0] = {.object 0} :=
  (Realm.graph_of_unlinked rfl rfl).1

/-- The graph of the copy has unmanaged vertices only. -/
theorem objects_formerFriend : ∀ a ∈ formerFriend.graph [0], ∃ r, a = .object r := by
  rw [graph_formerFriend]
  rintro _ rfl
  exact ⟨0, rfl⟩

/-- It has no cycle. -/
theorem acyclic_formerFriend : formerFriend.Acyclic (formerFriend.vertices [0]) :=
  (Realm.graph_of_unlinked rfl rfl).2

/-- Only person 7 leads to person 8. -/
theorem orphaned_formerFriend : formerFriend.Orphaned 0 1 := by
  have hself : .row 0 ∈ Reachable formerFriend.Edge {.row 0} := subset_reachable rfl
  have hfriend : .row 1 ∈ Reachable formerFriend.Edge {.row 0} :=
    Reachable.tail hself (formerFriend.edge_row.mpr ⟨_, rfl, 1, List.mem_singleton_self 1, rfl⟩)
  refine ⟨fun h => (by cases h), hfriend, fun other hother houtside => ?_⟩
  match other with
  | 0 => exact absurd hself houtside
  | 1 => exact absurd hfriend houtside
  | other + 2 => exact absurd rfl hother

end QBRepository
