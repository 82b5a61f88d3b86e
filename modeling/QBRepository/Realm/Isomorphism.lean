import QBRepository.Lib.Worklist
import QBRepository.Realm.Adding

namespace QBRepository

/-!
# Adding objects keeps the object graph

`Adds` moves objects into rows.  `Realm.image` says what has become of a vertex, and on the
graph of the models to be stored it is an isomorphism (`Adds.isomorphic`), at every stage.

* `Realm.graph`, `Realm.refs` — the graph of some models;
* `Request` — models that may be given to the repository;
* `Isomorphic` — two vertices with the same graph below them.
-/

variable {Scalar : Type}

/-- The object graph of some models. -/
def Realm.graph (s : Realm Scalar) (models : List Ref) : Set Vertex :=
  Reachable s.Edge (s.vertices models)

/-- The references into the object graph of some models. -/
def Realm.refs (s : Realm Scalar) (models : List Ref) : Set Ref :=
  {r | s.object r ≠ none ∧ s.vertexOf r ∈ s.graph models}

/-- What the repository may be asked to store: objects of its class whose graph has no deleted
    rows, no cycles among its unmanaged objects, and no two objects with the same key. -/
structure Request (env : RealmEnvironment Scalar) (className : String) (s : Realm Scalar)
    (models : List Ref) : Prop where
  ofClass : ∀ m ∈ models, s.className m = some className
  record : ∀ a ∈ s.graph models, s.record a ≠ none
  acyclic : ∀ r, .object r ∈ s.graph models → ¬ Relation.TransGen s.Edge (.object r) (.object r)
  distinct : ∀ a ∈ s.graph models, ∀ b ∈ s.graph models, a ≠ b → ∀ recordA recordB,
    s.record a = some recordA → s.record b = some recordB →
    ∀ key, recordA.key env.primaryKey = some key → recordB.key env.primaryKey ≠ some key

/-- The graph that can be reached from `a` in `s` is the one that can be reached from `b` in
    `t`: same scalars, same links in the same places, and the same sharing. -/
def Isomorphic (s : Realm Scalar) (a : Vertex) (t : Realm Scalar) (b : Vertex) : Prop :=
  ∃ f : Vertex → Vertex, f a = b ∧
    Set.BijOn f (Reachable s.Edge {a}) (Reachable t.Edge {b}) ∧
    ∀ n ∈ Reachable s.Edge {a}, t.record (f n) = (s.record n).map fun record => record.map f

/-- What has become of a vertex. -/
def Realm.image (t : Realm Scalar) : Vertex → Vertex
  | .object r => t.vertexOf r
  | .row row => .row row

variable {env : RealmEnvironment Scalar} {className : String} {update : Bool} {G : Set Ref}
  {s t : Realm Scalar} {models : List Ref}

/-! ### Requests -/

/-- From fewer models less is reachable. -/
theorem Realm.graph_mono {models' : List Ref} (h : ∀ m ∈ models', m ∈ models) :
    s.graph models' ⊆ s.graph models :=
  Reachable.mono fun _ ⟨r, hr, ha⟩ => ⟨r, h r hr, ha⟩

/-- Fewer models have fewer objects in their graph. -/
theorem Realm.refs_mono {models' : List Ref} (h : ∀ m ∈ models', m ∈ models) :
    s.refs models' ⊆ s.refs models := fun _ hr => ⟨hr.1, s.graph_mono h hr.2⟩

/-- What has a class is known. -/
theorem Realm.known_of_className {r : Ref} (h : s.className r = some className) :
    s.object r ≠ none := by
  intro hnone
  rw [Realm.className, hnone] at h
  cases h

namespace Request

/-- What is asked for many models is asked for some of them. -/
theorem mono (h : Request env className s models) {models' : List Ref}
    (hsub : ∀ m ∈ models', m ∈ models) : Request env className s models' where
  ofClass m hm := h.ofClass m (hsub m hm)
  record a ha := h.record a (s.graph_mono hsub ha)
  acyclic r hr := h.acyclic r (s.graph_mono hsub hr)
  distinct a ha b hb := h.distinct a (s.graph_mono hsub ha) b (s.graph_mono hsub hb)

/-- The models are in their graph. -/
theorem mem_refs (h : Request env className s models) {m : Ref} (hm : m ∈ models) :
    m ∈ s.refs models :=
  ⟨Realm.known_of_className (h.ofClass m hm), subset_reachable ⟨m, hm, rfl⟩⟩

/-- An unmanaged vertex of the graph is an unmanaged object. -/
theorem object (h : Request env className s models) {r : Ref} (hr : .object r ∈ s.graph models) :
    ∃ record, s.object r = some (.unmanaged record) := by
  have hrecord := h.record _ hr
  rw [Realm.record] at hrecord
  split at hrecord
  next record hobject => exact ⟨record, hobject⟩
  next => exact absurd rfl hrecord
  next => exact absurd rfl hrecord

/-- So are the unmanaged objects they lead to. -/
theorem mem_refs_of_object (h : Request env className s models) {r : Ref}
    (hr : .object r ∈ s.graph models) : r ∈ s.refs models := by
  obtain ⟨record, hobject⟩ := h.object hr
  exact ⟨hobject ▸ Option.some_ne_none _, (s.vertexOf_unmanaged hobject).symm ▸ hr⟩

/-- The targets of an object of the graph are in the graph. -/
theorem target {r : Ref} (hr : r ∈ s.refs models) {record : Record Scalar Ref}
    (hobject : s.object r = some (.unmanaged record)) {v : Ref} (hv : v ∈ record.targets) :
    v ∈ s.refs models := by
  have hmem := hr.2
  rw [s.vertexOf_unmanaged hobject] at hmem
  exact ⟨s.heap.closed r record hobject v hv,
    Reachable.tail hmem ((s.edge_object hobject).mpr ⟨v, hv, rfl⟩)⟩

/-- The record of an unmanaged object, with vertices for its links. -/
theorem record_object {r : Ref} {record : Record Scalar Ref}
    (hobject : s.object r = some (.unmanaged record)) :
    s.record (.object r) = some (record.map s.vertexOf) := by
  rw [Realm.record, hobject]

/-- The objects of the graph can be added. -/
theorem addable (h : Request env className s models) : Addable env (s.refs models) s where
  closed r hr record hobject v hv := target hr hobject hv
  distinct r hr r' hr' hne record record' hobject hobject' key hkey := by
    have hmem := hr.2
    have hmem' := hr'.2
    rw [s.vertexOf_unmanaged hobject] at hmem
    rw [s.vertexOf_unmanaged hobject'] at hmem'
    have hdistinct := h.distinct _ hmem _ hmem' (fun heq => hne (Vertex.object.inj heq)) _ _
      (record_object hobject) (record_object hobject') key
    rw [Record.key_map, Record.key_map] at hdistinct
    exact hdistinct hkey

/-- Nothing in the graph is invalidated. -/
theorem valid (h : Request env className s models) {r : Ref} (hr : r ∈ s.refs models) :
    s.isInvalidated r = false := by
  rw [Realm.isInvalidated_eq_false]
  intro className row hobject hnone
  refine h.record _ hr.2 ?_
  rw [s.vertexOf_managed hobject, Realm.record, hnone, Option.map_none]

end Request

/-! ### The image of the graph -/

namespace Adds

/-- The image of the vertex of an object is its vertex afterwards. -/
theorem image_vertexOf (h : Adds env update G s t) {r : Ref} (hr : s.object r ≠ none) :
    t.image (s.vertexOf r) = t.vertexOf r := by
  obtain ⟨object, hobject⟩ := Option.ne_none_iff_exists'.mp hr
  cases object with
  | unmanaged record => rw [s.vertexOf_unmanaged hobject, Realm.image]
  | managed className row =>
    rw [s.vertexOf_managed hobject, Realm.image,
      t.vertexOf_managed (h.managed r className row hobject)]

/-- No object is stored in a row of the graph. -/
theorem row_ne (hs : Request env className s models) {row row' : RowId}
    (hrow : .row row ∈ s.graph models) {r : Ref} {record : Record Scalar Ref}
    (hobject : s.object r = some (.unmanaged record))
    (hstored : Stored env update (s.refs models) s t r record row') : row ≠ row' := by
  rintro rfl
  have hlive := hs.record _ hrow
  rw [Realm.record, ne_eq, Option.map_eq_none_iff] at hlive
  obtain ⟨stored, hget⟩ := Option.ne_none_iff_exists'.mp hlive
  -- a new row is not in the graph, and a row taken over would share the key
  rcases hstored.origin with hle | ⟨key, hkey, hrowKey⟩
  · exact absurd (s.rows.lt_next_of_get hget) (Nat.not_lt.mpr hle)
  · have hmem := hstored.mem.2
    rw [s.vertexOf_unmanaged hobject] at hmem
    have hdistinct := hs.distinct _ hrow _ hmem (by simp) (stored.map .row) _
      (by rw [Realm.record, hget, Option.map_some]) (Request.record_object hobject) key
    rw [Record.key_map, Record.key_map] at hdistinct
    rw [Realm.rowKey, hget, Option.bind_some] at hrowKey
    exact hdistinct hrowKey hkey

/-- The rows of the graph stay as they are. -/
theorem rows_graph (hs : Request env className s models)
    (h : Adds env update (s.refs models) s t) {row : RowId} (hrow : .row row ∈ s.graph models) :
    t.rows.get row = s.rows.get row := by
  rcases h.rows row with hsame | ⟨r, record, hobject, hstored⟩
  · exact hsame
  · exact absurd rfl (row_ne hs hrow hobject hstored)

/-- **Every vertex of the graph keeps its properties**, up to what has become of its targets. -/
theorem record_image (hs : Request env className s models)
    (h : Adds env update (s.refs models) s t) {a : Vertex} (ha : a ∈ s.graph models) :
    t.record (t.image a) = (s.record a).map fun record => record.map t.image := by
  cases a with
  | row row =>
    rw [Realm.image, Realm.record, Realm.record, h.rows_graph hs ha, Option.map_map]
    cases s.rows.get row with
    | none => rfl
    | some record => exact congrArg some (Record.map_map t.image Vertex.row record).symm
  | object r =>
    obtain ⟨record, hobject⟩ := hs.object ha
    have htargets : ∀ v ∈ record.targets, t.vertexOf v = t.image (s.vertexOf v) := fun v hv =>
      (h.image_vertexOf (s.heap.closed r record hobject v hv)).symm
    rw [Request.record_object hobject, Option.map_some, Record.map_map, Realm.image]
    rcases h.stored r record hobject with hsame | ⟨row, hstored⟩
    · rw [t.vertexOf_unmanaged hsame, Request.record_object hsame]
      exact congrArg some (Record.map_congr htargets)
    · rw [t.vertexOf_managed hstored.object, Realm.record, hstored.stored, Option.map_some,
        Record.map, Record.filterMap_filterMap]
      refine congrArg some (Record.filterMap_congr fun v hv => ?_)
      show _ = some (t.image (s.vertexOf v))
      rw [← htargets v hv]
      -- the target is an accessor by now
      obtain ⟨object, hv'⟩ :=
        Option.ne_none_iff_exists'.mp (h.known (s.heap.closed r record hobject v hv))
      cases object with
      | unmanaged record' => exact absurd hv' (hstored.promoted v hv record')
      | managed className row' =>
        rw [Realm.rowOf_of_object hv', t.vertexOf_managed hv', Option.bind_some]

/-- **Links become links**: those of the image of a vertex are the images of its own. -/
theorem edge_image (hs : Request env className s models)
    (h : Adds env update (s.refs models) s t) {a : Vertex} (ha : a ∈ s.graph models) (b' : Vertex) :
    t.Edge (t.image a) b' ↔ ∃ b, s.Edge a b ∧ t.image b = b' := by
  rw [Realm.Edge, Realm.targets, h.record_image hs ha]
  show _ ↔ ∃ b, b ∈ s.targets a ∧ t.image b = b'
  rw [Realm.targets]
  cases s.record a with
  | none => simp
  | some record => simp

/-- Different vertices of the graph stay different. -/
theorem image_injOn (hs : Request env className s models)
    (h : Adds env update (s.refs models) s t) : Set.InjOn t.image (s.graph models) := by
  -- an object of the graph is itself, or in a row outside the graph
  have hobject : ∀ r, .object r ∈ s.graph models → ∃ record,
      s.object r = some (.unmanaged record) ∧ (t.vertexOf r = .object r ∨
        ∃ row, Stored env update (s.refs models) s t r record row ∧ t.vertexOf r = .row row) := by
    intro r hr
    obtain ⟨record, hobject⟩ := hs.object hr
    refine ⟨record, hobject, (h.stored r record hobject).imp (t.vertexOf_unmanaged ·) ?_⟩
    exact fun ⟨row, hstored⟩ => ⟨row, hstored, t.vertexOf_managed hstored.object⟩
  intro a ha b hb heq
  cases a with
  | row row =>
    cases b with
    | row row' => exact heq
    | object r =>
      rw [Realm.image, Realm.image] at heq
      obtain ⟨record, hr, hself | ⟨row', hstored, hrow'⟩⟩ := hobject r hb
      · rw [hself] at heq
        cases heq
      · rw [hrow', Vertex.row.injEq] at heq
        exact absurd heq (row_ne hs ha hr hstored)
  | object r =>
    obtain ⟨record, hr, hself | ⟨row, hstored, hrow⟩⟩ := hobject r ha
    · cases b with
      | row row' =>
        rw [Realm.image, Realm.image, hself] at heq
        cases heq
      | object r' =>
        rw [Realm.image, Realm.image, hself] at heq
        obtain ⟨record', hr', hself' | ⟨row', hstored', hrow'⟩⟩ := hobject r' hb
        · exact heq.trans hself'
        · rw [hrow'] at heq
          cases heq
    · cases b with
      | row row' =>
        rw [Realm.image, Realm.image, hrow, Vertex.row.injEq] at heq
        exact absurd heq.symm (row_ne hs hb hr hstored)
      | object r' =>
        rw [Realm.image, Realm.image, hrow] at heq
        obtain ⟨record', hr', hself' | ⟨row', hstored', hrow'⟩⟩ := hobject r' hb
        · rw [hself'] at heq
          cases heq
        · rw [hrow', Vertex.row.injEq] at heq
          subst heq
          exact congrArg Vertex.object (h.injective r r' record record' row hstored hstored' hr hr')

/-- What is below some vertices of the graph afterwards is what was below them. -/
theorem reachable_image (hs : Request env className s models)
    (h : Adds env update (s.refs models) s t) {roots : Set Vertex}
    (hroots : Reachable s.Edge roots ⊆ s.graph models) :
    t.image '' Reachable s.Edge roots = Reachable t.Edge (t.image '' roots) :=
  Reachable.image fun _ ha b' => h.edge_image hs (hroots ha) b'

/-- **Adding objects keeps the graph of every model.** -/
theorem isomorphic (hs : Request env className s models)
    (h : Adds env update (s.refs models) s t) {m : Ref} (hm : m ∈ models) :
    Isomorphic s (s.vertexOf m) t (t.vertexOf m) := by
  have hroot : t.image (s.vertexOf m) = t.vertexOf m := h.image_vertexOf (hs.mem_refs hm).1
  have hgraph : Reachable s.Edge {s.vertexOf m} ⊆ s.graph models := by
    refine Reachable.mono ?_
    rintro _ rfl
    exact ⟨m, hm, rfl⟩
  refine ⟨t.image, hroot, ?_, fun n hn => h.record_image hs (hgraph hn)⟩
  have himage := h.reachable_image hs hgraph
  rw [Set.image_singleton, hroot] at himage
  rw [← himage]
  exact ((h.image_injOn hs).mono hgraph).bijOn_image

end Adds

end QBRepository
