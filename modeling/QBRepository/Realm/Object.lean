import Mathlib.Logic.Function.Basic
import QBRepository.Lib.FreshMap
import QBRepository.Realm.Record

namespace QBRepository

/-!
# Realm objects

A Realm stores rows that link to rows.  The program holds objects: unmanaged ones, which have
their properties themselves and refer to objects, and accessors, which stand for a row.

* `Realm` — the rows, and the objects of the program (`Heap`, closed under references);
* `Vertex`, `Realm.record`, `Realm.Edge` — the object graph over both: all accessors of a row are
  one vertex;
* `Realm.Extends` — reading objects keeps the graph (`links_spec`).
-/

/-- A reference to an object of the program. -/
abbrev Ref := Nat

/-- A row; the number of a deleted row is not used again. -/
abbrev RowId := Nat

variable {Scalar : Type}

/-! ### Objects of the program -/

/-- An object of the program. -/
inductive RLMObject (Scalar : Type) where
  | unmanaged (record : Record Scalar Ref)
  | managed (className : String) (row : RowId)

/-- The objects of the program; an unmanaged object refers to objects only. -/
structure Heap (Scalar : Type) where
  objects : FreshMap (RLMObject Scalar)
  closed : ∀ r record, objects.get r = some (.unmanaged record) →
    ∀ t ∈ record.targets, objects.get t ≠ none

/-- An empty heap has no unmanaged objects. -/
theorem not_unmanaged_empty (r : Ref) (record : Record Scalar Ref)
    (h : FreshMap.empty.get r = some (RLMObject.unmanaged record)) :
    ∀ t ∈ record.targets, (FreshMap.empty : FreshMap (RLMObject Scalar)).get t ≠ none := by
  cases h

namespace Heap

/-- The heap of one unmanaged object, which refers to nothing but itself. -/
def single (record : Record Scalar Ref) (h : ∀ t ∈ record.targets, t = 0) : Heap Scalar where
  objects := FreshMap.empty.alloc (.unmanaged record)
  closed r record' hr t ht := by
    have hzero : r = 0 := Nat.lt_one_iff.mp (FreshMap.lt_next_of_get _ hr)
    subst hzero
    obtain rfl := RLMObject.unmanaged.inj (Option.some.inj hr)
    rw [h t ht]
    exact Option.some_ne_none _

variable (heap : Heap Scalar)

/-- A new accessor. -/
def alloc (className : String) (row : RowId) : Heap Scalar where
  objects := heap.objects.alloc (.managed className row)
  closed r record hr t ht := by
    have hne : r ≠ heap.objects.next := by
      rintro rfl
      rw [FreshMap.get_alloc_self] at hr
      cases Option.some.inj hr
    rw [FreshMap.get_alloc_of_ne _ _ hne] at hr
    rw [FreshMap.get_alloc]
    by_cases htn : t = heap.objects.next
    · rw [htn, Function.update_self]
      exact Option.some_ne_none _
    · rw [Function.update_of_ne htn]
      exact heap.closed r record hr t ht

/-- An object becomes an accessor. -/
def promote (r : Ref) (className : String) (row : RowId) : Heap Scalar where
  objects := heap.objects.update r fun _ => some (.managed className row)
  closed r' record hr' t ht := by
    rw [FreshMap.get_update] at hr' ⊢
    have hne : r' ≠ r := by
      rintro rfl
      rw [Function.update_self] at hr'
      obtain ⟨_, _, h⟩ := Option.bind_eq_some_iff.mp hr'
      cases Option.some.inj h
    rw [Function.update_of_ne hne] at hr'
    have hclosed := heap.closed r' record hr' t ht
    by_cases htr : t = r
    · subst htr
      obtain ⟨object, hobject⟩ := Option.ne_none_iff_exists'.mp hclosed
      rw [Function.update_self, hobject]
      exact Option.some_ne_none _
    · rw [Function.update_of_ne htr]
      exact hclosed

end Heap

/-! ### The Realm and its object graph -/

/-- How the rows that are left of a table are enumerated.  A deletion moves the last row of the
    table to where the deleted one was, so this depends on all deletions before; rows are numbered
    in the order in which they were made. -/
structure RowOrder where
  arrange : List RowId → List RowId
  perm : ∀ rows, (arrange rows).Perm rows

/-- The order in which the rows were made. -/
def RowOrder.made : RowOrder := ⟨fun rows => rows, List.Perm.refl⟩

/-- The state of a Realm and of the program that uses it; `picks` counts the elements taken
    out of sets. -/
structure Realm (Scalar : Type) where
  rows : FreshMap (Record Scalar RowId)
  heap : Heap Scalar
  inWriteTransaction : Bool
  picks : Nat
  order : RowOrder := .made

/-- A vertex of the object graph: an unmanaged object, or a row with all its accessors. -/
inductive Vertex where
  | object (r : Ref)
  | row (row : RowId)
deriving DecidableEq

namespace Realm

variable (s : Realm Scalar)

/-- The object behind a reference. -/
def object (r : Ref) : Option (RLMObject Scalar) := s.heap.objects.get r

/-- The vertex of a reference. -/
def vertexOf (r : Ref) : Vertex :=
  match s.object r with
  | some (.managed _ row) => .row row
  | some (.unmanaged _) | none => .object r

/-- The properties of a vertex, with vertices for targets. -/
def record : Vertex → Option (Record Scalar Vertex)
  | .object r =>
    match s.object r with
    | some (.unmanaged record) => some (record.map s.vertexOf)
    | some (.managed _ _) | none => none
  | .row row => (s.rows.get row).map fun record => record.map .row

/-- The targets of a vertex. -/
def targets (a : Vertex) : List Vertex :=
  match s.record a with
  | some record => record.targets
  | none => []

/-- `a` links to `b` by an object or list property. -/
def Edge (a b : Vertex) : Prop := b ∈ s.targets a

/-- The vertices of some references. -/
def vertices (refs : List Ref) : Set Vertex := {a | ∃ r ∈ refs, s.vertexOf r = a}

/-- The reference is an accessor of a row that does not exist any more. -/
def isInvalidated (r : Ref) : Bool :=
  match s.object r with
  | some (.managed _ row) => (s.rows.get row).isNone
  | some (.unmanaged _) | none => false

/-- A new accessor of a row of some class. -/
def accessorOf (className : String) (row : RowId) : Ref × Realm Scalar :=
  (s.heap.objects.next, { s with heap := s.heap.alloc className row })

/-- A new accessor of a row, of the class of the row. -/
def accessor (row : RowId) : Ref × Realm Scalar :=
  let className := match s.rows.get row with
    | some record => record.className
    | none => ""
  s.accessorOf className row

/-- New accessors of some rows. -/
def accessors (s : Realm Scalar) : List RowId → List Ref × Realm Scalar
  | [] => ([], s)
  | row :: rows =>
    let (r, s) := s.accessor row
    let (rs, s) := s.accessors rows
    (r :: rs, s)

/-- Read the object and list properties of an object; links of a row are read as new
    accessors. -/
def links (r : Ref) : List Ref × Realm Scalar :=
  match s.object r with
  | some (.unmanaged record) => (record.targets, s)
  | some (.managed _ row) =>
    match s.rows.get row with
    | some record => s.accessors record.targets
    | none => ([], s)
  | none => ([], s)

/-- Delete a row: links to it become null, and lists lose their entries for it. -/
def deleteRow (row : RowId) : Realm Scalar :=
  { s with rows := s.rows.filterMap fun k record =>
      if k = row then none
      else some (record.filterMap fun t => if t = row then none else some t) }

/-- An accessor is a vertex of its row. -/
theorem object_of_vertexOf_row {r : Ref} {row : RowId} (h : s.vertexOf r = .row row) :
    ∃ className, s.object r = some (.managed className row) := by
  rw [vertexOf] at h
  split at h
  next className row' hobject =>
    obtain rfl := Vertex.row.inj h
    exact ⟨className, hobject⟩
  next => cases h
  next => cases h

/-- An unmanaged object is a vertex itself. -/
theorem object_of_vertexOf_object {r r' : Ref} (hknown : s.object r ≠ none)
    (h : s.vertexOf r = .object r') : r' = r ∧ ∃ record, s.object r = some (.unmanaged record) := by
  rw [vertexOf] at h
  split at h
  next => cases h
  next record hobject => exact ⟨(Vertex.object.inj h).symm, record, hobject⟩
  next hnone => exact absurd hnone hknown

/-- An unmanaged object is a vertex of its own. -/
theorem vertexOf_unmanaged {r : Ref} {record : Record Scalar Ref}
    (h : s.object r = some (.unmanaged record)) : s.vertexOf r = .object r := by
  rw [vertexOf, h]

/-- An accessor stands for its row. -/
theorem vertexOf_managed {r : Ref} {className : String} {row : RowId}
    (h : s.object r = some (.managed className row)) : s.vertexOf r = .row row := by
  rw [vertexOf, h]

variable {s} in
/-- An object is invalidated only if it is an accessor whose row is gone. -/
theorem isInvalidated_eq_false {r : Ref} : s.isInvalidated r = false ↔
    ∀ className row, s.object r = some (.managed className row) → s.rows.get row ≠ none := by
  rw [Realm.isInvalidated]
  cases s.object r with
  | none => simp
  | some object => cases object <;> simp [Option.isSome_iff_ne_none]

/-- An object leads to the vertices of its targets. -/
theorem edge_object {r : Ref} {record : Record Scalar Ref}
    (h : s.object r = some (.unmanaged record)) {b : Vertex} :
    s.Edge (.object r) b ↔ ∃ t ∈ record.targets, s.vertexOf t = b := by
  simp only [Edge, targets, Realm.record, h, Record.targets_map, List.mem_map]

/-- A row leads to rows. -/
theorem edge_row {row : RowId} {b : Vertex} :
    s.Edge (.row row) b ↔ ∃ record, s.rows.get row = some record ∧
      ∃ t ∈ record.targets, Vertex.row t = b := by
  rw [Edge, targets, Realm.record]
  cases s.rows.get row with
  | none => simp
  | some record => simp [Record.targets_map]

/-! ### Reading keeps the graph -/

/-- `s'` has the objects of `s`, and possibly new accessors. -/
structure KeepsObjects (s s' : Realm Scalar) : Prop where
  object : ∀ r object, s.object r = some object → s'.object r = some object
  unmanaged : ∀ r record, s'.object r = some (.unmanaged record) →
    s.object r = some (.unmanaged record)

/-- Moreover, it has the same rows. -/
structure Extends (s s' : Realm Scalar) : Prop extends KeepsObjects s s' where
  rows : s'.rows = s.rows

variable {s} {s' s'' : Realm Scalar}

/-- Nothing happens. -/
theorem KeepsObjects.refl (s : Realm Scalar) : KeepsObjects s s where
  object _ _ h := h
  unmanaged _ _ h := h

/-- The objects are kept if the heap is. -/
theorem KeepsObjects.of_heap (h : s'.heap = s.heap) : KeepsObjects s s' where
  object r object hr := by rw [Realm.object, h]; exact hr
  unmanaged r record hr := by rw [Realm.object, ← h]; exact hr

/-- What is kept twice is kept. -/
theorem KeepsObjects.trans (h : KeepsObjects s s') (h' : KeepsObjects s' s'') :
    KeepsObjects s s'' where
  object r object hr := h'.object r object (h.object r object hr)
  unmanaged r record hr := h.unmanaged r record (h'.unmanaged r record hr)

/-- Known objects stay known. -/
theorem KeepsObjects.known (h : KeepsObjects s s') {r : Ref} (hr : s.object r ≠ none) :
    s'.object r ≠ none := by
  obtain ⟨object, hobject⟩ := Option.ne_none_iff_exists'.mp hr
  rw [h.object r object hobject]
  exact Option.some_ne_none object

/-- The vertex of a known reference stays its vertex. -/
theorem KeepsObjects.vertexOf (h : KeepsObjects s s') {r : Ref} (hr : s.object r ≠ none) :
    s'.vertexOf r = s.vertexOf r := by
  obtain ⟨object, hobject⟩ := Option.ne_none_iff_exists'.mp hr
  rw [Realm.vertexOf, Realm.vertexOf, hobject, h.object r object hobject]

/-- The properties of unmanaged objects stay the same. -/
theorem KeepsObjects.record (h : KeepsObjects s s') (r : Ref) :
    s'.record (.object r) = s.record (.object r) := by
  cases hr : s'.object r with
  | none =>
    cases hr' : s.object r with
    | none => rw [Realm.record, Realm.record, hr, hr']
    | some object =>
      rw [h.object r object hr'] at hr
      cases hr
  | some object =>
    cases object with
    | unmanaged record =>
      have hr' := h.unmanaged r record hr
      rw [Realm.record, Realm.record, hr, hr']
      exact congrArg some (Record.map_congr fun t ht =>
        h.vertexOf (s.heap.closed r record hr' t ht))
    | managed className row =>
      cases hr' : s.object r with
      | none => rw [Realm.record, Realm.record, hr, hr']
      | some object =>
        rw [h.object r object hr', Option.some.injEq] at hr
        rw [Realm.record, Realm.record, h.object r object hr', hr', hr]

/-- So do their links. -/
theorem KeepsObjects.edge (h : KeepsObjects s s') {r : Ref} {b : Vertex} :
    s'.Edge (.object r) b ↔ s.Edge (.object r) b := by
  rw [Edge, Edge, targets, targets, h.record]

/-- Nothing is read. -/
theorem Extends.refl (s : Realm Scalar) : Extends s s := ⟨.refl s, rfl⟩

/-- Reading twice. -/
theorem Extends.trans (h : Extends s s') (h' : Extends s' s'') : Extends s s'' :=
  ⟨h.toKeepsObjects.trans h'.toKeepsObjects, h'.rows.trans h.rows⟩

/-- A new accessor changes nothing else. -/
theorem extends_accessorOf (s : Realm Scalar) (className : String) (row : RowId) :
    Extends s (s.accessorOf className row).2 where
  rows := rfl
  object r object hr := by
    have hlt : r < s.heap.objects.next := FreshMap.lt_next_of_get _ hr
    exact (FreshMap.get_alloc_of_ne _ _ (Nat.ne_of_lt hlt)).trans hr
  unmanaged r record hr := by
    have hne : r ≠ s.heap.objects.next := by
      rintro rfl
      rw [Realm.object, accessorOf, Heap.alloc, FreshMap.get_alloc_self] at hr
      cases Option.some.inj hr
    exact (FreshMap.get_alloc_of_ne _ _ hne).symm.trans hr

/-- It is an accessor of the row. -/
theorem object_accessorOf (s : Realm Scalar) (className : String) (row : RowId) :
    (s.accessorOf className row).2.object (s.accessorOf className row).1
      = some (.managed className row) := by
  rw [Realm.object, accessorOf, Heap.alloc, FreshMap.get_alloc_self]

/-- The same, for an accessor of the class of the row. -/
theorem extends_accessor (s : Realm Scalar) (row : RowId) : Extends s (s.accessor row).2 :=
  s.extends_accessorOf _ row

/-- It has some class. -/
theorem object_accessor (s : Realm Scalar) (row : RowId) :
    ∃ className, (s.accessor row).2.object (s.accessor row).1 = some (.managed className row) :=
  ⟨_, s.object_accessorOf _ row⟩

/-- The accessors read for some rows are accessors of these rows. -/
theorem accessors_spec (s : Realm Scalar) (rows : List RowId) :
    Extends s (s.accessors rows).2 ∧
      (∀ r ∈ (s.accessors rows).1, (s.accessors rows).2.object r ≠ none) ∧
      (s.accessors rows).1.map (s.accessors rows).2.vertexOf = rows.map .row := by
  induction rows generalizing s with
  | nil => exact ⟨.refl s, by simp [accessors], rfl⟩
  | cons row rows ih =>
    obtain ⟨hext, hobj, hvertices⟩ := ih (s.accessor row).2
    obtain ⟨className, hobject⟩ := s.object_accessor row
    have hfirst : (s.accessors (row :: rows)).2.object (s.accessor row).1
        = some (.managed className row) := hext.object _ _ hobject
    refine ⟨(extends_accessor s row).trans hext, ?_, ?_⟩
    · intro r hr
      rcases List.mem_cons.mp hr with rfl | hr
      · exact hfirst.trans_ne (Option.some_ne_none _)
      · exact hobj r hr
    · show (s.accessors (row :: rows)).2.vertexOf (s.accessor row).1 :: _ = _
      rw [vertexOf_managed _ hfirst, List.map_cons, ← hvertices]
      rfl

/-- Reading the links of an object yields references to the targets of its vertex. -/
theorem links_spec (s : Realm Scalar) (r : Ref) :
    Extends s (s.links r).2 ∧
      (∀ t ∈ (s.links r).1, (s.links r).2.object t ≠ none) ∧
      (s.links r).1.map (s.links r).2.vertexOf = s.targets (s.vertexOf r) := by
  cases hr : s.object r with
  | none =>
    rw [links, targets, vertexOf, hr]
    refine ⟨.refl s, by simp, ?_⟩
    simp only [record, hr, List.map_nil]
  | some object =>
    cases object with
    | unmanaged rec =>
      rw [links, targets, vertexOf, hr]
      refine ⟨.refl s, s.heap.closed r rec hr, ?_⟩
      simp only [record, hr, Record.targets_map]
    | managed className row =>
      cases hrow : s.rows.get row with
      | none =>
        rw [links, targets, vertexOf, hr]
        simp only [hrow, record, Option.map_none]
        exact ⟨.refl s, by simp, rfl⟩
      | some rec =>
        rw [links, targets, vertexOf, hr]
        simp only [hrow, record, Option.map_some, Record.targets_map]
        exact s.accessors_spec rec.targets

end Realm

end QBRepository
