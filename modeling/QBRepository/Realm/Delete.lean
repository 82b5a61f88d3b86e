import QBRepository.Realm.Termination

namespace QBRepository

/-!
# Deleting models

`delete` and `deleteAll` remove the rows reachable from the models, and nothing else.  Models
that an earlier one has reached are accessors of deleted rows by then; their cascade does nothing.

* `Cascading.cascadeDelete`, `Cascading.cascadeDelete_converges` — one more model;
* `Reads`, `deleteEach` — a sequence of models, each read when its turn comes;
* `Removes` — the purpose of a delete, in terms of the graph before it;
* `delete_removes_reachable` — the repository's deletes.
-/

variable {Scalar : Type} {env : RealmEnvironment Scalar}

/-! ### One more model -/

/-- A further root is pending. -/
theorem Cascading.addRoot {s₀ s : Realm Scalar} {roots done : Set Vertex} {entity : Ref}
    (h : Cascading s₀ roots done s []) (hknown : s.object entity ≠ none) :
    Cascading s₀ (insert (s.vertexOf entity) roots) done s [entity] where
  keeps := h.keeps
  known r hr := List.mem_singleton.mp hr ▸ hknown
  next := h.next
  rows := h.rows
  explores := by
    rw [s.vertices_cons]
    exact h.explores.addRoot (s.vertexOf entity)

/-- The worklist starts with the entity, if that can be hashed. -/
theorem insert_nil (s : Realm Scalar) (entity : Ref) :
    ToBeDeleted.insert env s entity []
      = if env.hash s entity then .returns [entity] else .raises := rfl

/-- **A further model that has been deleted**: the exploration has gone on from it. -/
theorem Cascading.cascadeDelete {s₀ s s' : Realm Scalar} {roots done : Set Vertex} {entity : Ref}
    {fuel : Nat} (h : Cascading s₀ roots done s []) (hknown : s.object entity ≠ none)
    (hrun : QBRepository.cascadeDelete env fuel entity s = .returns s') :
    env.hash s entity = true ∧
      ∃ done', Cascading s₀ (insert (s.vertexOf entity) roots) done' s' [] := by
  obtain ⟨toBeDeleted, hinsert, hrun⟩ := Outcome.bind_eq_returns.mp hrun
  obtain ⟨⟨s'', rest⟩, hloop, hrun⟩ := Outcome.bind_eq_returns.mp hrun
  obtain rfl := Outcome.returns.inj hrun
  rw [insert_nil] at hinsert
  split at hinsert
  next hhash =>
    obtain rfl := Outcome.returns.inj hinsert
    exact ⟨hhash, (h.addRoot hknown).loop hloop⟩
  next => cases hinsert

/-- **Deleting a further model returns**, if what is read can be hashed and nothing unmanaged lies
    on a cycle. -/
theorem Cascading.cascadeDelete_converges {s₀ s : Realm Scalar} {roots done : Set Vertex}
    {entity : Ref} (h : Cascading s₀ roots done s []) (hknown : s.object entity ≠ none)
    (hentity : env.hash s entity = true)
    (hash : LinksHash env s₀ (insert (s.vertexOf entity) roots))
    {rank : Vertex → ℕ} (hrank : s₀.Descends (insert (s.vertexOf entity) roots) rank) :
    ∃ s', Outcome.Converges (fun fuel => QBRepository.cascadeDelete env fuel entity s) s' := by
  obtain ⟨⟨s', rest⟩, n, hn⟩ := (h.addRoot hknown).converges hash hrank
  refine ⟨s', n, fun fuel hfuel => ?_⟩
  have hloop : cascadeLoop env fuel (s, [entity]) = .returns (s', rest) := hn fuel hfuel
  show QBRepository.cascadeDelete env fuel entity s = .returns s'
  rw [QBRepository.cascadeDelete, insert_nil, hentity, if_pos rfl, Outcome.returns_bind, hloop]
  rfl

/-! ### A sequence of models -/

section Sequence

variable {α : Type} {s : Realm Scalar} {read : α → Realm Scalar → Ref × Realm Scalar}
  {className : α → String} {row : α → RowId} {elements : List α}

/-- The elements of a sequence are accessors of rows, each read when its turn comes. -/
def Reads (s : Realm Scalar) (read : α → Realm Scalar → Ref × Realm Scalar)
    (className : α → String) (row : α → RowId) (elements : List α) : Prop :=
  ∀ a ∈ elements, ∀ s', s.KeepsObjects s' → s'.Extends (read a s').2 ∧
    (read a s').2.object (read a s').1 = some (.managed (className a) (row a))

/-- The vertices of their rows. -/
def rowVertices (row : α → RowId) (elements : List α) : Set Vertex :=
  {v | ∃ a ∈ elements, .row (row a) = v}

/-- `delete(_:cascade: true)` for any sequence of objects. -/
def deleteEach (env : RealmEnvironment Scalar) (fuel : Nat)
    (read : α → Realm Scalar → Ref × Realm Scalar) (elements : List α) (s : Realm Scalar) :
    Outcome (Realm Scalar) :=
  Outcome.forEach (fun a s => cascadeDelete env fuel (read a s).1 (read a s).2) elements s

/-- The row of one more element. -/
theorem rowVertices_concat (row : α → RowId) (elements : List α) (a : α) :
    rowVertices row (elements ++ [a]) = insert (.row (row a)) (rowVertices row elements) := by
  ext v
  simp [rowVertices, eq_comm, or_comm]

/-- These vertices are rows. -/
theorem rowVertices_rows : ∀ v ∈ rowVertices row elements, ∃ k, v = .row k := by
  rintro v ⟨a, -, rfl⟩
  exact ⟨row a, rfl⟩

/-- Reading the next element. -/
theorem Reads.next {pre post : List α} {a : α} {roots done : Set Vertex} {s' : Realm Scalar}
    (h : Reads s read className row elements) (hsplit : elements = pre ++ a :: post)
    (hs' : Cascading s roots done s' []) :
    Cascading s roots done (read a s').2 [] ∧
      (read a s').2.object (read a s').1 = some (.managed (className a) (row a)) := by
  obtain ⟨hread, hobject⟩ := h a (by simp [hsplit]) s' hs'.keeps
  exact ⟨hs'.read hread, hobject⟩

/-- **A sequence that has been deleted** explores the graph from all its elements. -/
theorem Reads.cascading (h : Reads s read className row elements) {fuel : Nat} {t : Realm Scalar}
    (hrun : deleteEach env fuel read elements s = .returns t) :
    ∃ done, Cascading s (rowVertices row elements) done t [] := by
  refine Outcome.forEach_invariant
    (I := fun pre t => ∃ done, Cascading s (rowVertices row pre) done t []) ?_ ⟨∅, ?_⟩ hrun
  · rintro pre a post s₁ s₂ hsplit ⟨done, hs₁⟩ hcall
    obtain ⟨hread, hobject⟩ := h.next hsplit hs₁
    obtain ⟨-, hnext⟩ := hread.cascadeDelete (hobject ▸ Option.some_ne_none _) hcall
    rwa [rowVertices_concat, ← Realm.vertexOf_managed _ hobject]
  · simpa [rowVertices] using Cascading.start s

/-- **Deleting a sequence returns**, if each element can be hashed when its turn comes. -/
theorem Reads.converges (h : Reads s read className row elements)
    (hlinks : ∀ roots, (∀ a ∈ roots, ∃ k, a = .row k) → LinksHash env s roots)
    (hash : ∀ pre a post, elements = pre ++ a :: post → ∀ s' done,
      Cascading s (rowVertices row pre) done s' [] → env.hash (read a s').2 (read a s').1 = true) :
    ∃ t, Outcome.Converges (fun fuel => deleteEach env fuel read elements s) t := by
  have hend : ∃ t, Outcome.Converges (fun fuel => deleteEach env fuel read elements s) t ∧
      ∃ done, Cascading s (rowVertices row elements) done t [] := by
    refine Outcome.forEach_converges
      (f := fun fuel a s => cascadeDelete env fuel (read a s).1 (read a s).2)
      (I := fun pre t => ∃ done, Cascading s (rowVertices row pre) done t []) ?_
      ⟨∅, by simpa [rowVertices] using Cascading.start s⟩
    rintro pre a post s' hsplit ⟨done, hs'⟩
    obtain ⟨hread, hobject⟩ := h.next hsplit hs'
    have hknown := hobject ▸ Option.some_ne_none _
    -- only rows are reachable, so nothing lies on a cycle of unmanaged objects
    have hroots : ∀ v ∈ insert ((read a s').2.vertexOf (read a s').1) (rowVertices row pre),
        ∃ k, v = .row k := by
      rw [Realm.vertexOf_managed _ hobject, ← rowVertices_concat]
      exact rowVertices_rows
    obtain ⟨s'', n, hn⟩ := hread.cascadeDelete_converges hknown (hash pre a post hsplit s' done hs')
      (hlinks _ hroots) (Realm.descends_of_rows hroots fun _ => 0)
    obtain ⟨-, hnext⟩ := hread.cascadeDelete hknown (hn n le_rfl)
    refine ⟨s'', ⟨n, hn⟩, ?_⟩
    rwa [rowVertices_concat, ← Realm.vertexOf_managed _ hobject]
  obtain ⟨t, hconverges, -⟩ := hend
  exact ⟨t, hconverges⟩

end Sequence

/-- Models are accessors of their rows, whatever is deleted. -/
theorem reads_models {s : Realm Scalar} {models : List Ref}
    (hmodels : ∀ m ∈ models, s.Managed m) : Reads s Prod.mk
      (fun m => (s.className m).getD "") (fun m => (s.rowOf m).getD 0) models := by
  intro m hm s' hs'
  obtain ⟨className, row, hobject⟩ := (hmodels m hm).object
  refine ⟨.refl s', ?_⟩
  simp only [Realm.className, Realm.rowOf, hobject]
  exact hs'.object m _ hobject

/-- The rows of managed models are their vertices. -/
theorem rowVertices_models {s : Realm Scalar} {models : List Ref}
    (hmodels : ∀ m ∈ models, s.Managed m) :
    rowVertices (fun m => (s.rowOf m).getD 0) models = s.vertices models := by
  ext v
  refine exists_congr fun m => and_congr_right fun hm => ?_
  obtain ⟨className, row, hobject⟩ := (hmodels m hm).object
  simp only [Realm.rowOf, hobject, s.vertexOf_managed hobject, Option.getD_some]

/-- The elements of a snapshot are new accessors of its rows. -/
theorem reads_results (s : Realm Scalar) (className : String) (rows : List RowId) :
    Reads s (fun row s => s.accessorOf className row) (fun _ => className) id rows :=
  fun row _ s' _ => ⟨s'.extends_accessorOf className row, s'.object_accessorOf className row⟩

/-- Deleting models one after another explores the graph from all of them. -/
theorem deleteCascading_converges {s : Realm Scalar} {models : List Ref}
    (hash : ∀ s r, env.hash s r = true) (hmodels : ∀ m ∈ models, s.Managed m) :
    ∃ s', Outcome.Converges (fun fuel => deleteCascading env fuel models s) s' ∧
      s.KeepsObjects s' ∧
      s'.rows.get = without s.rows (rowsIn (Reachable s.Edge (s.vertices models))) := by
  have hreads := reads_models hmodels
  obtain ⟨s', n, hn⟩ := hreads.converges (fun _ _ => linksHash_of_total hash)
    fun _ _ _ _ _ _ _ => hash _ _
  obtain ⟨done, hs'⟩ := hreads.cascading (hn n le_rfl)
  rw [rowVertices_models hmodels] at hs'
  exact ⟨s', ⟨n, hn⟩, hs'.keeps, hs'.finish⟩

/-- Deleting the rows of a snapshot, each through a new accessor. -/
theorem deleteResultsCascading_converges {s : Realm Scalar} {className : String}
    {rows : List RowId} (hash : ∀ s r, env.hash s r = true) :
    ∃ s', Outcome.Converges (fun fuel => deleteResultsCascading env fuel className rows s) s' ∧
      s.KeepsObjects s' ∧
      s'.rows.get
        = without s.rows (rowsIn (Reachable s.Edge {a | ∃ row ∈ rows, .row row = a})) := by
  have hreads := reads_results s className rows
  obtain ⟨s', n, hn⟩ := hreads.converges (fun _ _ => linksHash_of_total hash)
    fun _ _ _ _ _ _ _ => hash _ _
  obtain ⟨done, hs'⟩ := hreads.cascading (hn n le_rfl)
  exact ⟨s', ⟨n, hn⟩, hs'.keeps, hs'.finish⟩

/-! ### The repository -/

/-- The call succeeds and leaves the Realm without the rows reachable from `roots`; links from
    the other rows to them are null or dropped from their lists. -/
def Removes (s : Realm Scalar) (roots : Set Vertex)
    (call : Nat → Realm Scalar → Outcome (Option RealmError × Realm Scalar)) : Prop :=
  ∃ s', Outcome.Converges (fun fuel => call fuel s) (none, s') ∧
    s'.rows.get = without s.rows (rowsIn (Reachable s.Edge roots)) ∧
    s.KeepsObjects s' ∧ s'.inWriteTransaction = false

/-- A block that removes the rows makes a delete in a transaction of its own. -/
theorem removes_of_block {s : Realm Scalar} {roots : Set Vertex}
    {block : Nat → Realm Scalar → Outcome (Realm Scalar)} {t : Realm Scalar}
    (hidle : s.inWriteTransaction = false) (ht : t = { s with inWriteTransaction := true })
    (h : ∃ s', Outcome.Converges (fun fuel => block fuel t) s' ∧ t.KeepsObjects s' ∧
      s'.rows.get = without t.rows (rowsIn (Reachable t.Edge roots))) :
    Removes s roots fun fuel s => do
      let s ← write (block fuel) s
      return (none, s) := by
  subst ht
  obtain ⟨s', hconverges, hkeeps, hrows⟩ := h
  have hbegin : s.KeepsObjects { s with inWriteTransaction := true } := .of_heap rfl
  have hcommit : s'.KeepsObjects { s' with inWriteTransaction := false } := .of_heap rfl
  exact ⟨_, (write_converges hidle hconverges).bind (.const _), hrows,
    (hbegin.trans hkeeps).trans hcommit, rfl⟩

/-- Two calls that remove the same leave the same rows. -/
theorem Removes.rows_eq {s s₁ s₂ : Realm Scalar} {roots : Set Vertex}
    {call₁ call₂ : Nat → Realm Scalar → Outcome (Option RealmError × Realm Scalar)}
    {e₁ e₂ : Option RealmError} (h₁ : Removes s roots call₁) (h₂ : Removes s roots call₂)
    (hs₁ : Outcome.Converges (fun fuel => call₁ fuel s) (e₁, s₁))
    (hs₂ : Outcome.Converges (fun fuel => call₂ fuel s) (e₂, s₂)) :
    s₁.rows.get = s₂.rows.get := by
  obtain ⟨s₁', hs₁', hrows₁, _⟩ := h₁
  obtain ⟨s₂', hs₂', hrows₂, _⟩ := h₂
  obtain ⟨_, rfl⟩ := Prod.mk.inj (hs₁.unique hs₁')
  obtain ⟨_, rfl⟩ := Prod.mk.inj (hs₂.unique hs₂')
  rw [hrows₁, hrows₂]

/-- One model is a list of one model. -/
theorem RealmRepository.delete_eq (env : RealmEnvironment Scalar) (fuel : Nat) (model : Ref) :
    RealmRepository.delete env fuel model = RealmRepository.deleteList env fuel [model] := by
  have hone : cascadeDelete env fuel model = deleteCascading env fuel [model] :=
    funext fun s => (Outcome.forEach_singleton _ model s).symm
  funext s
  rw [RealmRepository.delete, RealmRepository.deleteList, hone]

/-- Deleting a list of models in a transaction. -/
theorem deleteList_removes {s : Realm Scalar} {models : List Ref}
    (hash : ∀ s r, env.hash s r = true) (hidle : s.inWriteTransaction = false)
    (hmodels : ∀ m ∈ models, s.Managed m) :
    Removes s (s.vertices models) fun fuel => RealmRepository.deleteList env fuel models :=
  removes_of_block hidle rfl (deleteCascading_converges (s := { s with inWriteTransaction := true })
    hash hmodels)

/-- **Cascading deletion removes exactly what is reachable from the models**, whatever the order
    of the set (`env.pick`), and the order of the models does not matter either. -/
theorem delete_removes_reachable (hash : ∀ s r, env.hash s r = true) {s : Realm Scalar}
    (hidle : s.inWriteTransaction = false) :
    (∀ models : List Ref, (∀ m ∈ models, s.Managed m) →
      Removes s (s.vertices models) fun fuel => RealmRepository.deleteList env fuel models) ∧
    (∀ model : Ref, s.Managed model →
      Removes s {s.vertexOf model} fun fuel => RealmRepository.delete env fuel model) ∧
    (∀ repo : RealmRepository, Removes s {a | ∃ row ∈ repo.objects s, .row row = a}
      fun fuel => repo.deleteAll env fuel) ∧
    (∀ (env' : RealmEnvironment Scalar) (models models' : List Ref) (e e' : Option RealmError)
      (t t' : Realm Scalar), (∀ s r, env'.hash s r = true) → (∀ m ∈ models, s.Managed m) →
      (∀ m, m ∈ models' ↔ m ∈ models) →
      Outcome.Converges (fun fuel => RealmRepository.deleteList env fuel models s) (e, t) →
      Outcome.Converges (fun fuel => RealmRepository.deleteList env' fuel models' s) (e', t') →
      t.rows.get = t'.rows.get) := by
  refine ⟨fun models hmodels => deleteList_removes hash hidle hmodels, ?_, ?_, ?_⟩
  · intro model hmodel
    have hremoves := deleteList_removes hash hidle (List.forall_mem_singleton.mpr hmodel)
    rw [Realm.vertices_cons, Realm.vertices_nil, insert_empty_eq] at hremoves
    simp only [RealmRepository.delete_eq]
    exact hremoves
  · intro repo
    exact removes_of_block hidle rfl
      (deleteResultsCascading_converges (s := { s with inWriteTransaction := true }) hash)
  · intro env' models models' e e' t t' hash' hmodels hsame ht ht'
    have hmodels' : ∀ m ∈ models', s.Managed m := fun m hm => hmodels m ((hsame m).mp hm)
    have hvertices : s.vertices models' = s.vertices models :=
      Set.ext fun a => exists_congr fun r => and_congr_left fun _ => hsame r
    have hremoves' := deleteList_removes hash' hidle hmodels'
    rw [hvertices] at hremoves'
    exact (deleteList_removes hash hidle hmodels).rows_eq hremoves' ht ht'

/-- Persons 0 and 1 are friends of each other, and both are members of a club; the program
    holds an accessor of person 0. -/
def friends : Realm Nat where
  rows := ((FreshMap.empty.alloc ⟨"Person", [("friend", .object (some 1))]⟩).alloc
    ⟨"Person", [("friend", .object (some 0))]⟩).alloc ⟨"Club", [("members", .list [0, 1])]⟩
  heap := Heap.alloc ⟨.empty, fun _ _ h => (by cases h)⟩ "Person" 0
  inWriteTransaction := false
  picks := 0

/-- Two friends and their club, with one of the friends twice in the list. -/
theorem delete_removes_reachable_friends :
    Removes friends (friends.vertices [0, 0])
      fun fuel => RealmRepository.deleteList unkeyed fuel [0, 0] :=
  (delete_removes_reachable (fun _ _ => rfl) rfl).1 [0, 0] fun m hm => ⟨0, by
    obtain rfl : m = 0 := by simpa using hm
    rfl⟩

example : match RealmRepository.deleteList unkeyed 5 [0, 0] friends with
    | .returns (_, s) => s.rows.keys = [2] ∧
      s.rows.get 2 = some ⟨"Club", [("members", .list [])]⟩
    | .raises | .diverges => False := ⟨rfl, rfl⟩

end QBRepository
