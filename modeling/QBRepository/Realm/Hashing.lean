import QBRepository.Realm.Delete

namespace QBRepository

/-!
# Hashing accessors of deleted rows

The worklist is a set, and putting an object into it hashes the object.  If its class has a
primary key, that reads the key, which raises once the row is deleted.  What a cascade reads from
a row that is there is there; but the model itself is put in whether it is there or not.

* `RealmEnvironment.ofSchema` — what can be hashed;
* `Realm.LinksAlive` — no row links to a deleted one, which deleting preserves;
* `Reads.converges_iff` — a sequence can be deleted exactly if each element is there in its turn;
* `delete_completes_iff` — the repository's deletes.
-/

variable {Scalar : Type} {s : Realm Scalar}

/-- Whether `RLMObjectBase.hash` returns: with a primary key, it reads the key. -/
def Realm.hashes (primaryKey : String → Option String) (s : Realm Scalar) (r : Ref) : Bool :=
  match s.object r with
  | some (.managed className _) => (primaryKey className).isNone || !s.isInvalidated r
  | some (.unmanaged _) | none => true

/-- An environment that hashes objects in this way. -/
def RealmEnvironment.ofSchema (primaryKey : String → Option String) (pick : Nat → Nat) :
    RealmEnvironment Scalar where
  primaryKey := primaryKey
  hash := Realm.hashes primaryKey
  pick := pick

/-- No row links to a row that has been deleted. -/
def Realm.LinksAlive (s : Realm Scalar) : Prop :=
  ∀ row record, s.rows.get row = some record → ∀ t ∈ record.targets, s.rows.get t ≠ none

variable {primaryKey : String → Option String} {pick : Nat → Nat}

/-- What can be hashed depends on the row being there. -/
theorem Realm.hashes_managed {r : Ref} {className : String} {row : RowId}
    (h : s.object r = some (.managed className row)) : s.hashes primaryKey r = true ↔
      ((primaryKey className).isSome = true → s.rows.get row ≠ none) := by
  rw [Realm.hashes, Realm.isInvalidated, h]
  cases hkey : primaryKey className <;> simp [hkey, Option.isSome_iff_ne_none]

/-- What is not invalidated can be hashed. -/
theorem Realm.hashes_of_valid {r : Ref} (h : s.isInvalidated r = false) :
    s.hashes primaryKey r = true := by
  rw [Realm.hashes]
  split
  next => simp [h]
  next => rfl
  next => rfl

/-- Deleting rows leaves no links to them. -/
theorem Realm.LinksAlive.without {t : Realm Scalar} {gone : Set RowId} (h : s.LinksAlive)
    (ht : t.rows.get = without s.rows gone) : t.LinksAlive := by
  intro row record hrow v hv
  rw [ht] at hrow ⊢
  obtain ⟨-, record₀, hget, rfl⟩ := of_without_eq_some hrow
  rw [Record.targets_filterMap] at hv
  obtain ⟨v', hv', hsurvivor⟩ := List.mem_filterMap.mp hv
  obtain rfl := eq_of_survivor hsurvivor
  have halive := h row record₀ hget v' hv'
  -- the link has survived, so its row has not been deleted
  refine without_ne_none.mpr ⟨halive, fun hgone => ?_⟩
  rw [survivor, if_pos ⟨hgone, halive⟩] at hsurvivor
  cases hsurvivor

/-- What is read from a row that is there can be hashed. -/
theorem linksHash_of_alive {roots : Set Vertex} (h : s.LinksAlive)
    (hroots : ∀ a ∈ roots, ∃ row, a = .row row) :
    LinksHash (.ofSchema primaryKey pick) s roots := by
  intro s' done element rest hs' hvalid r hr
  have halive := h.without hs'.rows
  obtain ⟨hlinks, hlinked, hvalues⟩ := s'.links_spec element
  have htarget : (s'.links element).2.vertexOf r ∈ s'.targets (s'.vertexOf element) := by
    rw [← hvalues]
    exact List.mem_map_of_mem hr
  -- the element is a row that leads to rows
  obtain ⟨row, hrow⟩ := Realm.reachable_rows hroots
    (hs'.explores.reached (Or.inr ⟨element, List.mem_cons_self, rfl⟩))
  rw [hrow] at htarget
  obtain ⟨record, hget, v, hv, hvertex⟩ := s'.edge_row.mp htarget
  obtain ⟨className, hobject⟩ := (s'.links element).2.object_of_vertexOf_row hvertex.symm
  refine (Realm.hashes_managed hobject).mpr fun _ => ?_
  rw [hlinks.rows]
  exact halive row record hget v hv

/-! ### Sequences of objects -/

section Sequence

variable {α : Type} {read : α → Realm Scalar → Ref × Realm Scalar} {className : α → String}
  {row : α → RowId} {elements : List α}

/-- In its turn, an element can be hashed exactly if it is there: it has not been deleted before,
    and no earlier element leads to it. -/
theorem Reads.hashes_iff (h : Reads s read className row elements) {pre post : List α} {a : α}
    (hsplit : elements = pre ++ a :: post) {s' : Realm Scalar} {done : Set Vertex}
    (hs' : Cascading s (rowVertices row pre) done s' []) :
    Realm.hashes primaryKey (read a s').2 (read a s').1 = true ↔
      ((primaryKey (className a)).isSome = true →
        s.rows.get (row a) ≠ none ∧
          .row (row a) ∉ Reachable s.Edge (rowVertices row pre)) := by
  obtain ⟨hread, hobject⟩ := h.next hsplit hs'
  rw [Realm.hashes_managed hobject, hread.finish, without_ne_none]
  rfl

/-- **What has been deleted was there**, element after element. -/
theorem Reads.alive_of_returns (h : Reads s read className row elements) {fuel : Nat}
    {t : Realm Scalar}
    (hrun : deleteEach (.ofSchema primaryKey pick) fuel read elements s = .returns t) :
    ∀ pre a post, elements = pre ++ a :: post → (primaryKey (className a)).isSome = true →
      s.rows.get (row a) ≠ none ∧ .row (row a) ∉ Reachable s.Edge (rowVertices row pre) := by
  intro pre a post hsplit
  -- the elements before it have been deleted, and then its deletion has returned
  rw [hsplit, deleteEach, Outcome.forEach_append] at hrun
  obtain ⟨s', hpre, hrun⟩ := Outcome.bind_eq_returns.mp hrun
  obtain ⟨s'', hcall, -⟩ := Outcome.bind_eq_returns.mp hrun
  have hbefore : Reads s read className row pre := fun a ha => h a (by simp [hsplit, ha])
  obtain ⟨done, hs'⟩ := hbefore.cascading hpre
  obtain ⟨hread, hobject⟩ := h.next hsplit hs'
  obtain ⟨hhash, -⟩ := hread.cascadeDelete (hobject ▸ Option.some_ne_none _) hcall
  exact (h.hashes_iff hsplit hs').mp hhash

/-- **What is there can be deleted.** -/
theorem Reads.converges_of_alive (h : Reads s read className row elements)
    (halive : s.LinksAlive)
    (hturn : ∀ pre a post, elements = pre ++ a :: post → (primaryKey (className a)).isSome = true →
      s.rows.get (row a) ≠ none ∧ .row (row a) ∉ Reachable s.Edge (rowVertices row pre)) :
    ∃ t, Outcome.Converges
      (fun fuel => deleteEach (.ofSchema primaryKey pick) fuel read elements s) t := by
  refine h.converges (fun roots hroots => linksHash_of_alive halive hroots) ?_
  intro pre a post hsplit s' done hs'
  exact (h.hashes_iff hsplit hs').mpr (hturn pre a post hsplit)

end Sequence

/-! ### The repository -/

/-- The call completes: it neither raises nor diverges, and reports no error. -/
def Completes (s : Realm Scalar)
    (call : Nat → Realm Scalar → Outcome (Option RealmError × Realm Scalar)) : Prop :=
  ∃ s', Outcome.Converges (fun fuel => call fuel s) (none, s')

/-- Every model whose class has a primary key is there when its turn comes. -/
def AliveInTurn (primaryKey : String → Option String) (s : Realm Scalar) (models : List Ref) :
    Prop :=
  ∀ pre m post, models = pre ++ m :: post → ∀ className row,
    s.object m = some (.managed className row) → (primaryKey className).isSome = true →
    s.rows.get row ≠ none ∧ .row row ∉ Reachable s.Edge (s.vertices pre)

/-- No object of the class is reached from one that comes before it in the results. -/
def SeparateInTurn (primaryKey : String → Option String) (repo : RealmRepository)
    (s : Realm Scalar) : Prop :=
  ∀ pre row post, repo.objects s = pre ++ row :: post →
    (primaryKey repo.className).isSome = true →
    .row row ∉ Reachable s.Edge {a | ∃ k ∈ pre, .row k = a}

/-- A call completes if the block of its transaction always does, and its block has returned
    once it does. -/
theorem completes_iff {block : Nat → Realm Scalar → Outcome (Realm Scalar)} {P : Prop}
    (hidle : s.inWriteTransaction = false)
    (hreturns : ∀ fuel t, block fuel { s with inWriteTransaction := true } = .returns t → P)
    (hconverges : P → ∃ t, Outcome.Converges
      (fun fuel => block fuel { s with inWriteTransaction := true }) t) :
    Completes s (fun fuel s => do
        let s ← write (block fuel) s
        return (none, s)) ↔ P := by
  constructor
  · rintro ⟨s', n, hn⟩
    obtain ⟨s₁, hwrite, -⟩ := Outcome.bind_eq_returns.mp (hn n le_rfl)
    obtain ⟨-, t, hrun, -⟩ := of_write_eq_returns hwrite
    exact hreturns n t hrun
  · intro hP
    obtain ⟨t, ht⟩ := hconverges hP
    exact ⟨_, (write_converges hidle ht).bind (.const _)⟩

/-- A list of models can be deleted exactly if each is there in its turn. -/
theorem deleteList_completes_iff (hidle : s.inWriteTransaction = false) (halive : s.LinksAlive)
    {models : List Ref} (hmodels : ∀ m ∈ models, s.Managed m) :
    Completes s (fun fuel => RealmRepository.deleteList (.ofSchema primaryKey pick) fuel models) ↔
      AliveInTurn primaryKey s models := by
  have hreads : Reads { s with inWriteTransaction := true } Prod.mk
      (fun m => (s.className m).getD "") (fun m => (s.rowOf m).getD 0) models :=
    reads_models hmodels
  -- what is known of an element is what its accessor says
  have hturn : (∀ pre m post, models = pre ++ m :: post →
      (primaryKey ((s.className m).getD "")).isSome = true →
      s.rows.get ((s.rowOf m).getD 0) ≠ none ∧ .row ((s.rowOf m).getD 0) ∉
        Reachable s.Edge (rowVertices (fun m => (s.rowOf m).getD 0) pre)) ↔
      AliveInTurn primaryKey s models := by
    refine forall₃_congr fun pre m post => forall_congr' fun hsplit => ?_
    obtain ⟨className, row, hobject⟩ := (hmodels m (by simp [hsplit])).object
    rw [rowVertices_models fun x hx => hmodels x (by simp [hsplit, hx]), Realm.className,
      Realm.rowOf, hobject]
    constructor
    · intro h className' row' hobject'
      obtain ⟨rfl, rfl⟩ := RLMObject.managed.inj (Option.some.inj hobject')
      exact h
    · intro h
      exact h className row rfl
  refine completes_iff hidle (fun fuel t hrun => hturn.mp (hreads.alive_of_returns hrun))
    fun h => hreads.converges_of_alive halive (hturn.mpr h)

/-- **Deleting completes** exactly if no model with a primary key is an accessor of a deleted row
    when its turn comes. -/
theorem delete_completes_iff (primaryKey : String → Option String) (pick : Nat → Nat)
    (hidle : s.inWriteTransaction = false) (halive : s.LinksAlive) :
    (∀ model, s.Managed model →
      (Completes s (fun fuel => RealmRepository.delete (.ofSchema primaryKey pick) fuel model) ↔
        AliveInTurn primaryKey s [model])) ∧
    (∀ models, (∀ m ∈ models, s.Managed m) →
      (Completes s (fun fuel =>
          RealmRepository.deleteList (.ofSchema primaryKey pick) fuel models) ↔
        AliveInTurn primaryKey s models)) ∧
    (∀ repo : RealmRepository,
      (Completes s (fun fuel => repo.deleteAll (.ofSchema primaryKey pick) fuel) ↔
        SeparateInTurn primaryKey repo s)) := by
  refine ⟨fun model hmodel => ?_, fun models hmodels =>
    deleteList_completes_iff hidle halive hmodels, fun repo => ?_⟩
  · simp only [RealmRepository.delete_eq]
    exact deleteList_completes_iff hidle halive (List.forall_mem_singleton.mpr hmodel)
  · have hreads := reads_results { s with inWriteTransaction := true } repo.className
      (repo.objects s)
    -- the objects of the class are there at the beginning
    have hobjects : ∀ row ∈ repo.objects s, s.rows.get row ≠ none := fun row hrow =>
      Option.isSome_iff_ne_none.mp
        (s.rows.mem_keys.mp (List.mem_of_mem_filter ((s.order.perm _).mem_iff.mp hrow)))
    refine completes_iff hidle (fun fuel t hrun pre row post hsplit hkey => ?_) fun h => ?_
    · exact (hreads.alive_of_returns hrun pre row post hsplit hkey).2
    · exact hreads.converges_of_alive halive fun pre row post hsplit hkey =>
        ⟨hobjects row (by simp [hsplit]), h pre row post hsplit hkey⟩

/-- A stored person with the number 7, who has a primary key, and an accessor of this person. -/
def numberedPerson : Realm Nat where
  rows := FreshMap.empty.alloc ⟨"Person", [("number", .scalar 7)]⟩
  heap := friends.heap
  inWriteTransaction := false
  picks := 0

/-- No row links to a deleted one. -/
theorem linksAlive_numberedPerson : numberedPerson.LinksAlive := by
  intro row record hrow t ht
  match row with
  | 0 =>
    obtain rfl := Option.some.inj hrow
    cases ht
  | row + 1 => cases hrow

/-- The person is managed. -/
theorem managed_numberedPerson : numberedPerson.Managed 0 := ⟨0, rfl⟩

/-- The person is there, and nothing is deleted before. -/
theorem aliveInTurn_numberedPerson :
    AliveInTurn (fun _ => some "number") numberedPerson [0] := by
  intro pre m post hsplit className row hobject _
  cases pre with
  | nil =>
    obtain ⟨rfl, -⟩ := List.cons.inj hsplit
    obtain ⟨-, rfl⟩ := RLMObject.managed.inj (Option.some.inj hobject)
    refine ⟨Option.some_ne_none _, ?_⟩
    rintro ⟨_, ⟨r, hr, -⟩, -⟩
    cases hr
  | cons _ pre => simp at hsplit

/-- Deleting the person completes. -/
theorem completes_numberedPerson :
    Completes numberedPerson (fun fuel =>
      RealmRepository.delete (.ofSchema (fun _ => some "number") fun _ => 0) fuel 0) :=
  ((delete_completes_iff (fun _ => some "number") (fun _ => 0) rfl linksAlive_numberedPerson).1 0
    managed_numberedPerson).mpr aliveInTurn_numberedPerson

/-- Deleting this person twice in one call does not complete. -/
theorem not_completes_numberedPerson :
    ¬ Completes numberedPerson (fun fuel =>
      RealmRepository.deleteList (.ofSchema (fun _ => some "number") fun _ => 0) fuel [0, 0]) := by
  intro h
  have hmodels : ∀ m ∈ [0, 0], numberedPerson.Managed m := by simpa using managed_numberedPerson
  have halive := (deleteList_completes_iff rfl linksAlive_numberedPerson hmodels).mp h
  -- the second time, the person is gone
  exact (halive [0] 0 [] rfl "Person" 0 rfl rfl).2
    (subset_reachable ⟨0, List.mem_singleton_self 0, rfl⟩)

end QBRepository
