import QBRepository.Realm.Create

namespace QBRepository

/-!
# What `create` loses

If something below a model is stored already, the cascade deletes it.  Then either adding the
model raises, because it leads to a deleted row, or the model is stored already itself, and its
row stays without links.

* `Stage.below_of_unmanaged` — what is below a new model that could be added;
* `Emptied` — a stored model has lost its links for good;
* `Stage.below_of_kept` — both cases, along the list of models;
* `create_keeps_iff` — `create` works for storable models only.
-/

variable {Scalar : Type} {env : RealmEnvironment Scalar} {update : Bool} {className : String}
  {s s' t : Realm Scalar} {models pre : List Ref} {m : Ref}

/-- What belongs to the models done is stored. -/
theorem Stage.not_unmanaged (hs : Request env className s models)
    (h : Stage env update s models t) {r : Ref} (hr : .object r ∈ s.graph models)
    (record : Record Scalar Ref) : t.object r ≠ some (.unmanaged record) := by
  intro hobject
  have hmem : t.image (.object r) ∈ Reachable t.Edge (t.image '' s.vertices models) := by
    rw [← h.adds.reachable_image hs subset_rfl]
    exact Set.mem_image_of_mem _ hr
  obtain ⟨row, hrow⟩ := Realm.reachable_rows (fun a ha => by
    obtain ⟨_, ⟨m, hm, rfl⟩, rfl⟩ := ha
    obtain ⟨className, row, hm'⟩ := (h.managed m hm).object
    exact ⟨row, by rw [h.adds.image_vertexOf (hs.mem_refs hm).1, t.vertexOf_managed hm']⟩) hmem
  rw [Realm.image, t.vertexOf_unmanaged hobject] at hrow
  cases hrow

/-! ### A model that is stored already -/

/-- The row of a model has no links any more, if it still exists. -/
structure Emptied (env : RealmEnvironment Scalar) (s : Realm Scalar) (m : Ref) (row : RowId)
    (t : Realm Scalar) : Prop where
  lt_next : row < t.rows.next
  managed : ∃ className, t.object m = some (.managed className row)
  unmanaged : ∀ r record, t.object r = some (.unmanaged record) →
    s.object r = some (.unmanaged record)
  targets : ∀ record, t.rows.get row = some record → record.targets = []
  key : ∀ record record₀, t.rows.get row = some record → s.record (s.vertexOf m) = some record₀ →
    record.key env.primaryKey = record₀.key env.primaryKey

/-- Deleting more rows does not bring the links back. -/
theorem Emptied.cascade {row : RowId} (h : Emptied env s m row s') {m' : Ref} {fuel : Nat}
    (hcascade : cascadeDeleteSubtypes env fuel m' s' = .returns t) : Emptied env s m row t := by
  obtain ⟨-, hkeeps, hnext, hrows⟩ := cascadeDeleteSubtypes_spec hcascade
  -- what is left of the row has the key it had, and no links
  have hleft : ∀ record, t.rows.get row = some record → ∃ record₁, s'.rows.get row = some record₁ ∧
      record.targets = [] ∧ record.key env.primaryKey = record₁.key env.primaryKey := by
    intro record hrecord
    rw [hrows] at hrecord
    obtain ⟨-, record₁, hget, rfl⟩ := of_without_eq_some hrecord
    refine ⟨record₁, hget, ?_, Record.key_filterMap ..⟩
    rw [Record.targets_filterMap, h.targets record₁ hget, List.filterMap_nil]
  obtain ⟨className, hmanaged⟩ := h.managed
  refine ⟨hnext ▸ h.lt_next, ⟨className, hkeeps.object m _ hmanaged⟩,
    fun r record hr => h.unmanaged r record (hkeeps.unmanaged r record hr), ?_, ?_⟩
  · intro record hrecord
    obtain ⟨_, _, htargets, _⟩ := hleft record hrecord
    exact htargets
  · intro record record₀ hrecord hrecord₀
    obtain ⟨record₁, hget, -, hkey⟩ := hleft record hrecord
    exact hkey.trans (h.key record₁ record₀ hget hrecord₀)

/-- Adding objects of the graph does not bring the links back: no other object has its key. -/
theorem Emptied.adds (hs : Request env className s models) (hm : m ∈ models) {row : RowId}
    (h : Emptied env s m row s') (hadds : Adds env update (s.refs models) s' t) :
    Emptied env s m row t := by
  obtain ⟨className, hmanaged⟩ := h.managed
  -- an object stored in the row would have the key of the model
  have hsame : t.rows.get row = s'.rows.get row := by
    rcases hadds.rows row with hsame | ⟨r, record, hr, hstored⟩
    · exact hsame
    · have hobject := h.unmanaged r record hr
      rcases hstored.origin with hle | ⟨key, hkey, hrowKey⟩
      · exact absurd h.lt_next (Nat.not_lt.mpr hle)
      · obtain ⟨record₁, hget, hkey₁⟩ := Option.bind_eq_some_iff.mp hrowKey
        obtain ⟨record₀, hrecord₀⟩ :=
          Option.ne_none_iff_exists'.mp (hs.record _ (hs.mem_refs hm).2)
        have hne : s.vertexOf m ≠ .object r := by
          intro hvertex
          obtain ⟨rfl, -⟩ := s.object_of_vertexOf_object (hs.mem_refs hm).1 hvertex
          rw [hmanaged] at hr
          cases hr
        have hmem := hstored.mem.2
        rw [s.vertexOf_unmanaged hobject] at hmem
        have hdistinct := hs.distinct _ (hs.mem_refs hm).2 _ hmem hne record₀ _ hrecord₀
          (Request.record_object hobject) key
        rw [Record.key_map, ← h.key record₁ record₀ hget hrecord₀] at hdistinct
        exact absurd hkey (hdistinct hkey₁)
  exact ⟨Nat.lt_of_lt_of_le h.lt_next hadds.next,
    ⟨className, hadds.managed m className row hmanaged⟩,
    fun r record hr => h.unmanaged r record (hadds.unmanaged r record hr),
    fun record hrecord => h.targets record (hsame ▸ hrecord),
    fun record record₀ hrecord => h.key record record₀ (hsame ▸ hrecord)⟩

/-- Deleting the subtypes of a stored model empties it. -/
theorem Adds.emptied (hs : Request env className s models)
    (h : Adds env update (s.refs models) s s') (hm : m ∈ models) {classM : String} {row : RowId}
    (hstored : s'.object m = some (.managed classM row)) {fuel : Nat}
    (hcascade : cascadeDeleteSubtypes env fuel m s' = .returns t) : Emptied env s m row t := by
  obtain ⟨hvalid, hkeeps, hnext, hrows⟩ := cascadeDeleteSubtypes_spec hcascade
  have himage : s'.image (s.vertexOf m) = .row row := by
    rw [h.image_vertexOf (hs.mem_refs hm).1, s'.vertexOf_managed hstored]
  obtain ⟨_, hlive⟩ :=
    Option.ne_none_iff_exists'.mp (Realm.isInvalidated_eq_false.mp hvalid classM row hstored)
  have hrecord := h.record_image hs (hs.mem_refs hm).2
  rw [himage] at hrecord
  -- every target of the row exists, and is below the model
  have hgone : ∀ record, s'.rows.get row = some record → ∀ k ∈ record.targets,
      k ∈ rowsIn (s'.below m) ∧ s'.rows.get k ≠ none := by
    intro record hget k hk
    have hedge : s'.Edge (.row row) (.row k) := s'.edge_row.mpr ⟨record, hget, k, hk, rfl⟩
    refine ⟨subset_reachable ?_, ?_⟩
    · rw [Set.mem_ofPred_eq, s'.vertexOf_managed hstored]
      exact hedge
    · rw [← himage] at hedge
      obtain ⟨b, hb, himage'⟩ := (h.edge_image hs (hs.mem_refs hm).2 _).mp hedge
      have hmem : b ∈ s.graph models := Reachable.tail (hs.mem_refs hm).2 hb
      have hrecordB := h.record_image hs hmem
      rw [himage', Realm.record] at hrecordB
      intro hnone
      rw [hnone, Option.map_none, eq_comm, Option.map_eq_none_iff] at hrecordB
      exact hs.record b hmem hrecordB
  refine ⟨hnext ▸ s'.rows.lt_next_of_get hlive, ⟨classM, hkeeps.object m _ hstored⟩,
    fun r record hr => h.unmanaged r record (hkeeps.unmanaged r record hr), ?_, ?_⟩
  · intro record hget
    rw [hrows] at hget
    obtain ⟨-, record₁, hget₁, rfl⟩ := of_without_eq_some hget
    rw [Record.targets_filterMap, List.filterMap_eq_nil_iff]
    exact fun k hk => if_pos (hgone record₁ hget₁ k hk)
  · intro record record₀ hget hrecord₀
    rw [hrows] at hget
    obtain ⟨-, record₁, hget₁, rfl⟩ := of_without_eq_some hget
    rw [hrecord₀, Realm.record, hget₁, Option.map_some, Option.map_some,
      Option.some.injEq] at hrecord
    have hkey := congrArg (Record.key env.primaryKey) hrecord
    rw [Record.key_map, Record.key_map] at hkey
    rw [Record.key_filterMap, hkey]

/-- A model without its links is not what it has been, unless it had none. -/
theorem Emptied.below_eq (hs : Request env className s models) (hm : m ∈ models) {row : RowId}
    (h : Emptied env s m row t) (hiso : Isomorphic s (s.vertexOf m) t (t.vertexOf m)) :
    s.below m = ∅ := by
  obtain ⟨f, hroot, -, hrecord⟩ := hiso
  obtain ⟨classM, hmanaged⟩ := h.managed
  obtain ⟨record₀, hrecord₀⟩ := Option.ne_none_iff_exists'.mp (hs.record _ (hs.mem_refs hm).2)
  -- the isomorphism takes the links of the model to those of its row
  have hsame := hrecord _ (subset_reachable (Set.mem_singleton _))
  rw [hroot, t.vertexOf_managed hmanaged, hrecord₀, Option.map_some, Realm.record,
    Option.map_eq_some_iff] at hsame
  obtain ⟨record, hget, hmap⟩ := hsame
  have htargets := congrArg Record.targets hmap
  rw [Record.targets_map, Record.targets_map, h.targets record hget, List.map_nil, eq_comm,
    List.map_eq_nil_iff] at htargets
  refine Set.eq_empty_of_forall_notMem ?_
  rintro a ⟨b, hb, -⟩
  have hnone : s.targets (s.vertexOf m) = [] := by
    rw [Realm.targets, hrecord₀]
    exact htargets
  exact List.not_mem_nil (hnone ▸ hb : b ∈ [])

/-- An object that has been added leads to objects that were unmanaged, and have been added too: a
    row would have been deleted by the cascade, and then adding would have raised. -/
theorem Adds.edge_of_added (hs : Request env className s models)
    (h : Adds env update (s.refs models) s s') {c : Realm Scalar} {fuel : Nat}
    (hcascade : cascadeDeleteSubtypes env fuel m s' = .returns c)
    (hadds : Adds env update (s.refs models) c t) {u : Ref} (hu : u ∈ s.refs models)
    {record : Record Scalar Ref} (hobject : s'.object u = some (.unmanaged record))
    (hadded : ∀ record', t.object u ≠ some (.unmanaged record'))
    (hchildren : ∀ b, s'.Edge (.object u) b → b ∈ s'.below m) {b : Vertex}
    (hb : s.Edge (.object u) b) :
    ∃ v record', b = .object v ∧ s'.object v = some (.unmanaged record') ∧ b ∈ s'.below m ∧
      ∀ record'', t.object v ≠ some (.unmanaged record'') := by
  obtain ⟨-, hkeeps, hnext, hrows⟩ := cascadeDeleteSubtypes_spec hcascade
  have hbefore := h.unmanaged u record hobject
  obtain ⟨v, hv, rfl⟩ := (s.edge_object hbefore).mp hb
  rcases hadds.stored u record (hkeeps.object u _ hobject) with hsame | ⟨row, hstored⟩
  · exact absurd hsame (hadded record)
  have hbelow : s'.vertexOf v ∈ s'.below m :=
    hchildren _ ((s'.edge_object hobject).mpr ⟨v, hv, rfl⟩)
  obtain ⟨object, hv'⟩ := Option.ne_none_iff_exists'.mp (s'.heap.closed u record hobject v hv)
  cases object with
  | unmanaged record' =>
    have hvertex := s.vertexOf_unmanaged (h.unmanaged v record' hv')
    rw [s'.vertexOf_unmanaged hv'] at hbelow
    exact ⟨v, record', hvertex, hv', hvertex ▸ hbelow, hstored.promoted v hv⟩
  | managed className' k =>
    have hvmem := Request.target hu hbefore hv
    have hlive := Realm.isInvalidated_eq_false.mp (h.valid hvmem.1 (hs.valid hvmem))
      className' k hv'
    obtain ⟨_, hget⟩ := Option.ne_none_iff_exists'.mp hlive
    rw [s'.vertexOf_managed hv'] at hbelow
    have hgone : c.rows.get k = none := by rw [hrows, without_of_mem hbelow]
    exact absurd hgone (hstored.intact v hv className' k (hkeeps.object v _ hv')
      (hnext ▸ s'.rows.lt_next_of_get hget))

section Models

variable [DecidableEq Scalar]

/-- **A new model that could be added** leads to new objects only. -/
theorem Stage.below_of_unmanaged (hs : Request env className s models)
    (h : Stage env update s pre s') (hpre : ∀ m ∈ pre, m ∈ models) (hm : m ∈ models)
    {recordM : Record Scalar Ref} (hnew : s'.object m = some (.unmanaged recordM)) {fuel : Nat}
    (hcall : addEntityCascading env fuel update m s' = .returns t) :
    ∀ a ∈ s.below m, (∃ r, a = .object r) ∧ a ∉ s.graph pre := by
  obtain ⟨c, hcascade, hadd⟩ := Outcome.bind_eq_returns.mp hcall
  have hkeeps := (cascadeDeleteSubtypes_spec hcascade).2.1
  have hstage := h.adds.mono (s.refs_mono hpre)
  have hadds := addObject_adds fuel (hs.mem_refs hm)
    ((hstage.addable hs.addable).mono hkeeps.unmanaged) (addObject_of_add hadd)
  have hvertexM := s'.vertexOf_unmanaged hnew
  have hobjectM := hstage.unmanaged m recordM hnew
  -- along the links: everything below is unmanaged and has been added
  have hall : ∀ a ∈ s.below m, ∃ r record, a = .object r ∧
      s'.object r = some (.unmanaged record) ∧ a ∈ s'.below m ∧
      ∀ record', t.object r ≠ some (.unmanaged record') := by
    rintro a ⟨b, hb, hba⟩
    induction hba with
    | refl =>
      rw [Set.mem_ofPred_eq, s.vertexOf_unmanaged hobjectM] at hb
      have hchildren : ∀ b, s'.Edge (.object m) b → b ∈ s'.below m := fun b hb =>
        subset_reachable (by rwa [Set.mem_ofPred_eq, hvertexM])
      exact hstage.edge_of_added hs hcascade hadds (hs.mem_refs hm) hnew
        (addObject_promoted (addObject_of_add hadd)) hchildren hb
    | tail hbc hcd ih =>
      obtain ⟨r, record, rfl, hr, hbelow, hadded⟩ := ih
      have hmem := hs.mem_refs_of_object (Realm.below_subset hm ⟨b, hb, hbc⟩)
      exact hstage.edge_of_added hs hcascade hadds hmem hr hadded
        (fun _ hb => Reachable.tail hbelow hb) hcd
  intro a ha
  obtain ⟨r, record, rfl, hr, -, -⟩ := hall a ha
  exact ⟨⟨r, rfl⟩, fun hmem => h.not_unmanaged (hs.mono hpre) hmem record hr⟩

/-! ### The list of models -/

/-- An object that is managed already is not added again. -/
theorem addObject_managed {fuel : Nat} {classM : String} {row : RowId}
    (hstored : s.object m = some (.managed classM row))
    (h : addObject env update fuel m s = .returns t) : s = t := by
  cases fuel with
  | zero => cases h
  | succ fuel =>
    obtain ⟨-, ⟨-, rfl⟩ | ⟨_, _, _, _, hobject, -⟩⟩ := addObject_cases h
    · rfl
    · rw [hstored] at hobject
      cases hobject

/-- The models that follow do not bring the links back. -/
theorem Emptied.run (hs : Request env className s models) (hm : m ∈ models) {row : RowId}
    (h : Emptied env s m row s') {post : List Ref} (hpost : ∀ x ∈ post, x ∈ models) {fuel : Nat}
    (hrun : addCascading env fuel update post s' = .returns t) : Emptied env s m row t := by
  refine Outcome.forEach_invariant (I := fun _ t => Emptied env s m row t) ?_ h hrun
  intro pre x rest s₁ s₂ hsplit h₁ hcall
  obtain ⟨c, hcascade, hadd⟩ := Outcome.bind_eq_returns.mp hcall
  have hc := h₁.cascade hcascade
  have hx : x ∈ s.refs models := hs.mem_refs (hpost x (by simp [hsplit]))
  exact hc.adds hs hm
    (addObject_adds fuel hx (hs.addable.mono hc.unmanaged) (addObject_of_add hadd))

/-- **What has been kept was storable**: what is below a model is its own. -/
theorem Stage.below_of_kept (hs : Request env className s models) {fuel : Nat}
    (hiso : ∀ m ∈ models, Isomorphic s (s.vertexOf m) t (t.vertexOf m)) {post : List Ref}
    (hmodels : models = pre ++ post) (h : Stage env update s pre s')
    (hrun : addCascading env fuel update post s' = .returns t) :
    ∀ pre' m post', post = pre' ++ m :: post' → ∀ a ∈ s.below m,
      (∃ r, a = .object r) ∧ a ∉ s.graph (pre ++ pre') := by
  induction post generalizing pre s' with
  | nil =>
    intro pre' m post' hsplit
    simp at hsplit
  | cons m post ih =>
    obtain ⟨s₁, hcall, hrest⟩ := Outcome.bind_eq_returns.mp hrun
    have hpre : ∀ x ∈ pre, x ∈ models := fun x hx => hmodels ▸ List.mem_append_left _ hx
    have hm : m ∈ models := by simp [hmodels]
    have hbelow : ∀ a ∈ s.below m, (∃ r, a = .object r) ∧ a ∉ s.graph pre := by
      obtain ⟨object, hobject⟩ := Option.ne_none_iff_exists'.mp (h.adds.known (hs.mem_refs hm).1)
      cases object with
      | unmanaged record => exact h.below_of_unmanaged hs hpre hm hobject hcall
      | managed classM row =>
        obtain ⟨c, hcascade, hadd⟩ := Outcome.bind_eq_returns.mp hcall
        have hemptied := (h.adds.mono (s.refs_mono hpre)).emptied hs hm hobject hcascade
        obtain ⟨className', hmanaged⟩ := hemptied.managed
        -- adding the model is a no-op
        obtain rfl := addObject_managed hmanaged (addObject_of_add hadd)
        have hend := hemptied.run hs hm (fun x hx => by simp [hmodels, hx]) hrest
        rw [hend.below_eq hs hm (hiso m hm)]
        exact fun a ha => ha.elim
    -- the call has stored the model, so the induction goes on with it
    have hstage := h.step hs hmodels hbelow hcall
    intro pre' m' post' hsplit
    cases pre' with
    | nil =>
      obtain ⟨rfl, rfl⟩ := List.cons.inj hsplit
      rw [List.append_nil]
      exact hbelow
    | cons x pre' =>
      obtain ⟨rfl, hsplit'⟩ := List.cons.inj hsplit
      have hrest' := ih (by rw [hmodels, List.append_assoc, List.singleton_append]) hstage hrest
        pre' m' post' hsplit'
      rwa [List.append_assoc, List.singleton_append] at hrest'

end Models

/-! ### The repository -/

/-- In a transaction of its own, a request stays what it is. -/
theorem Request.beginWrite (hs : Request env className s models) :
    Request env className { s with inWriteTransaction := true } models :=
  ⟨hs.ofClass, hs.record, hs.acyclic, hs.distinct⟩

section Transaction

variable [DecidableEq Scalar] {repo : RealmRepository} {Result : Type} {result : Result}

/-- Storable models are kept. -/
theorem Storable.keepsGraphs (hash : ∀ s r, s.isInvalidated r = false → env.hash s r = true)
    (hs : Request env repo.className s models) (h : Storable env repo s models) :
    KeepsGraphs s models (fun fuel => do
      let s ← write (addCascading env fuel (repo.isIdentifiable env) models) s
      return (result, s)) result := by
  obtain ⟨t, hconverges, hstage⟩ :=
    addCascading_converges hash hs.beginWrite h.below h.unstored
  exact ⟨_, (write_converges h.idle hconverges).bind (.const _), fun m hm =>
    ⟨hstage.managed m hm, hstage.adds.isomorphic hs.beginWrite hm⟩⟩

/-- Models that are kept were storable. -/
theorem KeepsGraphs.storable (hs : Request env repo.className s models)
    (h : KeepsGraphs s models (fun fuel => do
      let s ← write (addCascading env fuel (repo.isIdentifiable env) models) s
      return (result, s)) result) : Storable env repo s models := by
  obtain ⟨t, ⟨n, hn⟩, hkept⟩ := h
  obtain ⟨t', hwrite, hresult⟩ := Outcome.bind_eq_returns.mp (hn n le_rfl)
  obtain ⟨-, rfl⟩ := Prod.mk.inj (Outcome.returns.inj hresult)
  obtain ⟨hidle, t, hrun, rfl⟩ := of_write_eq_returns hwrite
  have hs' := hs.beginWrite
  -- every model is kept, so what is below it was its own
  have hown : OwnsBelow { s with inWriteTransaction := true } models := by
    have hiso : ∀ m ∈ models, Isomorphic { s with inWriteTransaction := true } (s.vertexOf m)
        t (t.vertexOf m) := fun m hm => (hkept m hm).2
    exact (Stage.start env (repo.isIdentifiable env) _).below_of_kept hs' hiso
      (List.nil_append models).symm hrun
  refine ⟨hidle, hown, fun hupdate r record hr hobject => ?_⟩
  have hstage := addCascading_stage hs' hown hrun
  rcases hstage.adds.stored r record hobject with hsame | ⟨row, hstored⟩
  · exact absurd hsame (hstage.not_unmanaged hs' hr record)
  · exact hstored.unstored hupdate

end Transaction

/-- Object 1 is a new person; the friend is object 0, which leads to nothing. -/
def newPerson (rows : FreshMap (Record Nat RowId)) (friend : RLMObject Nat)
    (hfriend : ∀ record, friend = .unmanaged record → record.targets = []) : Realm Nat where
  rows := rows
  heap :=
    { objects := (FreshMap.empty.alloc friend).alloc
        (.unmanaged ⟨"Person", [("friend", .object (some 0))]⟩)
      closed := by
        intro r record hr t ht
        match r with
        | 0 =>
          obtain rfl : friend = .unmanaged record := Option.some.inj hr
          rw [hfriend record rfl] at ht
          cases ht
        | 1 =>
          obtain rfl := RLMObject.unmanaged.inj (Option.some.inj hr)
          obtain rfl : t = 0 := List.mem_singleton.mp ht
          exact Option.some_ne_none friend
        | r + 2 => cases hr }
  inWriteTransaction := false
  picks := 0

section NewPerson

variable {rows : FreshMap (Record Nat RowId)} {friend : RLMObject Nat}
  {hfriend : ∀ record, friend = .unmanaged record → record.targets = []}

/-- The person leads to the friend only. -/
theorem edge_newPerson {b : Vertex} : (newPerson rows friend hfriend).Edge (.object 1) b ↔
    b = (newPerson rows friend hfriend).vertexOf 0 := by
  have hobject : (newPerson rows friend hfriend).object 1
      = some (.unmanaged ⟨"Person", [("friend", .object (some 0))]⟩) := rfl
  rw [Realm.edge_object _ hobject]
  show (∃ t ∈ [0], _) ↔ _
  simp [eq_comm]

/-- The graph of the new person is the person and the friend. -/
theorem graph_newPerson (hend : ∀ b,
    ¬ (newPerson rows friend hfriend).Edge ((newPerson rows friend hfriend).vertexOf 0) b)
    {a : Vertex} (ha : a ∈ (newPerson rows friend hfriend).graph [1]) :
    a = .object 1 ∨ a = (newPerson rows friend hfriend).vertexOf 0 := by
  have hsub : (newPerson rows friend hfriend).graph [1]
      ⊆ {.object 1, (newPerson rows friend hfriend).vertexOf 0} := by
    refine Reachable.subset_of_closed ?_ ?_
    · rintro _ ⟨m, hm, rfl⟩
      obtain rfl := List.mem_singleton.mp hm
      exact Or.inl rfl
    · rintro b (rfl | rfl) c hbc
      · exact Or.inr (edge_newPerson.mp hbc)
      · exact absurd hbc (hend c)
  exact hsub ha

/-- The person may be created, if the friend exists. -/
theorem request_newPerson (hend : ∀ b,
    ¬ (newPerson rows friend hfriend).Edge ((newPerson rows friend hfriend).vertexOf 0) b)
    (hrecord : (newPerson rows friend hfriend).record ((newPerson rows friend hfriend).vertexOf 0)
      ≠ none) : Request unkeyed "Person" (newPerson rows friend hfriend) [1] where
  ofClass m hm := by
    obtain rfl := List.mem_singleton.mp hm
    rfl
  record a ha := by
    rcases graph_newPerson hend ha with rfl | rfl
    · exact Option.some_ne_none _
    · exact hrecord
  acyclic r hr hcycle := by
    obtain ⟨b, hb, hback⟩ := Relation.TransGen.head'_iff.mp hcycle
    rcases graph_newPerson hend hr with hself | hself
    · -- from the person to the friend, and not back
      rw [hself] at hb hback
      obtain rfl := edge_newPerson.mp hb
      rcases hback.cases_head with hsame | ⟨c, hc, -⟩
      · cases friend <;> cases hsame
      · exact hend c hc
    · exact hend b (hself ▸ hb)
  distinct _ _ _ _ _ _ _ _ _ _ hkey := by cases hkey

end NewPerson

/-- A new friend is stored together with the person. -/
def newFriend : Realm Nat :=
  newPerson .empty (.unmanaged ⟨"Person", []⟩) fun _ h => by cases h; rfl

/-- A friend that is stored already, as row 0. -/
def storedFriend : Realm Nat :=
  newPerson (FreshMap.empty.alloc ⟨"Person", []⟩) (.managed "Person" 0) fun _ h => by cases h

example : RealmRepository.createAll ⟨"Person"⟩ unkeyed 5 [1] storedFriend = .raises := rfl

end QBRepository
