import QBRepository.CoreData.Elements
import QBRepository.FileSystem.Elements

namespace QBRepository

/-!
# Selections, whoever filters and sorts

A store that filters and sorts by itself selects what filtering and sorting in memory does, as
long as the two forms of the predicates agree and the store sorts by the string of the key path
as `<` does.

* `KeepsFirsts` — what a step that makes elements distinct may do;
* `Selection.of_steps` — a selection from its three steps;
* `Selection.perm` — selections without a distinct key are the same but for the order of equals;
* `CoreDataRepository.getElements_selection` — what a context returns is a selection of the
  visible objects;
* `getElements_agree` — a context and a directory with the same models return the same.
-/

variable {Object Model T U : Type} {α : Type}

/-- Of each value one object is kept, one that no other object with the value precedes. -/
structure KeepsFirsts (same : α → α → Bool) (objects result : List α) : Prop where
  subperm : result.Subperm objects
  different : result.Pairwise fun a b => same a b = false
  first : ∀ le : α → α → Prop, (∀ a, le a a) → objects.Pairwise le →
    ∀ a ∈ result, ∀ b ∈ objects, same b a = true → le a b

/-- The first objects of the groups of a dictionary are such. -/
theorem keepsFirsts_distinctUsing [HashableValue U] (order : Enumeration (Int × List α))
    (key : α → U) (objects : List α) :
    KeepsFirsts (fun a b => key a == key b) objects
      (distinctUsing order (some fun a => hashValue (key a)) objects) where
  subperm := distinctUsing_subperm order _ objects
  different := by
    refine (List.pairwise_map.mp nodup_map_firsts).imp fun {a b} hab => ?_
    exact Bool.eq_false_iff.mpr fun heq => hab (HashableValue.hashValue_eq _ _ heq)
  first le hrefl hobjects a ha b hb hsame :=
    firsts_le le hrefl hobjects ha hb (HashableValue.hashValue_eq _ _ hsame)

namespace Selection

variable [Comparable T] [HashableValue U] {filter : Option (Query Object Model)}
  {sortKeyPath : Option (KeyPath Model T)} {distinctKeyPath : Option (KeyPath Model U)}

/-- Objects that are filtered by their models, sorted and made distinct are a selection. -/
theorem of_steps {stored sorted result : List α} (model : α → Model)
    (hperm : sorted.Perm (stored.filter fun a => satisfies filter (model a)))
    (hascending : ∀ sortKey ∈ sortKeyPath, sorted.Pairwise fun a b =>
      Comparable.lt (sortKey.get (model b)) (sortKey.get (model a)) = false)
    (hall : distinctKeyPath = none → result = sorted)
    (hfirsts : ∀ distinctKey ∈ distinctKeyPath,
      KeepsFirsts (fun a b => distinctKey.get (model a) == distinctKey.get (model b)) sorted result)
    (hT : Comparable.Weak T) :
    Selection (stored.map model) filter sortKeyPath distinctKeyPath (result.map model) := by
  have hselected : (stored.map model).filter (satisfies filter)
      = (stored.filter fun a => satisfies filter (model a)).map model := List.filter_map
  have hsub : result.Subperm sorted := by
    cases hkey : distinctKeyPath with
    | none =>
      exact (List.Perm.of_eq (hall hkey)).subperm
    | some distinctKey => exact (hfirsts distinctKey hkey).subperm
  refine ⟨?_, ?_, ?_, ?_, ?_, ?_⟩
  · obtain ⟨kept, hkept, hstored⟩ :=
      (hsub.trans hperm.subperm).trans List.filter_sublist.subperm
    exact ⟨kept.map model, hkept.map model, hstored.map model⟩
  · intro m hm
    obtain ⟨a, ha, rfl⟩ := List.mem_map.mp hm
    exact (List.mem_filter.mp (hperm.mem_iff.mp (hsub.subset ha))).2
  · intro distinctKey hkey
    exact List.pairwise_map.mpr (hfirsts distinctKey hkey).different
  · intro distinctKey hkey sortKey hsortKey m hm other hother heq
    obtain ⟨a, ha, rfl⟩ := List.mem_map.mp hm
    rw [hselected] at hother
    obtain ⟨b, hb, rfl⟩ := List.mem_map.mp hother
    refine (hfirsts distinctKey hkey).first _ (fun a => ?_) (hascending sortKey hsortKey) a ha b
      (hperm.mem_iff.mpr hb) heq
    exact Bool.eq_false_iff.mpr (hT.toIrrefl.irrefl _)
  · intro hkey
    rw [hselected, hall hkey]
    exact hperm.map model
  · intro hkey sortKey hsortKey
    rw [hall hkey]
    exact List.pairwise_map.mpr (hascending sortKey hsortKey)

/-- Without a distinct key, two selections of the same models have the same elements. -/
theorem perm {stored stored' result result' : List Model} (hstored : stored.Perm stored')
    (h : Selection stored filter sortKeyPath (none : Option (KeyPath Model U)) result)
    (h' : Selection stored' filter sortKeyPath (none : Option (KeyPath Model U)) result') :
    result.Perm result' :=
  (h.all rfl).trans ((hstored.filter _).trans (h'.all rfl).symm)

/-- If the sort key tells the models apart, they also come in the same order. -/
theorem eq_of_total {stored stored' result result' : List Model} {sortKey : KeyPath Model T}
    (hstored : stored.Perm stored')
    (h : Selection stored filter (some sortKey) (none : Option (KeyPath Model U)) result)
    (h' : Selection stored' filter (some sortKey) (none : Option (KeyPath Model U)) result')
    (htotal : ∀ a ∈ stored, ∀ b ∈ stored, Comparable.lt (sortKey.get a) (sortKey.get b) = false →
      Comparable.lt (sortKey.get b) (sortKey.get a) = false → a = b) : result = result' := by
  have hperm := perm hstored h h'
  refine List.Perm.eq_of_pairwise ?_ (h.ascending rfl sortKey rfl) (h'.ascending rfl sortKey rfl)
    hperm
  intro a b ha hb hab hba
  exact htotal a (h.subperm.subset ha) b (h.subperm.subset (hperm.mem_iff.mpr hb)) hba hab

end Selection

/-! ### A context -/

namespace CoreDataRepository

variable {Entity : Type} (stack : CoreDataStack Entity) (S : SortingStore Object Entity)
  (sorting : Sorting (ObjectID × Entity)) (order : Enumeration (Int × List (ObjectID × Entity)))

/-- The values of the visible objects, in the order of their creation. -/
def visibleEntities (ctx : Context Entity) : List Entity := ctx.elements.map Prod.snd

/-- The store selects the visible objects on which the filter holds in memory. -/
theorem selected_eq_filter {filter : Option (Query Object Entity)} {ctx : Context Entity}
    {sortKeyPath : Option (ComparableKeyPath Entity)} {request : FetchRequest Object}
    (hagrees : ∀ query ∈ filter, ∀ p ∈ query.predicates, ∀ entity ∈ visibleEntities ctx,
      p.Agrees S.toStore entity)
    (hrequest : makeRequest filter sortKeyPath = some request) :
    selected S request.predicate ctx
      = ctx.elements.filter fun object => satisfies filter object.2 := by
  obtain ⟨hpredicate, -⟩ := makeRequest_eq_some.mp hrequest
  cases filter with
  | none =>
    have hnone : request.predicate = none := (Option.some.inj hpredicate).symm
    rw [selected, hnone]
    exact (List.filter_eq_self.mpr fun _ _ => rfl).symm
  | some query =>
    simp only [Option.mapM_some, Option.map_eq_map, Option.map_eq_some_iff] at hpredicate
    obtain ⟨predicate, hcreate, hpredicate⟩ := hpredicate
    rw [← hpredicate]
    show ctx.elements.filter (fun object => S.holds object.2 predicate) = _
    refine List.filter_congr fun object hobject => ?_
    -- the two forms of the query agree on this object
    have hquery : ∀ p ∈ query.predicates, p.Agrees S.toStore object.2 := fun p hp =>
      hagrees query rfl p hp object.2 (List.mem_map_of_mem hobject)
    obtain ⟨np, hnp, hholds⟩ := Query.agrees hquery
    obtain rfl := Option.some.inj (hnp.symm.trans hcreate)
    rw [hholds, Query.evaluate_eq_all]
    rfl

variable [Comparable T] [HashableValue U] {stack} {filter : Option (Query Object Entity)}
  {sortKeyPath : Option (KeyPath Entity T)} {distinctKeyPath : Option (KeyPath Entity U)}
  {ctx ctx' : Context Entity} {results : List (ObjectID × Entity)}

/-- What a context returns for a filter, a sort key and a distinct key, if the fetch succeeds. -/
theorem selection_of_getElements (hT : Comparable.Weak T)
    (hagrees : ∀ query ∈ filter, ∀ p ∈ query.predicates, ∀ entity ∈ visibleEntities ctx,
      p.Agrees S.toStore entity)
    (hsort : ∀ sortKey ∈ sortKeyPath, (ComparableKeyPath.ofKeyPath sortKey).SortsIn S)
    (hfault : stack.fault ctx.calls = none)
    (h : getElements stack S sorting order filter (sortKeyPath.map .ofKeyPath)
      (distinctKeyPath.map .ofKeyPath) ctx = some (results, ctx')) :
    Selection (visibleEntities ctx) filter sortKeyPath distinctKeyPath (results.map Prod.snd) := by
  cases hrequest : makeRequest filter (sortKeyPath.map .ofKeyPath) with
  | none =>
    rw [getElements, hrequest] at h
    exact absurd h.symm (Option.some_ne_none _)
  | some request =>
    rw [getElements_of_fetch S sorting order hrequest _ hfault] at h
    obtain ⟨rfl, -⟩ := Prod.mk.inj (Option.some.inj h)
    have hselected := selected_eq_filter S hagrees hrequest
    have hperm : (request.results S sorting ctx).Perm
        (ctx.elements.filter fun object => satisfies filter object.2) := by
      rw [← hselected]
      exact sortedBy_perm sorting _ _
    refine Selection.of_steps Prod.snd hperm ?_ ?_ ?_ hT
    · intro sortKey hkey
      obtain rfl : sortKeyPath = some sortKey := hkey
      rw [results_of_sortsIn S sorting hrequest (hsort sortKey rfl)]
      exact sorting.ascending _ _ (ComparableKeyPath.isStrictWeakOrder hT
        (⟨fun object => sortKey.get object.2, none⟩ : KeyPath (ObjectID × Entity) T))
    · intro hkey
      rw [hkey]
      rfl
    · intro distinctKey hkey
      obtain rfl : distinctKeyPath = some distinctKey := hkey
      exact keepsFirsts_distinctUsing order (fun object => distinctKey.get object.2) _

/-- **What a context returns is a selection of its visible objects**, though the store filters and
    sorts by itself; nothing, if the fetch fails. -/
theorem getElements_selectsVisible (hT : Comparable.Weak T)
    (hagrees : ∀ query ∈ filter, ∀ p ∈ query.predicates, ∀ entity ∈ visibleEntities ctx,
      p.Agrees S.toStore entity)
    (hsort : ∀ sortKey ∈ sortKeyPath, (ComparableKeyPath.ofKeyPath sortKey).SortsIn S)
    (h : getElements stack S sorting order filter (sortKeyPath.map .ofKeyPath)
      (distinctKeyPath.map .ofKeyPath) ctx = some (results, ctx')) :
    ctx' = ctx.tick ∧ if stack.fault ctx.calls = none then
      Selection (visibleEntities ctx) filter sortKeyPath distinctKeyPath (results.map Prod.snd)
    else results = [] := by
  obtain ⟨request, hrequest, -⟩ := Option.bind_eq_some_iff.mp h
  cases hfault : stack.fault ctx.calls with
  | none =>
    refine ⟨?_, ?_⟩
    · rw [getElements_of_fetch S sorting order hrequest _ hfault] at h
      exact (Prod.mk.inj (Option.some.inj h)).2.symm
    · rw [if_pos rfl]
      exact selection_of_getElements S sorting order hT hagrees hsort hfault h
  | some code =>
    rw [getElements_of_fault S sorting order hrequest _ hfault] at h
    obtain ⟨rfl, rfl⟩ := Prod.mk.inj (Option.some.inj h)
    exact ⟨rfl, by rw [if_neg (Option.some_ne_none code)]⟩

end CoreDataRepository

/-! ### A context and a directory -/

section Agree

variable {Id Data : Type} [Comparable T] [HashableValue U]

/-- What a directory returns is a selection, again from its three steps. -/
theorem FileSystemRepository.selection_of_run (hT : Comparable.Weak T)
    (repo : FileSystemRepository Model Data) (env : Environment Id) (sorting : Sorting Model)
    (order : Enumeration (Int × List Model)) (filter : Option (Query Object Model))
    (sortKeyPath : Option (KeyPath Model T)) (distinctKeyPath : Option (KeyPath Model U))
    (fm : FileManager Data) :
    Selection (repo.stored env fm) filter sortKeyPath distinctKeyPath
      ((repo.getElements env sorting order filter (sortKeyPath.map .ofKeyPath)
        (distinctKeyPath.map .ofKeyPath)).run fm).1 := by
  have hperm : (sortedBy sorting ((sortKeyPath.map ComparableKeyPath.ofKeyPath).map
      ComparableKeyPath.isSmaller) (repo.selected env filter fm)).Perm
        ((repo.stored env fm).filter fun model => satisfies filter (id model)) := by
    rw [repo.selected_eq_filter]
    exact sortedBy_perm sorting _ _
  rw [run_getElements]
  generalize hresult : distinctUsing order _ _ = result
  have hselection : Selection ((repo.stored env fm).map id) filter sortKeyPath distinctKeyPath
      (result.map id) := by
    refine Selection.of_steps id hperm ?_ ?_ ?_ hT
    · intro sortKey hkey
      obtain rfl : sortKeyPath = some sortKey := hkey
      exact sorting.ascending _ _ (ComparableKeyPath.isStrictWeakOrder hT sortKey)
    · intro hkey
      rw [← hresult, hkey]
      rfl
    · intro distinctKey hkey
      obtain rfl : distinctKeyPath = some distinctKey := hkey
      rw [← hresult]
      exact keepsFirsts_distinctUsing order distinctKey.get _
  rwa [List.map_id, List.map_id] at hselection

/-- **A context and a directory that hold the same models return the same**, whatever they filter
    and sort by, but for the order of models that the sort key does not tell apart. -/
theorem getElements_agree (hT : Comparable.Weak T) (repo : FileSystemRepository Model Data)
    (env : Environment Id) (sorting : Sorting Model) (order : Enumeration (Int × List Model))
    (stack : CoreDataStack Model) (S : SortingStore Object Model)
    (sorting' : Sorting (ObjectID × Model)) (order' : Enumeration (Int × List (ObjectID × Model)))
    {filter : Option (Query Object Model)} {sortKeyPath : Option (KeyPath Model T)}
    {fm : FileManager Data} {ctx ctx' : Context Model} {results : List (ObjectID × Model)}
    (hagrees : ∀ query ∈ filter, ∀ p ∈ query.predicates,
      ∀ model ∈ CoreDataRepository.visibleEntities ctx, p.Agrees S.toStore model)
    (hsort : ∀ sortKey ∈ sortKeyPath, (ComparableKeyPath.ofKeyPath sortKey).SortsIn S)
    (hfault : stack.fault ctx.calls = none)
    (hstored : (repo.stored env fm).Perm (CoreDataRepository.visibleEntities ctx))
    (h : CoreDataRepository.getElements stack S sorting' order' filter
      (sortKeyPath.map .ofKeyPath) none ctx = some (results, ctx')) :
    (((repo.getElements env sorting order filter (sortKeyPath.map .ofKeyPath) none).run
      fm).1).Perm (results.map Prod.snd) ∧
    ∀ sortKey ∈ sortKeyPath,
      (∀ a ∈ repo.stored env fm, ∀ b ∈ repo.stored env fm,
        Comparable.lt (sortKey.get a) (sortKey.get b) = false →
        Comparable.lt (sortKey.get b) (sortKey.get a) = false → a = b) →
      ((repo.getElements env sorting order filter (sortKeyPath.map .ofKeyPath) none).run fm).1
        = results.map Prod.snd := by
  have hdirectory := FileSystemRepository.selection_of_run hT repo env sorting order filter
    sortKeyPath (none : Option (KeyPath Model Nat)) fm
  have hcontext : Selection (CoreDataRepository.visibleEntities ctx) filter sortKeyPath
      (none : Option (KeyPath Model Nat)) (results.map Prod.snd) :=
    CoreDataRepository.selection_of_getElements S sorting' order' hT hagrees hsort hfault h
  refine ⟨Selection.perm hstored hdirectory hcontext, fun sortKey hkey htotal => ?_⟩
  obtain rfl : sortKeyPath = some sortKey := hkey
  exact Selection.eq_of_total hstored hdirectory hcontext htotal

end Agree

/-! ### The team in a context -/

namespace Sample

/-- A context of employees. -/
def staff : CoreDataStack Employee where
  defaults := ⟨0, 0⟩
  validate _ := none
  fault _ := none

/-- A store of employees. -/
def employeeStore : SortingStore Int Employee where
  valueForKeyPath employee key :=
    if key = "age" then .object employee.age
    else if key = "number" then .object employee.number
    else .nsNull
  equal a b := decide (a = b)
  less a b := decide (a < b)
  like _ _ := false
  containsCD _ _ := false
  precedes key a b :=
    if key = "age" then decide (a.age < b.age)
    else if key = "number" then decide (a.number < b.number)
    else false

/-- The employees that are not of age twenty. -/
def notTwenty : Query Int Employee :=
  .ofPredicate (.not ⟨some (.equalTo "age" (.object 20)), fun employee => employee.age == 20⟩)

/-- The context with the two employees of the team. -/
def teamContext (age age' : Nat) : Context Employee :=
  CoreDataRepository.run staff ⟨.empty, 0⟩
    [.makeEntity, .edit 0 fun _ => ⟨1, age⟩, .makeEntity, .edit 1 fun _ => ⟨2, age'⟩]

/-- The two forms of the query agree on the employees of the team. -/
theorem notTwenty_agrees (age age' : Nat) : ∀ query ∈ some notTwenty, ∀ p ∈ query.predicates,
    ∀ model ∈ CoreDataRepository.visibleEntities (teamContext age age'),
      p.Agrees employeeStore.toStore model := by
  intro query hquery p hp model _
  obtain rfl := Option.some.inj hquery
  obtain rfl := List.mem_singleton.mp hp
  refine AnyPredicate.Agrees.not (congrArg some ?_)
  show decide ((model.age : Int) = 20) = (model.age == 20)
  rw [Bool.eq_iff_iff, decide_eq_true_iff, beq_iff_eq]
  omega

/-- The store sorts by age as the key path does. -/
theorem employeeAge_sortsIn : ∀ sortKey ∈ some employeeAge,
    (ComparableKeyPath.ofKeyPath sortKey).SortsIn employeeStore := by
  intro sortKey hkey key hstring
  obtain rfl := Option.some.inj hkey
  obtain rfl := Option.some.inj hstring
  rfl

end Sample

section Team

open Sample

/-- Of the team, the employee of thirty is fetched. -/
theorem getElements_teamContext (distinctKeyPath : Option (KeyPath Employee Nat)) :
    CoreDataRepository.getElements staff employeeStore (.merge _) (.keyFirst 1) (some notTwenty)
        (some (.ofKeyPath employeeAge)) (distinctKeyPath.map .ofKeyPath) (teamContext 30 20)
      = some ([(0, ⟨1, 30⟩)], (teamContext 30 20).tick) := by
  have hrequest : CoreDataRepository.makeRequest (some notTwenty) (some (.ofKeyPath employeeAge))
      = some ⟨some (.and [.not (.equalTo "age" (.object 20))]), some "age"⟩ := rfl
  rw [CoreDataRepository.getElements_of_fetch employeeStore (.merge _) (.keyFirst 1) hrequest _ rfl]
  have hselected : CoreDataRepository.selected employeeStore
      (some (.and [.not (.equalTo "age" (.object 20))])) (teamContext 30 20) = [(0, ⟨1, 30⟩)] := rfl
  rw [FetchRequest.results, hselected]
  have hsorted : sortedBy (.merge _) ((some "age").map fun key (a b : ObjectID × Employee) =>
      employeeStore.precedes key a.2 b.2) [(0, ⟨1, 30⟩)] = [(0, ⟨1, 30⟩)] :=
    List.mergeSort_singleton _
  show some (distinctUsing _ _ (sortedBy _ _ _), _) = _
  rw [hsorted]
  cases distinctKeyPath with
  | none => rfl
  | some distinctKey =>
    have hkeep : firsts (.keyFirst 1) (fun object => hashValue (distinctKey.get object.2))
        [((0, ⟨1, 30⟩) : ObjectID × Employee)] = [(0, ⟨1, 30⟩)] := by
      by_cases hone : hashValue (distinctKey.get ⟨1, 30⟩) = 1
      · simp [firsts, grouping, Enumeration.keyFirst, hone]
      · simp [firsts, grouping, Enumeration.keyFirst, hone]
    exact congrArg (fun results => some (results, (teamContext 30 20).tick)) hkeep

/-- For the team, whose fetch does not fail. -/
theorem selectsVisible_team : (teamContext 30 20).tick = (teamContext 30 20).tick ∧
    if staff.fault (teamContext 30 20).calls = none then
      Selection (CoreDataRepository.visibleEntities (teamContext 30 20)) (some notTwenty)
        (some employeeAge) (some employeeNumber)
        (([(0, ⟨1, 30⟩)] : List (ObjectID × Employee)).map Prod.snd)
    else ([(0, ⟨1, 30⟩)] : List (ObjectID × Employee)) = [] :=
  CoreDataRepository.getElements_selectsVisible employeeStore (.merge _) (.keyFirst 1) weak_nat
    (notTwenty_agrees 30 20) employeeAge_sortsIn (getElements_teamContext (some employeeNumber))

/-- The directory of the team returns the same. -/
theorem agree_team :
    ((((employees.getElements (process Int.ofNat) (.merge _) (.keyFirst 1) (some notTwenty)
      (some (.ofKeyPath employeeAge)) none).run (team 30 20)).1).Perm
        (([(0, ⟨1, 30⟩)] : List (ObjectID × Employee)).map Prod.snd)) ∧
    ∀ sortKey ∈ some employeeAge,
      (∀ a ∈ employees.stored (process Int.ofNat) (team 30 20),
        ∀ b ∈ employees.stored (process Int.ofNat) (team 30 20),
        Comparable.lt (sortKey.get a) (sortKey.get b) = false →
        Comparable.lt (sortKey.get b) (sortKey.get a) = false → a = b) →
      ((employees.getElements (process Int.ofNat) (.merge _) (.keyFirst 1) (some notTwenty)
        (some (.ofKeyPath employeeAge)) none).run (team 30 20)).1
          = ([(0, ⟨1, 30⟩)] : List (ObjectID × Employee)).map Prod.snd :=
  getElements_agree weak_nat employees (process Int.ofNat) (.merge _) (.keyFirst 1) staff
    employeeStore (.merge _) (.keyFirst 1) (notTwenty_agrees 30 20) employeeAge_sortsIn rfl
    (by decide) (getElements_teamContext none)

end Team

end QBRepository
