import QBRepository.CoreData.Elements
import QBRepository.CoreData.Success
import QBRepository.FileSystem.Elements

namespace QBRepository

/-!
# Distinct elements of both repositories

Both repositories sort first and then list the groups of a dictionary, whose keys are hash
values and whose order is open.

* `getElements_ascending_iff` — sorted results stay sorted in every such order exactly when the
  groups are level;
* `getElements_keeps_iff` — no value of the distinct key is lost exactly when the hash values
  tell the values apart.
-/

/-- The models are in ascending order of the sort key. -/
def Ascending {Model T : Type} [Comparable T] (sortKey : KeyPath Model T)
    (models : List Model) : Prop :=
  models.Pairwise fun a b => Comparable.lt (sortKey.get b) (sortKey.get a) = false

open CoreDataRepository (getElements makeRequest selected getElements_of_fault getElements_of_fetch
  results_of_sortsIn)

section Keys

variable {Object Model Id Data Entity T U : Type} [Comparable T] [HashableValue U]

/-- **A sorted, distinct query is ascending in every order of the groups** exactly when the
    groups of the selected models are level. -/
theorem getElements_ascending_iff (hT : Comparable.Weak T) :
    (∀ (repo : FileSystemRepository Model Data) (env : Environment Id) (sorting : Sorting Model)
        (filter : Option (Query Object Model)) (sortKey : KeyPath Model T)
        (distinctKey : KeyPath Model U) (fm : FileManager Data),
      (∀ order, Ascending sortKey ((repo.getElements env sorting order filter
          (some (.ofKeyPath sortKey)) (some (.ofKeyPath distinctKey))).run fm).1) ↔
        LevelGroups (fun model => hashValue (distinctKey.get model))
          (fun a b => Comparable.lt (sortKey.get a) (sortKey.get b))
          (repo.selected env filter fm)) ∧
    ∀ (stack : CoreDataStack Entity) (S : SortingStore Object Entity)
        (sorting : Sorting (ObjectID × Entity)) (filter : Option (Query Object Entity))
        (sortKey : KeyPath Entity T) (distinctKey : KeyPath Entity U)
        (request : FetchRequest Object) (ctx : Context Entity),
      makeRequest filter (some (.ofKeyPath sortKey)) = some request →
      (ComparableKeyPath.ofKeyPath sortKey).SortsIn S →
      ((∀ order results ctx', getElements stack S sorting order filter
          (some (.ofKeyPath sortKey)) (some (.ofKeyPath distinctKey)) ctx = some (results, ctx') →
          Ascending sortKey (results.map Prod.snd)) ↔
        (stack.fault ctx.calls = none →
          LevelGroups (fun object => hashValue (distinctKey.get object.2))
            (fun a b => Comparable.lt (sortKey.get a.2) (sortKey.get b.2))
            (selected S request.predicate ctx))) := by
  refine ⟨fun repo env sorting filter sortKey distinctKey fm => ?_,
    fun stack S sorting filter sortKey distinctKey request ctx hrequest hsort => ?_⟩
  · exact distinctUsing_ascending_iff (ComparableKeyPath.isStrictWeakOrder hT sortKey) _
  · have hsmaller : IsStrictWeakOrder (ObjectID × Entity) fun a b =>
        (ComparableKeyPath.ofKeyPath sortKey).isSmaller a.2 b.2 = true :=
      ComparableKeyPath.isStrictWeakOrder hT
        (⟨fun object => sortKey.get object.2, none⟩ : KeyPath (ObjectID × Entity) T)
    have hlevel : (∀ order, (distinctUsing order
          (some fun object => hashValue (distinctKey.get object.2))
          (request.results S sorting ctx)).Pairwise _) ↔ _ :=
      results_of_sortsIn S sorting hrequest hsort ▸ distinctUsing_ascending_iff hsmaller _
    cases hfault : stack.fault ctx.calls with
    | some code =>
      refine iff_of_true ?_ fun h => absurd h (Option.some_ne_none code)
      intro order results ctx' heq
      rw [getElements_of_fault S sorting order hrequest _ hfault] at heq
      obtain ⟨rfl, -⟩ := Prod.mk.inj (Option.some.inj heq)
      exact List.Pairwise.nil
    | none =>
      constructor
      · intro h _
        exact hlevel.mp fun order => List.pairwise_map.mp
          (h order _ _ (getElements_of_fetch S sorting order hrequest _ hfault))
      · intro h order results ctx' heq
        rw [getElements_of_fetch S sorting order hrequest _ hfault] at heq
        obtain ⟨rfl, -⟩ := Prod.mk.inj (Option.some.inj heq)
        exact List.pairwise_map.mpr (hlevel.mpr (h rfl) order)

/-- **A distinct query loses no value** exactly when the hash values tell the values of the
    selected models apart and, in a context, the fetch succeeds. -/
theorem getElements_keeps_iff :
    (∀ (repo : FileSystemRepository Model Data) (env : Environment Id) (sorting : Sorting Model)
        (order : Enumeration (Int × List Model)) (filter : Option (Query Object Model))
        (sortKeyPath : Option (ComparableKeyPath Model)) (distinctKey : KeyPath Model U)
        (fm : FileManager Data),
      KeepsValues distinctKey.get (repo.selected env filter fm)
          ((repo.getElements env sorting order filter sortKeyPath
            (some (.ofKeyPath distinctKey))).run fm).1 ↔
        SeparatesValues distinctKey.get (repo.selected env filter fm)) ∧
    ∀ (stack : CoreDataStack Entity) (S : SortingStore Object Entity)
        (sorting : Sorting (ObjectID × Entity))
        (order : Enumeration (Int × List (ObjectID × Entity)))
        (filter : Option (Query Object Entity)) (sortKeyPath : Option (ComparableKeyPath Entity))
        (distinctKey : KeyPath Entity U) (request : FetchRequest Object) (ctx : Context Entity)
        (results : List (ObjectID × Entity)) (ctx' : Context Entity),
      makeRequest filter sortKeyPath = some request →
      getElements stack S sorting order filter sortKeyPath (some (.ofKeyPath distinctKey)) ctx
        = some (results, ctx') →
      (KeepsValues (fun object => distinctKey.get object.2) (selected S request.predicate ctx)
          results ↔
        selected S request.predicate ctx = [] ∨ stack.fault ctx.calls = none ∧
          SeparatesValues (fun object => distinctKey.get object.2)
            (selected S request.predicate ctx)) := by
  refine ⟨fun repo env sorting order filter sortKeyPath distinctKey fm =>
      distinctUsing_keeps_iff order _ _,
    fun stack S sorting order filter sortKeyPath distinctKey request ctx results ctx' hrequest
      heq => ?_⟩
  cases hfault : stack.fault ctx.calls with
  | some code =>
    rw [getElements_of_fault S sorting order hrequest _ hfault] at heq
    obtain ⟨rfl, -⟩ := Prod.mk.inj (Option.some.inj heq)
    constructor
    · -- nothing is returned, so there was nothing to keep
      intro h
      refine Or.inl (List.eq_nil_iff_forall_not_mem.mpr fun object hobject => ?_)
      obtain ⟨_, hmem, -⟩ := h.1 object hobject
      exact List.not_mem_nil hmem
    · rintro (hnil | ⟨hnone, -⟩)
      · rw [hnil]
        exact ⟨fun object hobject => absurd hobject List.not_mem_nil, rfl⟩
      · exact absurd hnone (Option.some_ne_none code)
  | none =>
    rw [getElements_of_fetch S sorting order hrequest _ hfault] at heq
    obtain ⟨rfl, -⟩ := Prod.mk.inj (Option.some.inj heq)
    refine (distinctUsing_keeps_iff order _ fun object => distinctKey.get object.2).trans ?_
    refine ⟨fun h => Or.inr ⟨rfl, h⟩, ?_⟩
    rintro (hnil | ⟨-, h⟩)
    · rw [hnil]
      exact fun object hobject => absurd hobject List.not_mem_nil
    · exact h

end Keys

/-! ### Samples

The employees with badges whose hash values collide, and a context of two numbers. -/

namespace Sample

/-- A number whose hash value tells nothing. -/
structure Badge where
  number : Nat
deriving DecidableEq

instance : HashableValue Badge where
  hashValue _ := 0
  hashValue_eq _ _ _ := rfl

def employeeBadge : KeyPath Employee Badge := ⟨fun employee => ⟨employee.number⟩, some "badge"⟩

/-- A number as its own property. -/
def value : KeyPath Nat Nat := ⟨id, some "value"⟩

/-- A store of numbers. -/
def numberStore : SortingStore Int Nat where
  valueForKeyPath number _ := .object number
  equal a b := decide (a = b)
  less a b := decide (a < b)
  like _ _ := false
  containsCD _ _ := false
  precedes _ a b := decide (a < b)

/-- A context with the numbers zero and five. -/
def zeroAndFive : Context Nat :=
  CoreDataRepository.run numbers emptyContext [.makeEntity, .makeEntity, .edit 1 fun _ => 5]

end Sample

section Team

open Sample

/-- Employees of one age and a single group of numbers come in ascending order, however the
    groups are listed. -/
theorem ascending_team :
    (∀ order, Ascending employeeAge ((employees.getElements (process Int.ofNat) (.merge _) order
      everyone (some (.ofKeyPath employeeAge)) (some (.ofKeyPath employeeNumber))).run
        (team 20 20)).1) ∧
    ∀ order results ctx', getElements numbers numberStore (.merge _) order none
      (some (.ofKeyPath value)) (some (.ofKeyPath (⟨Badge.mk, none⟩ : KeyPath Nat Badge)))
        zeroAndFive = some (results, ctx') → Ascending value (results.map Prod.snd) := by
  constructor
  · exact ((@getElements_ascending_iff Int Employee Nat (List Nat) Nat Nat Nat _ _ weak_nat).1
      employees (process Int.ofNat) (.merge _) everyone employeeAge employeeNumber
      (team 20 20)).mpr (by decide)
  · exact ((@getElements_ascending_iff Int Employee Nat (List Nat) Nat Nat Badge _ _ weak_nat).2
      numbers numberStore (.merge _) none value ⟨Badge.mk, none⟩ ⟨none, some "value"⟩
      zeroAndFive rfl fun _ _ => rfl).mpr (by decide)

/-- An employee of thirty may be listed before one of twenty. -/
theorem not_ascending_team :
    ¬ ∀ order, Ascending employeeAge ((employees.getElements (process Int.ofNat) (.merge _) order
      everyone (some (.ofKeyPath employeeAge)) (some (.ofKeyPath employeeNumber))).run
        (team 30 20)).1 := by
  intro h
  have hlevel := (distinctUsing_ascending_iff
    (ComparableKeyPath.isStrictWeakOrder weak_nat employeeAge) _).mp h
  exact absurd hlevel (by decide)

/-- Both numbers are kept, as are both employees. -/
theorem keeps_team :
    KeepsValues employeeNumber.get (employees.selected (process Int.ofNat) everyone (team 30 20))
      ((employees.getElements (process Int.ofNat) (.merge _) (.keyFirst 1) everyone none
        (some (.ofKeyPath employeeNumber))).run (team 30 20)).1 ∧
    ∀ results ctx', getElements numbers numberStore (.merge _) (.keyFirst 0) none none
      (some (.ofKeyPath value)) zeroAndFive = some (results, ctx') →
      KeepsValues (fun object => value.get object.2) (selected numberStore none zeroAndFive)
        results := by
  constructor
  · exact ((@getElements_keeps_iff Int Employee Nat (List Nat) Nat Nat _).1 employees
      (process Int.ofNat) (.merge _) (.keyFirst 1) everyone none employeeNumber
      (team 30 20)).mpr (by decide)
  · intro results ctx' heq
    exact ((@getElements_keeps_iff Int Employee Nat (List Nat) Nat Nat _).2 numbers numberStore
      (.merge _) (.keyFirst 0) none none value ⟨none, none⟩ zeroAndFive results ctx' rfl
      heq).mpr (Or.inr ⟨rfl, by decide⟩)

/-- Of two employees whose badges have one hash value, one is lost. -/
theorem not_keeps_team :
    ¬ KeepsValues employeeBadge.get
      (employees.selected (process Int.ofNat) everyone (team 30 20))
      ((employees.getElements (process Int.ofNat) (.merge _) (.keyFirst 0) everyone none
        (some (.ofKeyPath employeeBadge))).run (team 30 20)).1 := by
  intro h
  exact absurd ((distinctUsing_keeps_iff _ _ _).mp h) (by decide)

end Team

end QBRepository
