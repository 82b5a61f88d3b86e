import QBRepository.Predicate.Predicate

namespace QBRepository

/-!
# Filtering in memory and in the store, on non-optional data

A store is assumed to read the key paths of a predicate (`KeyPath.Resolves`) and to compare
boxed values as the library compares the values themselves (`Store.Equates`, `Store.Orders`).

* `TotalLeaf` — the comparisons over non-optional key paths of a type with decidable equality
  or, for the ordering operators and ranges, with a strict total order;
* `Query.evaluate_eq_holds` — a query of predicates built from such leaves selects the same
  models in both forms.
-/

variable {Object Model : Type}

/-- Key-value coding reads the property of the key path. -/
def KeyPath.Resolves {Property : Type} [ManagedObjectProperty Object Property]
    (keyPath : KeyPath Model Property) (S : Store Object Model) : Prop :=
  ∃ key, keyPath._kvcKeyPathString = some key ∧
    ∀ model, S.valueForKeyPath model key = _object (keyPath.get model)

/-- The store tells boxed values apart as `==` does; none of them is boxed as null. -/
structure Store.Equates (S : Store Object Model) (Property : Type)
    [EquatableProperty Object Property] : Prop where
  boxed : ∀ a : Property, ∃ o, _object a = .object o
  equal : ∀ a b : Property, S.isEqual (_object a) (_object b) = (a == b)

/-- The store orders boxed values as `<` does. -/
structure Store.Orders (S : Store Object Model) (Property : Type)
    [ComparableProperty Object Property] : Prop extends Store.Equates S Property where
  less : ∀ a b : Property, S.isLess (_object a) (_object b) = Comparable.lt a b

/-- On values that are not null, `<=` in the store is the negation of the reversed `<`. -/
theorem Store.Orders.lessEqual {S : Store Object Model} {Property : Type}
    [ComparableProperty Object Property] (hS : S.Orders Property) (a b : Property) :
    S.isLessEqual (_object a) (_object b) = !Comparable.lt b a := by
  obtain ⟨o, ho⟩ := hS.boxed a
  obtain ⟨o', ho'⟩ := hS.boxed b
  have hless := hS.less b a
  rw [ho, ho'] at hless ⊢
  rw [← hless]
  rfl

/-! ### The leaves -/

section Leaves

variable {S : Store Object Model} {model : Model} {Property : Type}

/-- A format over a resolved key path agrees if it does for the property of the model. -/
theorem KeyPath.Resolves.agrees [ManagedObjectProperty Object Property]
    {keyPath : KeyPath Model Property} (hkp : keyPath.Resolves S) {p : AnyPredicate Object Model}
    {comparison : String → NSPredicate Object} (hp : p.predicate = keyPath.format comparison)
    (hcomparison : ∀ key, S.valueForKeyPath model key = _object (keyPath.get model) →
      S.holds model (comparison key) = p.evaluate model) : p.Agrees S model := by
  obtain ⟨key, hkey, hvalue⟩ := hkp
  refine AnyPredicate.agrees_iff.mpr ⟨comparison key, ?_, hcomparison key (hvalue model)⟩
  rw [hp, KeyPath.format, hkey, Option.map_some]

section Equatable

variable [EquatableProperty Object Property] {keyPath : KeyPath Model Property}

/-- Equality, if the store compares values as `==` does. -/
theorem equalPredicate_agrees (hkp : keyPath.Resolves S)
    (hequal : ∀ a b : Property, S.isEqual (_object a) (_object b) = (a == b))
    (property : Property) : (equalPredicate keyPath property).Agrees S model :=
  hkp.agrees rfl fun key hvalue => by
    rw [Store.holds, hvalue, hequal]
    rfl

/-- Membership, if the store tells values apart as `==` does. -/
theorem inPredicate_agrees [LawfulBEq Property] (hkp : keyPath.Resolves S)
    (hS : S.Equates Property) (properties : List Property) :
    (inPredicate keyPath properties).Agrees S model :=
  hkp.agrees rfl fun key hvalue => by
    rw [Store.holds, hvalue, List.any_map]
    -- membership in the boxed list is membership in the list
    show properties.any _ = properties.any _
    refine congrArg properties.any (funext fun a => ?_)
    rw [Function.comp_apply, hS.equal, BEq.comm]

end Equatable

section Comparable

variable [ComparableProperty Object Property] {keyPath : KeyPath Model Property}

/-- The order, if the store compares values as `<` does. -/
theorem smallerPredicate_agrees (hkp : keyPath.Resolves S) (hS : S.Orders Property)
    (property : Property) : (smallerPredicate keyPath property).Agrees S model :=
  hkp.agrees rfl fun key hvalue => by
    rw [Store.holds, hvalue, hS.less]
    rfl

/-- A closed range, over a strict total order. -/
theorem closedRangePredicate_agrees (hkp : keyPath.Resolves S) (hS : S.Orders Property)
    (horder : StrictTotalOrder Property) (range : ClosedRange Property) :
    (closedRangePredicate keyPath range).Agrees S model :=
  hkp.agrees rfl fun key hvalue => by
    show S.holds model _ = range.contains (keyPath.get model)
    rw [Store.holds, hvalue, hS.lessEqual, hS.lessEqual, ClosedRange.contains,
      horder.ge_eq_le, horder.le_eq_not_lt, horder.le_eq_not_lt]

end Comparable

end Leaves

/-! ### Queries over total data -/

/-- The comparisons over non-optional, totally ordered data. -/
inductive TotalLeaf (S : Store Object Model) : AnyPredicate Object Model → Prop
  | equal {Property : Type} [EquatableProperty Object Property] [LawfulBEq Property]
      {keyPath : KeyPath Model Property} (hkp : keyPath.Resolves S) (hS : S.Equates Property)
      (rhs : Property) : TotalLeaf S (keyPath.equal rhs)
  | notEqual {Property : Type} [EquatableProperty Object Property] [LawfulBEq Property]
      {keyPath : KeyPath Model Property} (hkp : keyPath.Resolves S) (hS : S.Equates Property)
      (rhs : Property) : TotalLeaf S (keyPath.notEqual rhs)
  | isIn {Property : Type} [EquatableProperty Object Property] [LawfulBEq Property]
      {keyPath : KeyPath Model Property} (hkp : keyPath.Resolves S) (hS : S.Equates Property)
      (rhs : List Property) : TotalLeaf S (keyPath.isIn rhs)
  | less {Property : Type} [ComparableProperty Object Property]
      {keyPath : KeyPath Model Property} (hkp : keyPath.Resolves S) (hS : S.Orders Property)
      (horder : StrictTotalOrder Property) (rhs : Property) : TotalLeaf S (keyPath.less rhs)
  | lessOrEqual {Property : Type} [ComparableProperty Object Property]
      {keyPath : KeyPath Model Property} (hkp : keyPath.Resolves S) (hS : S.Orders Property)
      (horder : StrictTotalOrder Property) (rhs : Property) :
      TotalLeaf S (keyPath.lessOrEqual rhs)
  | greater {Property : Type} [ComparableProperty Object Property]
      {keyPath : KeyPath Model Property} (hkp : keyPath.Resolves S) (hS : S.Orders Property)
      (horder : StrictTotalOrder Property) (rhs : Property) : TotalLeaf S (keyPath.greater rhs)
  | greaterOrEqual {Property : Type} [ComparableProperty Object Property]
      {keyPath : KeyPath Model Property} (hkp : keyPath.Resolves S) (hS : S.Orders Property)
      (horder : StrictTotalOrder Property) (rhs : Property) :
      TotalLeaf S (keyPath.greaterOrEqual rhs)
  | isInRange {Property : Type} [ComparableProperty Object Property]
      {keyPath : KeyPath Model Property} (hkp : keyPath.Resolves S) (hS : S.Orders Property)
      (horder : StrictTotalOrder Property) (rhs : ClosedRange Property) :
      TotalLeaf S (keyPath.isInRange rhs)

/-- Each leaf agrees; the derived operators do because their parts do. -/
theorem TotalLeaf.agrees {S : Store Object Model} {model : Model}
    {p : AnyPredicate Object Model} (hp : TotalLeaf S p) : p.Agrees S model := by
  cases hp with
  | equal hkp hS rhs => exact equalPredicate_agrees hkp hS.equal rhs
  | notEqual hkp hS rhs => exact (equalPredicate_agrees hkp hS.equal rhs).not
  | isIn hkp hS rhs => exact inPredicate_agrees hkp hS rhs
  | less hkp hS _ rhs => exact smallerPredicate_agrees hkp hS rhs
  | lessOrEqual hkp hS _ rhs =>
    exact (smallerPredicate_agrees hkp hS rhs).or (equalPredicate_agrees hkp hS.equal rhs)
  | greater hkp hS _ rhs =>
    exact ((smallerPredicate_agrees hkp hS rhs).or
      (equalPredicate_agrees hkp hS.equal rhs)).not
  | greaterOrEqual hkp hS _ rhs => exact (smallerPredicate_agrees hkp hS rhs).not
  | isInRange hkp hS horder rhs => exact closedRangePredicate_agrees hkp hS horder rhs

/-- The predicates of a query built by `init` and any number of calls of `add`. -/
theorem Query.mem_predicates (p : AnyPredicate Object Model)
    (added : List (AnyPredicate Object Model)) :
    (added.foldl Query.add (.ofPredicate p)).predicates = p :: added := by
  have hadd : ∀ (query : Query Object Model) (ps : List (AnyPredicate Object Model)),
      (ps.foldl Query.add query).predicates = query.predicates ++ ps := by
    intro query ps
    induction ps generalizing query with
    | nil => simp
    | cons q ps ih => rw [List.foldl_cons, ih, Query.add, List.append_assoc, List.singleton_append]
  exact hadd _ added

/-- **On total data, a query filters in memory as it does in the store.** -/
theorem Query.evaluate_eq_holds {S : Store Object Model} {p : AnyPredicate Object Model}
    {added : List (AnyPredicate Object Model)} (hp : Built (TotalLeaf S) p)
    (hadded : ∀ q ∈ added, Built (TotalLeaf S) q) (model : Model) :
    ∃ np, (added.foldl Query.add (.ofPredicate p)).createPredicate = some np ∧
      S.holds model np = (added.foldl Query.add (.ofPredicate p)).evaluate model := by
  refine Query.agrees fun q hq => ?_
  rw [Query.mem_predicates] at hq
  have hbuilt : Built (TotalLeaf S) q := by
    rcases List.mem_cons.mp hq with rfl | hq
    · exact hp
    · exact hadded q hq
  exact hbuilt.agrees fun _ => TotalLeaf.agrees

/-! ### A sample store

Persons with their age and an optional rating, both stored as numbers. -/

namespace Sample

/-- A person; the rating may be missing. -/
structure Person where
  age : Int
  rating : Option Int

instance : ComparableProperty Int Int where
  _object n := .object n
  lt a b := decide (a < b)

def age : KeyPath Person Int := ⟨Person.age, some "age"⟩

def rating : KeyPath Person (Option Int) := ⟨Person.rating, some "rating"⟩

/-- A store of persons. -/
def persons : Store Int Person where
  valueForKeyPath person key :=
    if key = "age" then _object person.age
    else if key = "rating" then _object person.rating
    else .nsNull
  equal a b := a == b
  less a b := decide (a < b)
  like _ _ := false
  containsCD _ _ := false

/-- The store has the age. -/
theorem age_resolves : age.Resolves persons := ⟨"age", rfl, fun _ => rfl⟩

/-- The store has the rating. -/
theorem rating_resolves : rating.Resolves persons := ⟨"rating", rfl, fun _ => rfl⟩

/-- Numbers are compared as in Swift. -/
theorem persons_orders : persons.Orders Int where
  boxed n := ⟨n, rfl⟩
  equal _ _ := rfl
  less _ _ := rfl

/-- Integers are strictly and totally ordered. -/
theorem strictTotalOrder_int : StrictTotalOrder Int where
  eq_iff a b := beq_iff_eq
  irrefl a := decide_eq_false (Int.lt_irrefl a)
  trans a b c hab hbc :=
    decide_eq_true (Int.lt_trans (of_decide_eq_true hab) (of_decide_eq_true hbc))
  trichotomy a b := by
    show decide (a < b) = true ∨ a = b ∨ decide (b < a) = true
    simp only [decide_eq_true_eq]
    omega
  gt_iff _ _ := Iff.rfl
  le_iff a b := by
    show (!decide (b < a)) = true ↔ decide (a < b) = true ∨ a = b
    simp only [Bool.not_eq_true', decide_eq_false_iff_not, decide_eq_true_eq]
    omega
  ge_iff a b := by
    show (!decide (a < b)) = true ↔ decide (b < a) = true ∨ a = b
    simp only [Bool.not_eq_true', decide_eq_false_iff_not, decide_eq_true_eq]
    omega

/-- `age >= 18 && !(age << 30...40)` -/
def adults : AnyPredicate Int Person :=
  (age.greaterOrEqual 18).and (age.isInRange ⟨30, 40, rfl⟩).not

/-- The query for `adults`, with `age << [20, 50]` added. -/
def adultsOnly : Query Int Person :=
  [age.isIn [20, 50]].foldl Query.add (.ofPredicate adults)

end Sample

/-- The sample query on a person of twenty. -/
theorem Query.evaluate_eq_holds_persons :
    ∃ np, Sample.adultsOnly.createPredicate = some np ∧
      Sample.persons.holds ⟨20, none⟩ np = Sample.adultsOnly.evaluate ⟨20, none⟩ := by
  refine Query.evaluate_eq_holds (.and (.leaf ?_) (.not (.leaf ?_))) ?_ _
  · exact .greaterOrEqual Sample.age_resolves Sample.persons_orders Sample.strictTotalOrder_int 18
  · exact .isInRange Sample.age_resolves Sample.persons_orders Sample.strictTotalOrder_int _
  · intro q hq
    obtain rfl := List.mem_singleton.mp hq
    exact .leaf (.isIn Sample.age_resolves Sample.persons_orders.toEquates [20, 50])

end QBRepository
