import QBRepository.Predicate.NSPredicate

namespace QBRepository

/-!
# Predicates, operators and queries

`AnyPredicate` is a predicate in its two forms, `predicate` for the stores that filter
themselves and `evaluate` for filtering in memory.  The predicate types of `Predicate.swift`
come first, then the operators of `Operator.swift`, which build `>`, `>=`, `<=` and `!=` from
`<`, `==`, `||` and `!`, then `Query`.

`Built` is the closure of a set of predicates under the connectives, `AnyPredicate.Agrees`
says that the two forms select a model alike, and `Built.agrees` extends it from the leaves to
all predicates built from them.
-/

variable {Object Model : Type}

/-- A predicate; `predicate` is `none` where forming it traps. -/
structure AnyPredicate (Object Model : Type) where
  predicate : Option (NSPredicate Object)
  evaluate : Model → Bool

/-- What the predicates use of Foundation: `regularExpression` is the search for a first
    match, if the pattern is valid. -/
structure Foundation where
  regularExpression : String → Option (String → Bool)
  lowercased : String → String
  contains : String → String → Bool

/-! ### The predicate types -/

section Predicates

variable {Property : Type}

/-- A format over the string of a key path; the forced unwrapping traps if there is none. -/
def KeyPath.format (keyPath : KeyPath Model Property)
    (comparison : String → NSPredicate Object) : Option (NSPredicate Object) :=
  keyPath._kvcKeyPathString.map comparison

/-- `EqualPredicate` -/
def equalPredicate [EquatableProperty Object Property] (keyPath : KeyPath Model Property)
    (property : Property) : AnyPredicate Object Model where
  predicate := keyPath.format fun key => .equalTo key (_object property)
  evaluate model := keyPath.get model == property

/-- `EqualOptionalPredicate` -/
def equalOptionalPredicate [EquatableProperty Object Property]
    (keyPath : KeyPath Model (Option Property)) (property : Option Property) :
    AnyPredicate Object Model where
  predicate := keyPath.format fun key =>
    .equalTo key ((property.map _object).getD .nsNull)
  evaluate model := keyPath.get model == property

/-- `SmallerPredicate` -/
def smallerPredicate [ComparableProperty Object Property] (keyPath : KeyPath Model Property)
    (property : Property) : AnyPredicate Object Model where
  predicate := keyPath.format fun key => .lessThan key (_object property)
  evaluate model := Comparable.lt (keyPath.get model) property

/-- `InPredicate` -/
def inPredicate [EquatableProperty Object Property] (keyPath : KeyPath Model Property)
    (properties : List Property) : AnyPredicate Object Model where
  predicate := keyPath.format fun key => .inList key (properties.map _object)
  evaluate model := properties.any (· == keyPath.get model)

/-- `RegexPredicate` -/
def regexPredicate (foundation : Foundation) [RegexMatchableProperty Object Property]
    (keyPath : KeyPath Model Property) (pattern : String) : AnyPredicate Object Model where
  predicate := keyPath.format fun key => .like key pattern
  evaluate model :=
    match foundation.regularExpression pattern with
    | some firstMatch => firstMatch (RegexMatchableProperty.describing (keyPath.get model))
    | none => false

/-- `ClosedRangePredicate`; bridging the bounds to objects boxes them. -/
def closedRangePredicate [ComparableProperty Object Property] (keyPath : KeyPath Model Property)
    (range : ClosedRange Property) : AnyPredicate Object Model where
  predicate := keyPath.format fun key =>
    .between key (_object range.lowerBound) (_object range.upperBound)
  evaluate model := range.contains (keyPath.get model)

/-- `StringContainsPredicate` -/
def stringContainsPredicate (foundation : Foundation) [RegexMatchableProperty Object Property]
    (keyPath : KeyPath Model Property) (otherString : String) : AnyPredicate Object Model where
  predicate := keyPath.format fun key => .containsCD key otherString
  evaluate model :=
    match RegexMatchableProperty.asString (keyPath.get model) with
    | some string =>
      foundation.contains (foundation.lowercased string) (foundation.lowercased otherString)
    | none => false

end Predicates

namespace AnyPredicate

/-- `EmptyPredicate` -/
def empty : AnyPredicate Object Model where
  predicate := some (.value true)
  evaluate _ := true

/-- `AndPredicate`, the operator `&&`. -/
def and (left right : AnyPredicate Object Model) : AnyPredicate Object Model where
  predicate := do return .and [← left.predicate, ← right.predicate]
  evaluate model := left.evaluate model && right.evaluate model

/-- `OrPredicate`, the operator `||`. -/
def or (left right : AnyPredicate Object Model) : AnyPredicate Object Model where
  predicate := do return .or [← left.predicate, ← right.predicate]
  evaluate model := left.evaluate model || right.evaluate model

/-- `NotPredicate`, the operator `!`. -/
def not (original : AnyPredicate Object Model) : AnyPredicate Object Model where
  predicate := do return .not (← original.predicate)
  evaluate model := !original.evaluate model

/-- `AndPredicate.compoundPredicate` -/
def compoundAnd : List (AnyPredicate Object Model) → AnyPredicate Object Model
  | [] => empty
  | firstPredicate :: predicates => firstPredicate.and (compoundAnd predicates)

/-- `OrPredicate.compoundPredicate` -/
def compoundOr : List (AnyPredicate Object Model) → AnyPredicate Object Model
  | [] => empty
  | firstPredicate :: predicates => firstPredicate.or (compoundOr predicates)

end AnyPredicate

/-! ### The operators on key paths -/

namespace KeyPath

variable {Property : Type}

section Equatable

variable [EquatableProperty Object Property]

/-- `==` -/
def equal (lhs : KeyPath Model Property) (rhs : Property) : AnyPredicate Object Model :=
  equalPredicate lhs rhs

/-- `!=` -/
def notEqual (lhs : KeyPath Model Property) (rhs : Property) : AnyPredicate Object Model :=
  (equalPredicate lhs rhs).not

/-- `==` on an optional -/
def equalOptional (lhs : KeyPath Model (Option Property)) (rhs : Option Property) :
    AnyPredicate Object Model :=
  equalOptionalPredicate lhs rhs

/-- `!=` on an optional -/
def notEqualOptional (lhs : KeyPath Model (Option Property)) (rhs : Option Property) :
    AnyPredicate Object Model :=
  (equalOptionalPredicate lhs rhs).not

/-- `<<` with a list -/
def isIn (lhs : KeyPath Model Property) (rhs : List Property) : AnyPredicate Object Model :=
  inPredicate lhs rhs

end Equatable

section Comparable

variable [ComparableProperty Object Property]

/-- `<`; the operator on an optional is the same at the optional type, as are the next three. -/
def less (lhs : KeyPath Model Property) (rhs : Property) : AnyPredicate Object Model :=
  smallerPredicate lhs rhs

/-- `>` -/
def greater (lhs : KeyPath Model Property) (rhs : Property) : AnyPredicate Object Model :=
  ((smallerPredicate lhs rhs).or (equalPredicate lhs rhs)).not

/-- `<=` -/
def lessOrEqual (lhs : KeyPath Model Property) (rhs : Property) : AnyPredicate Object Model :=
  (smallerPredicate lhs rhs).or (equalPredicate lhs rhs)

/-- `>=` -/
def greaterOrEqual (lhs : KeyPath Model Property) (rhs : Property) :
    AnyPredicate Object Model :=
  (smallerPredicate lhs rhs).not

/-- `<<` with a closed range, countable or not -/
def isInRange (lhs : KeyPath Model Property) (rhs : ClosedRange Property) :
    AnyPredicate Object Model :=
  closedRangePredicate lhs rhs

end Comparable

section Regex

variable [RegexMatchableProperty Object Property]

/-- `~=` -/
def isMatching (foundation : Foundation) (lhs : KeyPath Model Property) (rhs : String) :
    AnyPredicate Object Model :=
  regexPredicate foundation lhs rhs

/-- `<<` with a string -/
def isContaining (foundation : Foundation) (lhs : KeyPath Model Property) (rhs : String) :
    AnyPredicate Object Model :=
  stringContainsPredicate foundation lhs rhs

end Regex

end KeyPath

/-! ### Queries -/

/-- A query; its predicates are joined by "and". -/
structure Query (Object Model : Type) where
  predicates : List (AnyPredicate Object Model)

namespace Query

/-- `init` -/
def ofPredicate (predicate : AnyPredicate Object Model) : Query Object Model where
  predicates := [predicate]

def add (query : Query Object Model) (predicate : AnyPredicate Object Model) :
    Query Object Model where
  predicates := query.predicates ++ [predicate]

def createPredicate (query : Query Object Model) : Option (NSPredicate Object) := do
  return .and (← query.predicates.mapM AnyPredicate.predicate)

def evaluate (query : Query Object Model) (model : Model) : Bool :=
  (query.predicates.map fun predicate => predicate.evaluate model).foldl (· && ·) true

end Query

/-! ### The two forms of a predicate -/

/-- Both forms of the predicate select the model, or neither does. -/
def AnyPredicate.Agrees (S : Store Object Model) (model : Model)
    (p : AnyPredicate Object Model) : Prop :=
  p.predicate.map (S.holds model) = some (p.evaluate model)

/-- The predicates built from some leaves by the connectives and the compounds of lists. -/
inductive Built (leaf : AnyPredicate Object Model → Prop) : AnyPredicate Object Model → Prop
  | leaf {p} (hp : leaf p) : Built leaf p
  | empty : Built leaf .empty
  | and {p q} (hp : Built leaf p) (hq : Built leaf q) : Built leaf (p.and q)
  | or {p q} (hp : Built leaf p) (hq : Built leaf q) : Built leaf (p.or q)
  | not {p} (hp : Built leaf p) : Built leaf p.not
  | compoundAnd {ps} (hps : ∀ p ∈ ps, Built leaf p) : Built leaf (.compoundAnd ps)
  | compoundOr {ps} (hps : ∀ p ∈ ps, Built leaf p) : Built leaf (.compoundOr ps)

namespace AnyPredicate

variable {S : Store Object Model} {model : Model} {p q : AnyPredicate Object Model}

/-- Agreement, with the store's form of the predicate named. -/
theorem agrees_iff : p.Agrees S model ↔
    ∃ np, p.predicate = some np ∧ S.holds model np = p.evaluate model :=
  Option.map_eq_some_iff

/-- The empty predicate agrees. -/
theorem Agrees.empty : (empty : AnyPredicate Object Model).Agrees S model := rfl

/-- Conjunction keeps agreement. -/
theorem Agrees.and (hp : p.Agrees S model) (hq : q.Agrees S model) :
    (p.and q).Agrees S model := by
  obtain ⟨np, hnp, hp⟩ := agrees_iff.mp hp
  obtain ⟨nq, hnq, hq⟩ := agrees_iff.mp hq
  refine agrees_iff.mpr ⟨.and [np, nq], by simp [AnyPredicate.and, hnp, hnq], ?_⟩
  simp only [Store.holds, Store.holdsAll, hp, hq, Bool.and_true, AnyPredicate.and]

/-- So does disjunction. -/
theorem Agrees.or (hp : p.Agrees S model) (hq : q.Agrees S model) :
    (p.or q).Agrees S model := by
  obtain ⟨np, hnp, hp⟩ := agrees_iff.mp hp
  obtain ⟨nq, hnq, hq⟩ := agrees_iff.mp hq
  refine agrees_iff.mpr ⟨.or [np, nq], by simp [AnyPredicate.or, hnp, hnq], ?_⟩
  simp only [Store.holds, Store.holdsAny, hp, hq, Bool.or_false, AnyPredicate.or]

/-- Negation flips both forms. -/
theorem agrees_not : p.not.Agrees S model ↔ p.Agrees S model := by
  simp only [agrees_iff, AnyPredicate.not, Option.bind_eq_bind, Option.pure_def,
    Option.bind_eq_some_iff, Option.some.injEq]
  constructor
  · rintro ⟨_, ⟨np, hnp, rfl⟩, hholds⟩
    exact ⟨np, hnp, by simpa [Store.holds] using hholds⟩
  · rintro ⟨np, hnp, hholds⟩
    exact ⟨.not np, ⟨np, hnp, rfl⟩, by simp [Store.holds, hholds]⟩

/-- So does negation. -/
theorem Agrees.not (hp : p.Agrees S model) : p.not.Agrees S model := agrees_not.mpr hp

/-- A predicate that both forms refute does not hide the disagreement of another one. -/
theorem Agrees.of_or (h : (p.or q).Agrees S model) (hq : q.Agrees S model)
    (hfalse : q.evaluate model = false) : p.Agrees S model := by
  obtain ⟨nq, hnq, hq⟩ := agrees_iff.mp hq
  obtain ⟨npq, hnpq, h⟩ := agrees_iff.mp h
  simp only [AnyPredicate.or, hnq, Option.bind_eq_bind, Option.pure_def, Option.bind_some,
    Option.bind_eq_some_iff, Option.some.injEq] at hnpq
  obtain ⟨np, hnp, rfl⟩ := hnpq
  refine agrees_iff.mpr ⟨np, hnp, ?_⟩
  simpa [Store.holds, Store.holdsAny, AnyPredicate.or, hq, hfalse] using h

/-- So does the conjunction of a list. -/
theorem Agrees.compoundAnd {ps : List (AnyPredicate Object Model)}
    (hps : ∀ p ∈ ps, p.Agrees S model) : (compoundAnd ps).Agrees S model := by
  induction ps with
  | nil => exact Agrees.empty
  | cons p ps ih =>
    exact (hps p (by simp)).and (ih fun q hq => hps q (List.mem_cons_of_mem p hq))

/-- So does the disjunction of a list. -/
theorem Agrees.compoundOr {ps : List (AnyPredicate Object Model)}
    (hps : ∀ p ∈ ps, p.Agrees S model) : (compoundOr ps).Agrees S model := by
  induction ps with
  | nil => exact Agrees.empty
  | cons p ps ih =>
    exact (hps p (by simp)).or (ih fun q hq => hps q (List.mem_cons_of_mem p hq))

end AnyPredicate

section Agreement

variable {S : Store Object Model} {model : Model} {leaf : AnyPredicate Object Model → Prop}

/-- **Agreement is a matter of the leaves.** -/
theorem Built.agrees {p : AnyPredicate Object Model} (hp : Built leaf p)
    (hleaf : ∀ p, leaf p → p.Agrees S model) : p.Agrees S model := by
  induction hp with
  | leaf hp => exact hleaf _ hp
  | empty => exact .empty
  | and _ _ ihp ihq => exact ihp.and ihq
  | or _ _ ihp ihq => exact ihp.or ihq
  | not _ ihp => exact ihp.not
  | compoundAnd _ ih => exact .compoundAnd ih
  | compoundOr _ ih => exact .compoundOr ih

/-- The fold of a query is a conjunction. -/
theorem Query.evaluate_eq_all (query : Query Object Model) (model : Model) :
    query.evaluate model = query.predicates.all (·.evaluate model) := by
  have hfold : ∀ (bs : List Bool) (b : Bool), bs.foldl (· && ·) b = (b && bs.all id) := by
    intro bs
    induction bs with
    | nil => intro b; simp
    | cons b' bs ih => intro b; rw [List.foldl_cons, ih, List.all_cons, id_eq, Bool.and_assoc]
  rw [Query.evaluate, hfold, Bool.true_and, List.all_map]
  rfl

/-- If all predicates of a query agree, the query does. -/
theorem Query.agrees {query : Query Object Model}
    (hquery : ∀ p ∈ query.predicates, p.Agrees S model) :
    ∃ np, query.createPredicate = some np ∧ S.holds model np = query.evaluate model := by
  have hmapM : ∀ ps : List (AnyPredicate Object Model), (∀ p ∈ ps, p.Agrees S model) →
      ∃ nps, ps.mapM AnyPredicate.predicate = some nps ∧
        S.holdsAll model nps = ps.all (·.evaluate model) := by
    intro ps hps
    induction ps with
    | nil => exact ⟨[], rfl, rfl⟩
    | cons p ps ih =>
      obtain ⟨np, hnp, hp⟩ := AnyPredicate.agrees_iff.mp (hps p (by simp))
      obtain ⟨nps, hnps, hall⟩ := ih fun q hq => hps q (List.mem_cons_of_mem p hq)
      refine ⟨np :: nps, by simp [List.mapM_cons, hnp, hnps], ?_⟩
      rw [Store.holdsAll, hp, hall, List.all_cons]
  obtain ⟨nps, hnps, hall⟩ := hmapM query.predicates hquery
  refine ⟨.and nps, by simp [Query.createPredicate, hnps], ?_⟩
  rw [Store.holds, hall, Query.evaluate_eq_all]

end Agreement

end QBRepository
