import Mathlib.Logic.Basic

namespace QBRepository

/-!
# Properties a predicate may compare

The property protocols of `Property.swift`, the key paths that select a property, and the
lifting of both to optionals.

* `AnyObject` — what `_object` boxes a property into: `NSNull`, or an object of the store;
* `Comparable` — the six comparisons of Swift, all but `<` and `==` with a default;
* `StrictTotalOrder` — the comparisons of a type are those of a strict total order.
-/

/-- A boxed value; `Object` are the objects other than `NSNull`. -/
inductive AnyObject (Object : Type) where
  | nsNull
  | object (value : Object)
deriving DecidableEq

/-- A key path with the string key-value coding knows it by, if it has one. -/
structure KeyPath (Model Value : Type) where
  get : Model → Value
  _kvcKeyPathString : Option String

/-- Swift's comparisons.  A type may provide its own `>`, `<=` and `>=`. -/
class Comparable (α : Type) extends BEq α where
  lt : α → α → Bool
  gt : α → α → Bool := fun a b => lt b a
  le : α → α → Bool := fun a b => !lt b a
  ge : α → α → Bool := fun a b => !lt a b

/-- The comparisons are those of one strict total order. -/
structure StrictTotalOrder (α : Type) [Comparable α] : Prop where
  eq_iff : ∀ a b : α, (a == b) = true ↔ a = b
  irrefl : ∀ a : α, Comparable.lt a a = false
  trans : ∀ a b c : α, Comparable.lt a b = true → Comparable.lt b c = true →
    Comparable.lt a c = true
  trichotomy : ∀ a b : α, Comparable.lt a b = true ∨ a = b ∨ Comparable.lt b a = true
  gt_iff : ∀ a b : α, Comparable.gt a b = true ↔ Comparable.lt b a = true
  le_iff : ∀ a b : α, Comparable.le a b = true ↔ Comparable.lt a b = true ∨ a = b
  ge_iff : ∀ a b : α, Comparable.ge a b = true ↔ Comparable.lt b a = true ∨ a = b

namespace StrictTotalOrder

variable {α : Type} [Comparable α]

/-- A value is not less than one it is greater than. -/
theorem asymm (h : StrictTotalOrder α) {a b : α} (hab : Comparable.lt a b = true) :
    Comparable.lt b a = false := by
  cases hba : Comparable.lt b a with
  | false => rfl
  | true =>
    have haa := h.trans a b a hab hba
    rw [h.irrefl] at haa
    exact haa.symm

/-- In a strict total order `a <= b` is the negation of `b < a`. -/
theorem le_eq_not_lt (h : StrictTotalOrder α) (a b : α) :
    Comparable.le a b = !Comparable.lt b a := by
  rw [Bool.eq_iff_iff, h.le_iff, Bool.not_eq_true']
  constructor
  · rintro (hab | rfl)
    · exact h.asymm hab
    · exact h.irrefl a
  · intro hba
    rcases h.trichotomy a b with hab | hab | hab
    · exact Or.inl hab
    · exact Or.inr hab
    · rw [hba] at hab
      exact absurd hab Bool.false_ne_true

/-- `>=` is `<=` with the operands exchanged. -/
theorem ge_eq_le (h : StrictTotalOrder α) (a b : α) :
    Comparable.ge a b = Comparable.le b a := by
  rw [Bool.eq_iff_iff, h.ge_iff, h.le_iff, @eq_comm _ a b]

end StrictTotalOrder

/-! ### The property protocols -/

/-- A property that can be boxed. -/
class ManagedObjectProperty (Object : outParam Type) (Property : Type) where
  _object : Property → AnyObject Object

/-- A property with `==`. -/
class EquatableProperty (Object : outParam Type) (Property : Type)
    extends ManagedObjectProperty Object Property, BEq Property

/-- A property with an order. -/
class ComparableProperty (Object : outParam Type) (Property : Type)
    extends EquatableProperty Object Property, Comparable Property

/-- A property whose description patterns are matched against; `asString` is the conditional
    cast to `String`. -/
class RegexMatchableProperty (Object : outParam Type) (Property : Type)
    extends ManagedObjectProperty Object Property where
  describing : Property → String
  asString : Property → Option String

export ManagedObjectProperty (_object)

section Optional

variable {Object Wrapped : Type}

instance [ManagedObjectProperty Object Wrapped] :
    ManagedObjectProperty Object (Option Wrapped) where
  _object
    | none => .nsNull
    | some wrapped => _object wrapped

instance [EquatableProperty Object Wrapped] : EquatableProperty Object (Option Wrapped) where
  beq lhs rhs := lhs == rhs

/-- `nil` is smaller than every wrapped value. -/
instance [ComparableProperty Object Wrapped] : ComparableProperty Object (Option Wrapped) where
  lt
    | some l, some r => Comparable.lt l r
    | none, some _ => true
    | _, none => false

end Optional

/-! ### Ranges -/

/-- A closed range; its bounds are in order. -/
structure ClosedRange (Bound : Type) [Comparable Bound] where
  lowerBound : Bound
  upperBound : Bound
  ordered : Comparable.le lowerBound upperBound = true

/-- Swift's `contains`. -/
def ClosedRange.contains {Bound : Type} [Comparable Bound] (range : ClosedRange Bound)
    (element : Bound) : Bool :=
  Comparable.ge element range.lowerBound && Comparable.le element range.upperBound

end QBRepository
