import QBRepository.Predicate.Conformances
import QBRepository.Predicate.Optional

namespace QBRepository

/-!
# The comparison operators in memory

The library derives `>`, `>=` and `<=` from `<` and `==` by negation and disjunction, which is
right as long as two values are comparable.

* `DeclaredType.compare_cases` — two values of a declared type are unordered, or compare in
  exactly one way;
* `comparison_evaluates_iff` — when the predicate of an operator evaluates to what Swift's own
  operator gives.
-/

variable {Object Model : Type}

namespace Comparison

/-- Swift's own operator. -/
def apply {T : Type} [Comparable T] (op : Comparison) (a b : T) : Bool :=
  match op with
  | .equal => a == b
  | .notEqual => a != b
  | .less => Comparable.lt a b
  | .lessOrEqual => Comparable.le a b
  | .greater => Comparable.gt a b
  | .greaterOrEqual => Comparable.ge a b

/-- The predicate the operator builds on a key path. -/
def predicate {Property : Type} [ComparableProperty Object Property] (op : Comparison)
    (lhs : KeyPath Model Property) (rhs : Property) : AnyPredicate Object Model :=
  match op with
  | .equal => lhs.equal rhs
  | .notEqual => lhs.notEqual rhs
  | .less => lhs.less rhs
  | .lessOrEqual => lhs.lessOrEqual rhs
  | .greater => lhs.greater rhs
  | .greaterOrEqual => lhs.greaterOrEqual rhs

/-- The predicate it builds on a key path to an optional. -/
def optionalPredicate {Property : Type} [ComparableProperty Object Property] (op : Comparison)
    (lhs : KeyPath Model (Option Property)) (rhs : Option Property) :
    AnyPredicate Object Model :=
  match op with
  | .equal => lhs.equalOptional rhs
  | .notEqual => lhs.notEqualOptional rhs
  | .less => lhs.less rhs
  | .lessOrEqual => lhs.lessOrEqual rhs
  | .greater => lhs.greater rhs
  | .greaterOrEqual => lhs.greaterOrEqual rhs

/-- How the library derives the operator from `<` and `==`. -/
def derived {T : Type} [Comparable T] (op : Comparison) (a b : T) : Bool :=
  match op with
  | .equal => a == b
  | .notEqual => !(a == b)
  | .less => Comparable.lt a b
  | .lessOrEqual => Comparable.lt a b || a == b
  | .greater => !(Comparable.lt a b || a == b)
  | .greaterOrEqual => !Comparable.lt a b

section Evaluate

variable {Property : Type} [ComparableProperty Object Property] (op : Comparison) (model : Model)

/-- An operator evaluates as its comparison. -/
theorem evaluate_predicate (lhs : KeyPath Model Property) (rhs : Property) :
    (op.predicate lhs rhs).evaluate model = op.derived (lhs.get model) rhs := by
  cases op <;> rfl

/-- So does the operator on an optional property. -/
theorem evaluate_optionalPredicate (lhs : KeyPath Model (Option Property))
    (rhs : Option Property) :
    (op.optionalPredicate lhs rhs).evaluate model = op.derived (lhs.get model) rhs := by
  cases op <;> rfl

end Evaluate

end Comparison

/-! ### The declared types -/

/-- Machine integers compare as the integers they stand for. -/
theorem trichotomy_of_toInt {α : Type} [LT α] [DecidableLT α] [DecidableEq α] {toInt : α → Int}
    (hlt : ∀ {a b}, a < b ↔ toInt a < toInt b) (hinj : ∀ {a b}, toInt a = toInt b ↔ a = b)
    (a b : α) : Trichotomy (decide (a < b)) (decide (a = b)) (decide (b < a)) := by
  have h := trichotomy_int (toInt a) (toInt b)
  simpa only [← hlt, hinj] using h

/-- Dates compare as their intervals do. -/
theorem compare_cases_nsDate (a b : NSDate) :
    (a.timeIntervalSinceReferenceDate.unordered b.timeIntervalSinceReferenceDate = true ∧
        Comparable.lt a b = false ∧ (a == b) = false ∧ Comparable.lt b a = false) ∨
      a.timeIntervalSinceReferenceDate.unordered b.timeIntervalSinceReferenceDate = false ∧
        Trichotomy (Comparable.lt a b) (a == b) (Comparable.lt b a) := by
  rw [NSDate.lt_eq, NSDate.lt_eq]
  exact BinaryFloat.compare_cases _ _

namespace DeclaredType

/-- Unordered values do not compare in any way; others compare in exactly one. -/
theorem compare_cases (t : DeclaredType) (a b : t.Value) :
    (t.unordered a b = true ∧ Comparable.lt a b = false ∧ (a == b) = false ∧
        Comparable.lt b a = false) ∨
      t.unordered a b = false ∧
        Trichotomy (Comparable.lt a b) (a == b) (Comparable.lt b a) := by
  induction t with
  | int16 => exact Or.inr ⟨rfl, trichotomy_of_toInt Int16.lt_iff_toInt_lt Int16.toInt_inj a b⟩
  | int32 => exact Or.inr ⟨rfl, trichotomy_of_toInt Int32.lt_iff_toInt_lt Int32.toInt_inj a b⟩
  | int64 | int =>
    exact Or.inr ⟨rfl, trichotomy_of_toInt Int64.lt_iff_toInt_lt Int64.toInt_inj a b⟩
  | float => exact BinaryFloat.compare_cases a b
  | double => exact BinaryFloat.compare_cases a b
  | date => exact BinaryFloat.compare_cases _ _
  | nsDate => exact compare_cases_nsDate a b
  | optional wrapped ih =>
    cases a with
    | none =>
      cases b with
      | none => exact Or.inr ⟨rfl, .equal⟩
      | some b => exact Or.inr ⟨rfl, .less⟩
    | some a =>
      cases b with
      | none => exact Or.inr ⟨rfl, .greater⟩
      | some b => exact ih a b

/-- `>` is `<` with the operands exchanged. -/
theorem gt_eq (t : DeclaredType) (a b : t.Value) : Comparable.gt a b = Comparable.lt b a := by
  cases t <;> rfl

/-- `<=` is the negation of the exchanged `<`, except on floating point numbers. -/
theorem le_eq (t : DeclaredType) (a b : t.Value) :
    Comparable.le a b =
      if t.isFloatingPoint then Comparable.lt a b || a == b else !Comparable.lt b a := by
  cases t with
  | float | double => exact BinaryFloat.le_eq_lt_or_eq a b
  | _ => rfl

/-- `>=` is the negation of `<`, except on floating point numbers. -/
theorem ge_eq (t : DeclaredType) (a b : t.Value) :
    Comparable.ge a b =
      if t.isFloatingPoint then Comparable.lt b a || a == b else !Comparable.lt a b := by
  cases t with
  | float | double => exact BinaryFloat.ge_eq_gt_or_eq a b
  | _ => rfl

/-- The operator is right on two values: it does not rest on the values being comparable, or
    they are. -/
def Compares (t : DeclaredType) (op : Comparison) (a b : t.Value) : Prop :=
  match op with
  | .equal | .notEqual | .less => True
  | .lessOrEqual => t.isFloatingPoint = true ∨ t.unordered a b = false
  | .greater => t.unordered a b = false
  | .greaterOrEqual => t.isFloatingPoint = false ∨ t.unordered a b = false

/-- **The derived operators are Swift's** exactly where they compare. -/
theorem derived_eq_apply_iff (t : DeclaredType) (op : Comparison) (a b : t.Value) :
    op.derived a b = op.apply a b ↔ t.Compares op a b := by
  have hcases := t.compare_cases a b
  cases op with
  | equal | notEqual | less => exact iff_of_true rfl trivial
  | greater | lessOrEqual | greaterOrEqual =>
    simp only [Comparison.derived, Comparison.apply, Compares, gt_eq, le_eq, ge_eq]
    -- what is left depends on the three comparisons only
    generalize Comparable.lt a b = less, (a == b) = equal, Comparable.lt b a = greater at hcases ⊢
    rcases hcases with ⟨hun, rfl, rfl, rfl⟩ | ⟨hun, hcompare⟩
    · cases t.isFloatingPoint <;> simp [hun]
    · cases hcompare <;> cases t.isFloatingPoint <;> simp [hun]

end DeclaredType

/-- **The comparison operators mean the Swift comparisons**, on a declared type and on an
    optional of it, unless a NaN is compared by an operator that is derived for comparable
    values. -/
theorem comparison_evaluates_iff (t : DeclaredType) (op : Comparison) (model : Model) :
    (∀ (lhs : KeyPath Model t.Value) (rhs : t.Value),
      (op.predicate lhs rhs).evaluate model = op.apply (lhs.get model) rhs ↔
        t.Compares op (lhs.get model) rhs) ∧
    ∀ (lhs : KeyPath Model (Option t.Value)) (rhs : Option t.Value),
      (op.optionalPredicate lhs rhs).evaluate model = op.apply (lhs.get model) rhs ↔
        (DeclaredType.optional t).Compares op (lhs.get model) rhs := by
  constructor
  · intro lhs rhs
    rw [Comparison.evaluate_predicate]
    exact t.derived_eq_apply_iff op (lhs.get model) rhs
  · intro lhs rhs
    rw [Comparison.evaluate_optionalPredicate]
    exact (DeclaredType.optional t).derived_eq_apply_iff op (lhs.get model) rhs

namespace Sample

/-- A quiet NaN. -/
def nan : SwiftDouble := ⟨BitVec.ofNat _ 0x7FF8000000000000⟩

def one : SwiftDouble := ⟨BitVec.ofNat _ 0x3FF0000000000000⟩

/-- A number as its own property. -/
def double : KeyPath SwiftDouble SwiftDouble := ⟨id, some "double"⟩

end Sample

/-- A NaN is not greater than one, but the predicate holds on it. -/
theorem not_evaluates_nan :
    (Comparison.greater.predicate Sample.double Sample.one).evaluate Sample.nan ≠
      Comparison.greater.apply (Sample.double.get Sample.nan) Sample.one := by
  decide

end QBRepository
