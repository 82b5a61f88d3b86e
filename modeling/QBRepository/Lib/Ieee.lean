import Mathlib.Init

namespace QBRepository

/-!
# Comparing binary floating-point numbers

Only the order of IEEE 754 data matters here: a datum is a bit pattern, and its comparisons go
by its exact value; with a NaN all of them are false.

* `Trichotomy` — exactly one of "less", "equal" and "greater" holds;
* `BinaryFloat.compare_cases` — the comparisons of two data, one of which may be NaN.
-/

/-- Exactly one of `less`, `equal` and `greater` holds. -/
inductive Trichotomy : (less equal greater : Bool) → Prop
  | less : Trichotomy true false false
  | equal : Trichotomy false true false
  | greater : Trichotomy false false true

/-- Integers compare in exactly one way. -/
theorem trichotomy_int (a b : Int) :
    Trichotomy (decide (a < b)) (decide (a = b)) (decide (b < a)) := by
  rcases Int.lt_trichotomy a b with h | h | h
  · rw [decide_eq_true h, decide_eq_false (by omega), decide_eq_false (by omega)]
    exact .less
  · rw [decide_eq_false (by omega), decide_eq_true h, decide_eq_false (by omega)]
    exact .equal
  · rw [decide_eq_false (by omega), decide_eq_false (by omega), decide_eq_true h]
    exact .greater

/-- The widths of the exponent and of the fraction of a binary format. -/
structure BinaryFormat where
  exponentBits : Nat
  fractionBits : Nat

def binary32 : BinaryFormat := ⟨8, 23⟩

def binary64 : BinaryFormat := ⟨11, 52⟩

/-- A datum: sign, exponent and fraction, from the highest bit down. -/
structure BinaryFloat (format : BinaryFormat) where
  bits : BitVec (1 + format.exponentBits + format.fractionBits)
deriving DecidableEq

namespace BinaryFloat

variable {format : BinaryFormat} (x y : BinaryFloat format)

def sign : Bool := x.bits.msb

def exponent : BitVec format.exponentBits :=
  (x.bits >>> format.fractionBits).setWidth format.exponentBits

def fraction : BitVec format.fractionBits := x.bits.setWidth format.fractionBits

/-- The exponent is all ones, the fraction is not zero. -/
def isNaN : Bool := x.exponent == BitVec.allOnes format.exponentBits && x.fraction != 0

/-- The exact magnitude in units of the smallest subnormal; infinity, whose exponent is all ones,
    comes above the finite values. -/
def magnitude : Nat :=
  if x.exponent = 0 then x.fraction.toNat
  else (1 <<< format.fractionBits + x.fraction.toNat) <<< (x.exponent.toNat - 1)

/-- The exact value in units of the smallest subnormal; the two zeros have the same. -/
def value : Int := if x.sign then -x.magnitude else x.magnitude

/-- A comparison of values, false with a NaN. -/
def compareValues (condition : Int → Int → Bool) : Bool :=
  !x.isNaN && !y.isNaN && condition x.value y.value

def lt : Bool := x.compareValues y fun a b => decide (a < b)

def eq : Bool := x.compareValues y fun a b => decide (a = b)

def le : Bool := x.compareValues y fun a b => decide (a ≤ b)

/-- The data are unordered: one of them is a NaN. -/
def unordered : Bool := x.isNaN || y.isNaN

/-- Unordered data do not compare in any way; others compare in exactly one. -/
theorem compare_cases :
    (x.unordered y = true ∧ x.lt y = false ∧ x.eq y = false ∧ y.lt x = false) ∨
      x.unordered y = false ∧ Trichotomy (x.lt y) (x.eq y) (y.lt x) := by
  cases hx : x.isNaN with
  | true => exact Or.inl (by simp [unordered, lt, eq, compareValues, hx])
  | false =>
    cases hy : y.isNaN with
    | true => exact Or.inl (by simp [unordered, lt, eq, compareValues, hy])
    | false =>
      refine Or.inr ⟨by simp [unordered, hx, hy], ?_⟩
      simpa [lt, eq, compareValues, hx, hy] using trichotomy_int x.value y.value

/-- `<=` is `<` or `==`, also where one of the data is NaN. -/
theorem le_eq_lt_or_eq : x.le y = (x.lt y || x.eq y) := by
  simp only [le, lt, eq, compareValues, ← Bool.and_or_distrib_left]
  congr 1
  rw [Bool.eq_iff_iff]
  simp only [decide_eq_true_eq, Bool.or_eq_true]
  omega

/-- `==` is symmetric. -/
theorem eq_comm : x.eq y = y.eq x := by
  have hvalue : decide (x.value = y.value) = decide (y.value = x.value) :=
    decide_eq_decide.mpr Eq.comm
  simp only [eq, compareValues]
  rw [hvalue, Bool.and_comm (!x.isNaN)]

/-- `>=` is `>` or `==`. -/
theorem ge_eq_gt_or_eq : y.le x = (y.lt x || x.eq y) := by
  rw [le_eq_lt_or_eq, eq_comm]

end BinaryFloat

end QBRepository
