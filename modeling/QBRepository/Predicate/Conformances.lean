import QBRepository.Lib.Ieee
import QBRepository.Predicate.Property

namespace QBRepository

/-!
# The conformances of `Property.swift`

The types the library declares as comparable, with the comparisons Swift gives them, and the
strings, which patterns are matched against.

* `NSObject` — the objects properties are boxed into;
* `SwiftFloat`, `SwiftDouble`, `SwiftDate`, `NSDate` — a type provides its own `>`, `<=` and
  `>=`, or takes the defaults of `Comparable`;
* `DeclaredType` — the declared comparable types, with optionals of any depth.
-/

abbrev SwiftFloat := BinaryFloat binary32

abbrev SwiftDouble := BinaryFloat binary64

/-- `Date`, known by its `timeIntervalSinceReferenceDate`. -/
structure SwiftDate where
  timeIntervalSinceReferenceDate : SwiftDouble
deriving DecidableEq

structure NSDate where
  timeIntervalSinceReferenceDate : SwiftDouble
deriving DecidableEq

/-- The objects properties are boxed into: numbers, dates and strings. -/
inductive NSObject where
  | integer (value : Int64)
  | float (value : SwiftFloat)
  | double (value : SwiftDouble)
  | date (value : NSDate)
  | string (value : String)
deriving DecidableEq

/-! ### Numbers -/

instance : ComparableProperty NSObject Int16 where
  _object value := .object (.integer value.toInt64)
  lt a b := decide (a < b)

instance : ComparableProperty NSObject Int32 where
  _object value := .object (.integer value.toInt64)
  lt a b := decide (a < b)

instance : ComparableProperty NSObject Int64 where
  _object value := .object (.integer value)
  lt a b := decide (a < b)

instance : ComparableProperty NSObject SwiftFloat where
  _object value := .object (.float value)
  beq := BinaryFloat.eq
  lt := BinaryFloat.lt
  gt a b := b.lt a
  le := BinaryFloat.le
  ge a b := b.le a

instance : ComparableProperty NSObject SwiftDouble where
  _object value := .object (.double value)
  beq := BinaryFloat.eq
  lt := BinaryFloat.lt
  gt a b := b.lt a
  le := BinaryFloat.le
  ge a b := b.le a

/-! ### Dates -/

/-- `Date` provides its own `>`. -/
instance : ComparableProperty NSObject SwiftDate where
  _object value := .object (.date ⟨value.timeIntervalSinceReferenceDate⟩)
  beq a b := a.timeIntervalSinceReferenceDate.eq b.timeIntervalSinceReferenceDate
  lt a b := a.timeIntervalSinceReferenceDate.lt b.timeIntervalSinceReferenceDate
  gt a b := b.timeIntervalSinceReferenceDate.lt a.timeIntervalSinceReferenceDate

/-- `NSDate.compare` -/
def NSDate.compare (lhs rhs : NSDate) : Ordering :=
  if lhs.timeIntervalSinceReferenceDate.lt rhs.timeIntervalSinceReferenceDate then .lt
  else if rhs.timeIntervalSinceReferenceDate.lt lhs.timeIntervalSinceReferenceDate then .gt
  else .eq

/-- `==` is `isEqual`; `<` is the one of the library. -/
instance : ComparableProperty NSObject NSDate where
  _object value := .object (.date value)
  beq a b := a.timeIntervalSinceReferenceDate.eq b.timeIntervalSinceReferenceDate
  lt lhs rhs := lhs.compare rhs == .lt

/-- Dates are compared by their time intervals. -/
theorem NSDate.lt_eq (a b : NSDate) :
    Comparable.lt a b = a.timeIntervalSinceReferenceDate.lt b.timeIntervalSinceReferenceDate := by
  show (a.compare b == .lt) = _
  unfold NSDate.compare
  cases a.timeIntervalSinceReferenceDate.lt b.timeIntervalSinceReferenceDate with
  | true => rfl
  | false =>
    cases b.timeIntervalSinceReferenceDate.lt a.timeIntervalSinceReferenceDate with
    | true => rfl
    | false => rfl

/-! ### Strings -/

instance : RegexMatchableProperty NSObject String where
  _object value := .object (.string value)
  describing value := value
  asString value := some value

/-- A hexadecimal digit. -/
def hexDigit (n : Nat) : Char := Char.ofNat (if n < 10 then n + 48 else n - 10 + 65)

/-- `Unicode.Scalar.escaped(asASCII: false)` -/
def escaped (c : Char) : List Char :=
  if c = '\\' || c = '\x27' || c = '\x22' then ['\\', c]
  else if ' ' ≤ c && c ≤ '~' then [c]
  else if c = '\x00' then ['\\', '0']
  else if c = '\n' then ['\\', 'n']
  else if c = '\r' then ['\\', 'r']
  else if c = '\t' then ['\\', 't']
  else if c.toNat < 128 then
    ['\\', 'u', '\x7b', hexDigit (c.toNat / 16), hexDigit (c.toNat % 16), '\x7d']
  else [c]

/-- `String.debugDescription` -/
def debugDescription (value : String) : String :=
  "\"" ++ String.ofList (value.toList.flatMap escaped) ++ "\""

/-- What `String(describing:)` makes of an optional string. -/
def describingOptional : Option String → String
  | some value => "Optional(" ++ debugDescription value ++ ")"
  | none => "nil"

instance : RegexMatchableProperty NSObject (Option String) where
  describing := describingOptional
  asString value := value

/-! ### The declared types -/

/-- A comparable type the library declares; `int` is `Int` on a platform of 64 bits. -/
inductive DeclaredType where
  | int16
  | int32
  | int64
  | int
  | float
  | double
  | date
  | nsDate
  | optional (wrapped : DeclaredType)

namespace DeclaredType

/-- The values of the type. -/
def Value : DeclaredType → Type
  | .int16 => Int16
  | .int32 => Int32
  | .int64 | .int => Int64
  | .float => SwiftFloat
  | .double => SwiftDouble
  | .date => SwiftDate
  | .nsDate => NSDate
  | .optional wrapped => Option wrapped.Value

/-- Its conformance to `ComparableProperty`. -/
instance comparableProperty : (t : DeclaredType) → ComparableProperty NSObject t.Value
  | .int16 => inferInstanceAs (ComparableProperty NSObject Int16)
  | .int32 => inferInstanceAs (ComparableProperty NSObject Int32)
  | .int64 | .int => inferInstanceAs (ComparableProperty NSObject Int64)
  | .float => inferInstanceAs (ComparableProperty NSObject SwiftFloat)
  | .double => inferInstanceAs (ComparableProperty NSObject SwiftDouble)
  | .date => inferInstanceAs (ComparableProperty NSObject SwiftDate)
  | .nsDate => inferInstanceAs (ComparableProperty NSObject NSDate)
  | .optional wrapped =>
    have := comparableProperty wrapped
    inferInstanceAs (ComparableProperty NSObject (Option wrapped.Value))

/-- The type compares with the operators of IEEE 754. -/
def isFloatingPoint : DeclaredType → Bool
  | .float | .double => true
  | .int16 | .int32 | .int64 | .int | .date | .nsDate | .optional _ => false

/-- Two values are unordered: numbers or dates, under the same optionals, one of them a NaN. -/
def unordered : (t : DeclaredType) → t.Value → t.Value → Bool
  | .int16, _, _ | .int32, _, _ | .int64, _, _ | .int, _, _ => false
  | .float, (a : SwiftFloat), (b : SwiftFloat) => a.unordered b
  | .double, (a : SwiftDouble), (b : SwiftDouble) => a.unordered b
  | .date, (a : SwiftDate), (b : SwiftDate) =>
    a.timeIntervalSinceReferenceDate.unordered b.timeIntervalSinceReferenceDate
  | .nsDate, (a : NSDate), (b : NSDate) =>
    a.timeIntervalSinceReferenceDate.unordered b.timeIntervalSinceReferenceDate
  | .optional wrapped, some a, some b => wrapped.unordered a b
  | .optional _, none, _ | .optional _, some _, none => false

end DeclaredType

end QBRepository
