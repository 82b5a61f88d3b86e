import Mathlib.Data.Set.Defs
import QBRepository.Predicate.Agreement

namespace QBRepository

/-!
# Filtering in memory and in the store, on optional data

The library orders `nil` below every value; a store takes every `<` with null on one side to
be false.  The two forms of an ordering operator therefore part where `nil` is stored and
the operand is a value, and only there (`OptionalLeaf.agrees_iff`).

`optional_agrees_iff` — all predicates built from some comparisons of optionals agree on a
model exactly when no ordering comparison among them compares a stored `nil` with a value.
-/

variable {Object Model : Type}

/-- The comparison operators. -/
inductive Comparison where
  | equal
  | notEqual
  | less
  | lessOrEqual
  | greater
  | greaterOrEqual

/-- The operator reads the order. -/
def Comparison.IsOrdering : Comparison → Prop
  | .equal | .notEqual => False
  | .less | .lessOrEqual | .greater | .greaterOrEqual => True

/-- A comparison of an optional property that the store resolves and orders. -/
structure OptionalLeaf (S : Store Object Model) where
  {Property : Type}
  [comparable : ComparableProperty Object Property]
  orders : S.Orders Property
  keyPath : KeyPath Model (Option Property)
  resolves : keyPath.Resolves S
  op : Comparison
  operand : Option Property

attribute [instance] OptionalLeaf.comparable

namespace OptionalLeaf

variable {S : Store Object Model}

/-- The predicate its operator builds. -/
def predicate (leaf : OptionalLeaf S) : AnyPredicate Object Model :=
  match leaf.op with
  | .equal => leaf.keyPath.equalOptional leaf.operand
  | .notEqual => leaf.keyPath.notEqualOptional leaf.operand
  | .less => leaf.keyPath.less leaf.operand
  | .lessOrEqual => leaf.keyPath.lessOrEqual leaf.operand
  | .greater => leaf.keyPath.greater leaf.operand
  | .greaterOrEqual => leaf.keyPath.greaterOrEqual leaf.operand

/-- It does not order a stored `nil` below a value. -/
def ComparesValues (leaf : OptionalLeaf S) (model : Model) : Prop :=
  leaf.op.IsOrdering → leaf.keyPath.get model = none → leaf.operand = none

end OptionalLeaf

section Leaves

variable {S : Store Object Model} {model : Model} {Property : Type}

/-- Boxing `nil` as null keeps equality. -/
theorem Store.Equates.equal_optional [EquatableProperty Object Property]
    (hS : S.Equates Property) (a b : Option Property) :
    S.isEqual (_object a) (_object b) = (a == b) := by
  cases a with
  | none =>
    cases b with
    | none => rfl
    | some b =>
      obtain ⟨o, ho⟩ := hS.boxed b
      show S.isEqual .nsNull (_object b) = false
      rw [ho]
      rfl
  | some a =>
    cases b with
    | none =>
      obtain ⟨o, ho⟩ := hS.boxed a
      show S.isEqual (_object a) .nsNull = false
      rw [ho]
      rfl
    | some b => exact hS.equal a b

/-- Equality with an optional operand is equality of optional values. -/
theorem equalOptionalPredicate_eq [EquatableProperty Object Property]
    (keyPath : KeyPath Model (Option Property)) (property : Option Property) :
    equalOptionalPredicate keyPath property = equalPredicate keyPath property := by
  cases property <;> rfl

variable [ComparableProperty Object Property] {keyPath : KeyPath Model (Option Property)}

/-- What the store makes of `<` on optionals: the order of the library without its `nil`. -/
theorem Store.Orders.less_optional (hS : S.Orders Property) (a b : Option Property) :
    S.isLess (_object a) (_object b) = (a.isSome && Comparable.lt a b) := by
  cases a with
  | none => cases h : (_object b : AnyObject Object) <;> rfl
  | some a =>
    cases b with
    | none =>
      obtain ⟨o, ho⟩ := hS.boxed a
      show S.isLess (_object a) .nsNull = false
      rw [ho]
      rfl
    | some b => exact hS.less a b

/-- **`<` agrees unless a stored `nil` meets a value.** -/
theorem smallerPredicate_agrees_iff (hkp : keyPath.Resolves S) (hS : S.Orders Property)
    (property : Option Property) :
    (smallerPredicate keyPath property).Agrees S model ↔
      (keyPath.get model = none → property = none) := by
  obtain ⟨key, hkey, hvalue⟩ := hkp
  have hagrees : (smallerPredicate keyPath property).Agrees S model ↔
      S.isLess (_object (keyPath.get model)) (_object property)
        = Comparable.lt (keyPath.get model) property := by
    simp only [AnyPredicate.Agrees, smallerPredicate, KeyPath.format, hkey, Option.map_some,
      Store.holds, hvalue, Option.some.injEq]
  rw [hagrees, hS.less_optional]
  cases keyPath.get model with
  | some a => simp
  | none =>
    cases property with
    | none => exact iff_of_true rfl fun _ => rfl
    | some b => exact iff_of_false Bool.false_ne_true fun h => Option.some_ne_none b (h rfl)

/-- Joining `==` to `<` does not change where the forms part. -/
theorem smallerOrEqual_agrees_iff (hkp : keyPath.Resolves S) (hS : S.Orders Property)
    (property : Option Property) :
    ((smallerPredicate keyPath property).or (equalPredicate keyPath property)).Agrees S model ↔
      (keyPath.get model = none → property = none) := by
  have hequal : (equalPredicate keyPath property).Agrees S model :=
    equalPredicate_agrees hkp hS.equal_optional property
  constructor
  · intro h hnone
    cases property with
    | none => rfl
    | some b =>
      -- the equality refutes a stored `nil`, so the disagreement of `<` shows
      have hfalse : (equalPredicate keyPath (some b)).evaluate model = false := by
        show (keyPath.get model == some b) = false
        rw [hnone]
        rfl
      exact (smallerPredicate_agrees_iff hkp hS _).mp (h.of_or hequal hfalse) hnone
  · intro h
    exact ((smallerPredicate_agrees_iff hkp hS property).mpr h).or hequal

end Leaves

/-- **One comparison agrees exactly when it does not order a stored `nil` below a value.** -/
theorem OptionalLeaf.agrees_iff {S : Store Object Model} {model : Model}
    (leaf : OptionalLeaf S) : leaf.predicate.Agrees S model ↔ leaf.ComparesValues model := by
  obtain ⟨hS, keyPath, hkp, op, operand⟩ := leaf
  have hequal : (keyPath.equalOptional operand).Agrees S model := by
    rw [KeyPath.equalOptional, equalOptionalPredicate_eq]
    exact equalPredicate_agrees hkp hS.equal_optional operand
  have hless : (keyPath.less operand).Agrees S model ↔ _ :=
    smallerPredicate_agrees_iff hkp hS operand
  have hlessOrEqual : (keyPath.lessOrEqual operand).Agrees S model ↔ _ :=
    smallerOrEqual_agrees_iff hkp hS operand
  cases op with
  | equal => exact ⟨fun _ h => h.elim, fun _ => hequal⟩
  | notEqual => exact ⟨fun _ h => h.elim, fun _ => hequal.not⟩
  | less => exact hless.trans (true_imp_iff).symm
  | lessOrEqual => exact hlessOrEqual.trans (true_imp_iff).symm
  | greater => exact (AnyPredicate.agrees_not.trans hlessOrEqual).trans (true_imp_iff).symm
  | greaterOrEqual => exact (AnyPredicate.agrees_not.trans hless).trans (true_imp_iff).symm

/-- **Optional data.** All predicates built from some comparisons select a model alike in
    memory and in the store exactly when none of the comparisons orders a stored `nil` below
    a value. -/
theorem optional_agrees_iff {S : Store Object Model} (model : Model)
    (leaves : Set (OptionalLeaf S)) :
    (∀ p, Built (fun p => ∃ leaf ∈ leaves, p = leaf.predicate) p → p.Agrees S model) ↔
      ∀ leaf ∈ leaves, leaf.ComparesValues model := by
  constructor
  · intro h leaf hleaf
    exact leaf.agrees_iff.mp (h _ (.leaf ⟨leaf, hleaf, rfl⟩))
  · intro h p hp
    refine hp.agrees ?_
    rintro _ ⟨leaf, hleaf, rfl⟩
    exact leaf.agrees_iff.mpr (h leaf hleaf)

/-- `rating < 5` selects a person without rating in memory, but not in the store. -/
theorem not_optional_agrees_rating :
    ¬ ∀ (model : Sample.Person) (leaves : Set (OptionalLeaf Sample.persons)),
      ∀ p, Built (fun p => ∃ leaf ∈ leaves, p = leaf.predicate) p →
        p.Agrees Sample.persons model := by
  intro h
  let leaf : OptionalLeaf Sample.persons :=
    ⟨Sample.persons_orders, Sample.rating, Sample.rating_resolves, .less, some 5⟩
  have hagrees := h ⟨20, none⟩ {leaf} _ (.leaf ⟨leaf, rfl, rfl⟩)
  have hfalse : some false = some true := hagrees
  simp at hfalse

end QBRepository
