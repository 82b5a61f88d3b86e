import QBRepository.Predicate.Predicate

namespace QBRepository

/-!
# Compounds of a list

`AndPredicate.compoundPredicate` and `OrPredicate.compoundPredicate` end in the same
`EmptyPredicate`, which is neutral for "and" only.

* `evaluate_compoundAnd` — the first compound is the conjunction of the list;
* `evaluate_compoundOr` — the second one holds on every model;
* `isDisjunction_iff` — when it is the disjunction of the list.
-/

namespace AnyPredicate

variable {Object Model : Type}

/-- A conjunction holds if all predicates hold. -/
theorem evaluate_compoundAnd (ps : List (AnyPredicate Object Model)) (model : Model) :
    (compoundAnd ps).evaluate model = ps.all (·.evaluate model) := by
  induction ps with
  | nil => rfl
  | cons p ps ih => rw [List.all_cons, ← ih, compoundAnd, and]

/-- A disjunction always holds, for it ends in the empty predicate. -/
theorem evaluate_compoundOr (ps : List (AnyPredicate Object Model)) (model : Model) :
    (compoundOr ps).evaluate model = true := by
  induction ps with
  | nil => rfl
  | cons p ps ih =>
    show (p.evaluate model || (compoundOr ps).evaluate model) = true
    rw [ih, Bool.or_true]

/-- On the model, `compoundPredicate` is the disjunction of the predicates, and its negation the
    conjunction of their negations. -/
structure IsDisjunction (ps : List (AnyPredicate Object Model)) (model : Model) : Prop where
  iff_exists : (compoundOr ps).evaluate model = true ↔ ∃ p ∈ ps, p.evaluate model = true
  deMorgan : (compoundOr ps).not.evaluate model = (compoundAnd (ps.map not)).evaluate model

/-- The negations of the predicates hold together when none of the predicates holds. -/
theorem evaluate_compoundAnd_not (ps : List (AnyPredicate Object Model)) (model : Model) :
    (compoundAnd (ps.map not)).evaluate model = !ps.any (·.evaluate model) := by
  rw [evaluate_compoundAnd, List.all_map, List.not_any_eq_all_not]
  rfl

/-- **`compoundPredicate` is a disjunction** on a model exactly when one of the predicates holds
    there. -/
theorem isDisjunction_iff (ps : List (AnyPredicate Object Model)) (model : Model) :
    IsDisjunction ps model ↔ ∃ p ∈ ps, p.evaluate model = true := by
  constructor
  · intro h
    exact h.iff_exists.mp (evaluate_compoundOr ps model)
  · intro h
    refine ⟨iff_of_true (evaluate_compoundOr ps model) h, ?_⟩
    show (!(compoundOr ps).evaluate model) = _
    rw [evaluate_compoundAnd_not, List.any_eq_true.mpr h, evaluate_compoundOr]

/-- The disjunction of a predicate that does not hold. -/
theorem not_isDisjunction_singleton :
    ¬ ∀ (ps : List (AnyPredicate Unit Unit)) (model : Unit), ps ≠ [] → IsDisjunction ps model := by
  intro h
  have hexists := (h [empty.not] () (List.cons_ne_nil _ _)).iff_exists.mp rfl
  simp [not, empty] at hexists

end AnyPredicate

end QBRepository
