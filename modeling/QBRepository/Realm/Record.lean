import Mathlib.Data.List.Basic

namespace QBRepository

/-!
# Properties

The values of an object's properties, over any kind of references to other objects.

* `Value`, `Record` — properties and their targets;
* `Value.filterMap`, `Record.filterMap` — replace or drop targets; `Record.map` replaces them.
-/

/-- The value of a property: a scalar (or anything else without objects in it), an object
    link, or a list of objects. -/
inductive Value (Scalar ρ : Type) where
  | scalar (value : Scalar)
  | object (target : Option ρ)
  | list (targets : List ρ)

/-- An object of a class with the values of its properties. -/
structure Record (Scalar ρ : Type) where
  className : String
  properties : List (String × Value Scalar ρ)

variable {Scalar ρ σ τ : Type}

namespace Value

/-- The objects a value leads to, in order. -/
def targets : Value Scalar ρ → List ρ
  | .scalar _ => []
  | .object target => target.toList
  | .list targets => targets

/-- Replace or drop every target. -/
def filterMap (f : ρ → Option σ) : Value Scalar ρ → Value Scalar σ
  | .scalar value => .scalar value
  | .object target => .object (target.bind f)
  | .list targets => .list (targets.filterMap f)

/-- The links that are left. -/
theorem targets_filterMap (f : ρ → Option σ) (v : Value Scalar ρ) :
    (v.filterMap f).targets = v.targets.filterMap f := by
  cases v with
  | scalar value => rfl
  | object target =>
    cases target with
    | none => rfl
    | some t => cases h : f t <;> simp [filterMap, targets, h]
  | list ts => rfl

/-- Links are changed twice. -/
theorem filterMap_filterMap (g : σ → Option τ) (f : ρ → Option σ) (v : Value Scalar ρ) :
    (v.filterMap f).filterMap g = v.filterMap fun t => (f t).bind g := by
  cases v with
  | scalar value => rfl
  | object target => cases target <;> rfl
  | list ts => simp [filterMap, List.filterMap_filterMap]

/-- Changes that agree on the links of a value. -/
theorem filterMap_congr {f g : ρ → Option σ} {v : Value Scalar ρ}
    (h : ∀ t ∈ v.targets, f t = g t) : v.filterMap f = v.filterMap g := by
  cases v with
  | scalar value => rfl
  | object target =>
    cases target with
    | none => rfl
    | some t => exact congrArg Value.object (h t (by simp [targets]))
  | list ts => exact congrArg Value.list (List.filterMap_congr h)

/-- All links are kept. -/
theorem filterMap_some (v : Value Scalar ρ) : v.filterMap some = v := by
  cases v with
  | scalar value => rfl
  | object target => cases target <;> rfl
  | list ts => simp [filterMap]

end Value

namespace Record

/-- The objects a record leads to, in the order of its properties. -/
def targets (record : Record Scalar ρ) : List ρ := record.properties.flatMap fun p => p.2.targets

/-- Replace or drop every target. -/
def filterMap (f : ρ → Option σ) (record : Record Scalar ρ) : Record Scalar σ where
  className := record.className
  properties := record.properties.map fun p => (p.1, p.2.filterMap f)

/-- Replace every target. -/
def map (f : ρ → σ) (record : Record Scalar ρ) : Record Scalar σ :=
  record.filterMap fun t => some (f t)

@[simp] theorem className_filterMap (f : ρ → Option σ) (record : Record Scalar ρ) :
    (record.filterMap f).className = record.className := rfl

/-- The links that are left in the record. -/
theorem targets_filterMap (f : ρ → Option σ) (record : Record Scalar ρ) :
    (record.filterMap f).targets = record.targets.filterMap f := by
  simp only [targets, filterMap, List.flatMap_map, List.filterMap_flatMap,
    Value.targets_filterMap]

@[simp] theorem targets_map (f : ρ → σ) (record : Record Scalar ρ) :
    (record.map f).targets = record.targets.map f := by
  rw [map, targets_filterMap, List.filterMap_eq_map']

/-- The links of a record are changed twice. -/
theorem filterMap_filterMap (g : σ → Option τ) (f : ρ → Option σ) (record : Record Scalar ρ) :
    (record.filterMap f).filterMap g = record.filterMap fun t => (f t).bind g := by
  simp only [filterMap, List.map_map, Function.comp_def, Value.filterMap_filterMap]

/-- Changes that agree on the links of a record. -/
theorem filterMap_congr {f g : ρ → Option σ} {record : Record Scalar ρ}
    (h : ∀ t ∈ record.targets, f t = g t) : record.filterMap f = record.filterMap g := by
  refine congrArg (Record.mk _) (List.map_congr_left fun p hp => ?_)
  rw [Value.filterMap_congr fun t ht => h t (List.mem_flatMap.mpr ⟨p, hp, ht⟩)]

/-- All links of the record are kept. -/
theorem filterMap_some (record : Record Scalar ρ) : record.filterMap some = record := by
  cases record
  simp [filterMap, Value.filterMap_some]

/-- The same for links that are renamed. -/
theorem map_congr {f g : ρ → σ} {record : Record Scalar ρ}
    (h : ∀ t ∈ record.targets, f t = g t) : record.map f = record.map g :=
  filterMap_congr fun t ht => congrArg some (h t ht)

/-- The links are renamed twice. -/
theorem map_map (g : σ → τ) (f : ρ → σ) (record : Record Scalar ρ) :
    (record.map f).map g = record.map fun t => g (f t) := filterMap_filterMap _ _ record

end Record

end QBRepository
