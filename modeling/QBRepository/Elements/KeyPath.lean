import QBRepository.Lib.Grouping
import QBRepository.Predicate.Predicate

namespace QBRepository

/-!
# Sort keys and distinct keys

The two erased key paths of `getElements(filteredBy:sortedBy:distinctUsing:)`.

* `ComparableKeyPath` — a key path reduced to the comparison of two models;
* `HashableKeyPath` — a key path reduced to the hash value of a model;
* `filteredBy`, `sortedBy`, `distinctUsing` — the three optional steps on a list of models.
-/

variable {Object Model : Type}

/-- Swift's `Hashable`: equal values have the same hash value. -/
class HashableValue (α : Type) extends BEq α, EquivBEq α where
  hashValue : α → Int
  hashValue_eq : ∀ a b : α, (a == b) = true → hashValue a = hashValue b

export HashableValue (hashValue)

/-- The values are strictly weakly ordered by `<`. -/
abbrev Comparable.Weak (α : Type) [Comparable α] : Prop :=
  IsStrictWeakOrder α fun a b => Comparable.lt a b = true

/-- `ComparableKeyPath`; `string` is `none` where it traps. -/
structure ComparableKeyPath (Model : Type) where
  isSmaller : Model → Model → Bool
  string : Option String

/-- `HashableKeyPath` -/
structure HashableKeyPath (Model : Type) where
  hashValue : Model → Int
  string : Option String

/-- `init` -/
def ComparableKeyPath.ofKeyPath {T : Type} [Comparable T] (keyPath : KeyPath Model T) :
    ComparableKeyPath Model where
  isSmaller obj1 obj2 := Comparable.lt (keyPath.get obj1) (keyPath.get obj2)
  string := keyPath._kvcKeyPathString

/-- `init` -/
def HashableKeyPath.ofKeyPath {T : Type} [HashableValue T] (keyPath : KeyPath Model T) :
    HashableKeyPath Model where
  hashValue obj := QBRepository.hashValue (keyPath.get obj)
  string := keyPath._kvcKeyPathString

/-- Comparing models by a strictly weakly ordered value orders the models so. -/
theorem ComparableKeyPath.isStrictWeakOrder {T : Type} [Comparable T] (hT : Comparable.Weak T)
    (keyPath : KeyPath Model T) :
    IsStrictWeakOrder Model fun a b => (ofKeyPath keyPath).isSmaller a b = true where
  irrefl a := hT.toIrrefl.irrefl (keyPath.get a)
  trans a b c := hT.toIsTrans.trans (keyPath.get a) (keyPath.get b) (keyPath.get c)
  incomp_trans a b c := hT.incomp_trans (keyPath.get a) (keyPath.get b) (keyPath.get c)

/-! ### The steps -/

section Steps

variable {α : Type}

/-- Keep the objects that meet the filter, if there is one. -/
def filteredBy (filter : Option (α → Bool)) (objects : List α) : List α :=
  match filter with
  | some evaluate => objects.filter evaluate
  | none => objects

/-- Sort the objects, if there is a sort key. -/
def sortedBy (sorting : Sorting α) (isSmaller : Option (α → α → Bool)) (objects : List α) :
    List α :=
  match isSmaller with
  | some isSmaller => sorting.sorted isSmaller objects
  | none => objects

/-- Group the objects by their hash values, if there is a distinct key, and keep the first of
    each group. -/
def distinctUsing (order : Enumeration (Int × List α)) (hashValue : Option (α → Int))
    (objects : List α) : List α :=
  match hashValue with
  | some hashValue => firsts order hashValue objects
  | none => objects

variable {sorting : Sorting α} {objects : List α}

/-- Sorting changes the order only. -/
theorem sortedBy_perm (sorting : Sorting α) (isSmaller : Option (α → α → Bool))
    (objects : List α) : (sortedBy sorting isSmaller objects).Perm objects := by
  cases isSmaller with
  | none => exact .refl objects
  | some isSmaller => exact sorting.perm isSmaller objects

/-- Distinct objects are some of the objects. -/
theorem distinctUsing_subperm (order : Enumeration (Int × List α)) (hashValue : Option (α → Int))
    (objects : List α) : (distinctUsing order hashValue objects).Subperm objects := by
  cases hashValue with
  | none => exact List.Subperm.refl objects
  | some hashValue => exact firsts_subperm

/-! ### Distinct after sorting -/

/-- In each group of objects with one hash value there is one that is not above a given object
    of another group. -/
def LevelGroups (hashValue : α → Int) (isSmaller : α → α → Bool) (objects : List α) : Prop :=
  ∀ a ∈ objects, ∀ b ∈ objects, hashValue a ≠ hashValue b →
    ∃ a' ∈ objects, hashValue a' = hashValue a ∧ isSmaller b a' = false

/-- Different values among the objects have different hash values. -/
def SeparatesValues {U : Type} [HashableValue U] (key : α → U) (objects : List α) : Prop :=
  ∀ a ∈ objects, ∀ b ∈ objects, hashValue (key a) = hashValue (key b) →
    (key a == key b) = true

instance (hashValue : α → Int) (isSmaller : α → α → Bool) (objects : List α) :
    Decidable (LevelGroups hashValue isSmaller objects) :=
  inferInstanceAs (Decidable (∀ a ∈ objects, ∀ b ∈ objects, hashValue a ≠ hashValue b →
    ∃ a' ∈ objects, hashValue a' = hashValue a ∧ isSmaller b a' = false))

instance {U : Type} [HashableValue U] (key : α → U) (objects : List α) :
    Decidable (SeparatesValues key objects) :=
  inferInstanceAs (Decidable (∀ a ∈ objects, ∀ b ∈ objects,
    hashValue (key a) = hashValue (key b) → (key a == key b) = true))

/-- Each value among the objects occurs in the result, which has as many elements as there are
    different values. -/
def KeepsValues {U : Type} [HashableValue U] (key : α → U) (objects result : List α) : Prop :=
  (∀ a ∈ objects, ∃ b ∈ result, (key b == key a) = true) ∧
    result.length = (objects.map key).eraseDups.length

/-- **The order survives every grouping** exactly when the groups are level. -/
theorem distinctUsing_ascending_iff {isSmaller : α → α → Bool}
    (hsmaller : IsStrictWeakOrder α fun a b => isSmaller a b = true) (hashValue : α → Int) :
    (∀ order, (distinctUsing order (some hashValue) (sortedBy sorting (some isSmaller) objects)
      ).Pairwise fun a b => isSmaller b a = false) ↔ LevelGroups hashValue isSmaller objects := by
  have hmem : ∀ a, a ∈ sorting.sorted isSmaller objects ↔ a ∈ objects := fun a =>
    (sorting.perm isSmaller objects).mem_iff
  refine (firsts_pairwise_iff (fun a b => isSmaller b a = false) (fun a => ?_)
    (fun a b c => not_lt_trans hsmaller) (sorting.ascending isSmaller objects hsmaller)).trans ?_
  · exact Bool.eq_false_iff.mpr (hsmaller.toIrrefl.irrefl a)
  · simp only [hmem, LevelGroups]

/-- **Distinct loses no value** exactly when the hash values separate the values. -/
theorem distinctUsing_keeps_iff {U : Type} [HashableValue U] (order : Enumeration (Int × List α))
    (isSmaller : Option (α → α → Bool)) (key : α → U) :
    KeepsValues key objects (distinctUsing order (some fun a => hashValue (key a))
      (sortedBy sorting isSmaller objects)) ↔ SeparatesValues key objects := by
  have hmem : ∀ a, a ∈ sortedBy sorting isSmaller objects ↔ a ∈ objects := fun a =>
    (sortedBy_perm sorting isSmaller objects).mem_iff
  generalize sortedBy sorting isSmaller objects = sorted at hmem
  constructor
  · rintro ⟨hkeeps, -⟩ a ha b hb hab
    -- the representatives of `a` and `b` are in one group, hence the same
    obtain ⟨a', ha', haKey⟩ := hkeeps a ha
    obtain ⟨b', hb', hbKey⟩ := hkeeps b hb
    have hhash : hashValue (key a') = hashValue (key b') :=
      (HashableValue.hashValue_eq _ _ haKey).trans
        (hab.trans (HashableValue.hashValue_eq _ _ hbKey).symm)
    obtain rfl := firsts_inj ha' hb' hhash
    exact BEq.trans (BEq.symm haKey) hbKey
  · intro h
    have hkeeps : ∀ a ∈ objects, ∃ b ∈ firsts order (fun a => hashValue (key a)) sorted,
        (key b == key a) = true := by
      intro a ha
      obtain ⟨b, hb, hhash⟩ := exists_mem_firsts order (fun a => hashValue (key a))
        ((hmem a).mpr ha)
      exact ⟨b, hb, h b ((hmem b).mp (mem_of_mem_firsts hb)) a ha hhash⟩
    refine ⟨hkeeps, ?_⟩
    refine (List.length_map key).symm.trans
      (length_eq_of_different ?_ (pairwise_eraseDups _) ?_ ?_)
    · refine List.pairwise_map.mpr ((List.pairwise_map.mp nodup_map_firsts).imp fun {a b} hab => ?_)
      exact Bool.eq_false_iff.mpr fun heq => hab (HashableValue.hashValue_eq _ _ heq)
    · intro x hx
      obtain ⟨b, hb, rfl⟩ := List.mem_map.mp hx
      exact exists_mem_eraseDups (List.mem_map_of_mem ((hmem b).mp (mem_of_mem_firsts hb)))
    · intro y hy
      obtain ⟨a, ha, rfl⟩ := List.mem_map.mp (mem_of_mem_eraseDups hy)
      obtain ⟨b, hb, hba⟩ := hkeeps a ha
      exact ⟨key b, List.mem_map_of_mem hb, BEq.symm hba⟩

end Steps

end QBRepository
