import QBRepository.Elements.KeyPath
import QBRepository.FileSystem.Run

namespace QBRepository

/-!
# `FileSystemRepository.getElements`

The models of the directory, filtered, sorted and made distinct in memory.

* `Selection` — what such a query may return for given models;
* `FileSystemRepository.getElements_selection` — what it does return is such a selection.
-/

variable {Object Id Model Data : Type}

/-- The model satisfies every predicate of the filter. -/
def satisfies (filter : Option (Query Object Model)) (model : Model) : Bool :=
  filter.all fun query => query.predicates.all fun p => p.evaluate model

/-- What a query may return. -/
structure Selection {T U : Type} [Comparable T] [HashableValue U] (stored : List Model)
    (filter : Option (Query Object Model)) (sortKeyPath : Option (KeyPath Model T))
    (distinctKeyPath : Option (KeyPath Model U)) (result : List Model) : Prop where
  /-- no model is made up or repeated -/
  subperm : result.Subperm stored
  filtered : ∀ model ∈ result, satisfies filter model = true
  distinct : ∀ distinctKey ∈ distinctKeyPath,
    result.Pairwise fun a b => (distinctKey.get a == distinctKey.get b) = false
  /-- of the models with one distinct key, a smallest one is returned -/
  minimal : ∀ distinctKey ∈ distinctKeyPath, ∀ sortKey ∈ sortKeyPath, ∀ model ∈ result,
    ∀ other ∈ stored.filter (satisfies filter),
      (distinctKey.get other == distinctKey.get model) = true →
      Comparable.lt (sortKey.get other) (sortKey.get model) = false
  all : distinctKeyPath = none → result.Perm (stored.filter (satisfies filter))
  ascending : distinctKeyPath = none → ∀ sortKey ∈ sortKeyPath,
    result.Pairwise fun a b => Comparable.lt (sortKey.get b) (sortKey.get a) = false

namespace FileSystemRepository

variable (repo : FileSystemRepository Model Data) (env : Environment Id)

/-- `getElements(filteredBy:sortedBy:distinctUsing:)` -/
def getElements (sorting : Sorting Model) (order : Enumeration (Int × List Model))
    (filter : Option (Query Object Model)) (sortKeyPath : Option (ComparableKeyPath Model))
    (distinctKeyPath : Option (HashableKeyPath Model)) :
    StateM (FileManager Data) (List Model) := do
  let objects ← repo.getAll env
  let objects := filteredBy (filter.map Query.evaluate) objects
  let objects := sortedBy sorting (sortKeyPath.map ComparableKeyPath.isSmaller) objects
  return distinctUsing order (distinctKeyPath.map HashableKeyPath.hashValue) objects

/-- The stored models, as `getAll()` lists them. -/
def stored (fm : FileManager Data) : List Model := ((repo.getAll env).run fm).1

/-- The stored models that a filter selects. -/
def selected (filter : Option (Query Object Model)) (fm : FileManager Data) : List Model :=
  filteredBy (filter.map Query.evaluate) (repo.stored env fm)

/-- The selected models are those stored that satisfy the filter. -/
theorem selected_eq_filter (filter : Option (Query Object Model)) (fm : FileManager Data) :
    repo.selected env filter fm = (repo.stored env fm).filter (satisfies filter) := by
  cases filter with
  | none => exact (List.filter_eq_self.mpr fun _ _ => rfl).symm
  | some query =>
    refine List.filter_congr fun model _ => ?_
    exact query.evaluate_eq_all model

/-- `getElements` returns the selected models in order, and only reads. -/
theorem run_getElements (sorting : Sorting Model) (order : Enumeration (Int × List Model))
    (filter : Option (Query Object Model)) (sortKeyPath : Option (ComparableKeyPath Model))
    (distinctKeyPath : Option (HashableKeyPath Model)) (fm : FileManager Data) :
    ((repo.getElements env sorting order filter sortKeyPath distinctKeyPath).run fm).1 =
      distinctUsing order (distinctKeyPath.map HashableKeyPath.hashValue)
        (sortedBy sorting (sortKeyPath.map ComparableKeyPath.isSmaller)
          (repo.selected env filter fm)) := rfl

/-- **What `getElements` returns**, for any filter, sort key and distinct key. -/
theorem getElements_selection {T U : Type} [Comparable T] [HashableValue U]
    (hT : Comparable.Weak T) (sorting : Sorting Model) (order : Enumeration (Int × List Model))
    (filter : Option (Query Object Model)) (sortKeyPath : Option (KeyPath Model T))
    (distinctKeyPath : Option (KeyPath Model U)) (fm : FileManager Data) :
    Selection (repo.stored env fm) filter sortKeyPath distinctKeyPath
      ((repo.getElements env sorting order filter (sortKeyPath.map .ofKeyPath)
        (distinctKeyPath.map .ofKeyPath)).run fm).1 := by
  rw [run_getElements, selected_eq_filter]
  generalize hobjects : (repo.stored env fm).filter (satisfies filter) = objects
  have hsub : objects.Sublist (repo.stored env fm) := hobjects ▸ List.filter_sublist
  have hperm := sortedBy_perm sorting ((sortKeyPath.map ComparableKeyPath.ofKeyPath).map
    ComparableKeyPath.isSmaller) objects
  generalize hsorted : sortedBy sorting ((sortKeyPath.map ComparableKeyPath.ofKeyPath).map
    ComparableKeyPath.isSmaller) objects = sorted at hperm
  have hascending : ∀ sortKey ∈ sortKeyPath,
      sorted.Pairwise fun a b => Comparable.lt (sortKey.get b) (sortKey.get a) = false := by
    rintro sortKey rfl
    rw [← hsorted]
    exact sorting.ascending _ _ (ComparableKeyPath.isStrictWeakOrder hT sortKey)
  have hresult := distinctUsing_subperm order ((distinctKeyPath.map HashableKeyPath.ofKeyPath).map
    HashableKeyPath.hashValue) sorted
  refine ⟨?_, ?_, ?_, ?_, ?_, ?_⟩
  · exact (hresult.trans hperm.subperm).trans hsub.subperm
  · intro model hmodel
    have hmem := hperm.mem_iff.mp (hresult.subset hmodel)
    rw [← hobjects] at hmem
    exact (List.mem_filter.mp hmem).2
  · rintro distinctKey rfl
    refine (List.pairwise_map.mp nodup_map_firsts).imp fun {a b} hab => ?_
    exact Bool.eq_false_iff.mpr fun heq => hab (HashableValue.hashValue_eq _ _ heq)
  · rintro distinctKey rfl sortKey hsortKey model hmodel other hother heq
    refine firsts_le (fun a b => Comparable.lt (sortKey.get b) (sortKey.get a) = false)
      (fun a => ?_) (hascending sortKey hsortKey) hmodel (hperm.mem_iff.mpr ?_)
      (HashableValue.hashValue_eq _ _ heq)
    · exact Bool.eq_false_iff.mpr (hT.toIrrefl.irrefl _)
    · exact hobjects ▸ hother
  · rintro rfl
    rw [hobjects]
    exact hperm
  · rintro rfl
    exact hascending

end FileSystemRepository

/-! ### A sample of two employees -/

namespace Sample

instance : Comparable Nat where
  lt a b := decide (a < b)

/-- Numbers are compared by a weak order. -/
theorem weak_nat : Comparable.Weak Nat where
  irrefl a := by simp [Comparable.lt]
  trans a b c := by
    simp only [Comparable.lt, decide_eq_true_eq]
    omega
  incomp_trans a b c := by
    simp only [Comparable.lt, decide_eq_true_eq]
    omega

instance : HashableValue Nat where
  hashValue := Int.ofNat
  hashValue_eq a b hab := by rw [eq_of_beq hab]

def employeeAge : KeyPath Employee Nat := ⟨Employee.age, some "age"⟩

def employeeNumber : KeyPath Employee Nat := ⟨Employee.number, some "number"⟩

/-- Two employees are stored, by their ages. -/
def team (age age' : Nat) : FileManager (List Nat) :=
  employees.run (process Int.ofNat) blank [.create ⟨1, age⟩, .create ⟨2, age'⟩]

/-- No filter. -/
def everyone : Option (Query Int Employee) := none

end Sample

open Sample in
/-- The employees by age, one for each number. -/
theorem selection_team :
    Selection (employees.stored (process Int.ofNat) (team 30 20)) everyone (some employeeAge)
      (some employeeNumber)
      ((employees.getElements (process Int.ofNat) (.merge _) (.keyFirst 0) everyone
        (some (.ofKeyPath employeeAge)) (some (.ofKeyPath employeeNumber))).run (team 30 20)).1 :=
  FileSystemRepository.getElements_selection employees (process Int.ofNat) weak_nat (.merge _)
    (.keyFirst 0) everyone (some employeeAge) (some employeeNumber) (team 30 20)

end QBRepository
