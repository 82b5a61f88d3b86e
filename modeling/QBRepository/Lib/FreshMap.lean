import Mathlib.Data.List.Range
import Mathlib.Logic.Function.Basic

/-!
# Maps with a supply of fresh keys

A `FreshMap` is a finite map on natural numbers together with a bound `next` that no key has
reached.  New values go to `next`, so a key never denotes two values, even if its first value
was removed.

* `alloc`, `filterMap` and its special case `update` — the operations;
* `keys` — the keys in order of allocation;
* `get_alloc`, `get_filterMap`, `get_update` — what a lookup finds afterwards;
* `view` — the map as read through a partial function, with the same lemmas.
-/

/-- A finite map on natural numbers; no key from `next` on is in use. -/
structure FreshMap (α : Type) where
  get : Nat → Option α
  next : Nat
  fresh : ∀ k, next ≤ k → get k = none

namespace FreshMap

variable {α β : Type}

/-- The map without values. -/
def empty : FreshMap α where
  get _ := none
  next := 0
  fresh _ _ := rfl

/-- Store a value under the next key. -/
def alloc (m : FreshMap α) (a : α) : FreshMap α where
  get := Function.update m.get m.next (some a)
  next := m.next + 1
  fresh k hk := by
    rw [Function.update_of_ne (by omega), m.fresh k (by omega)]

/-- Replace or remove every value. -/
def filterMap (m : FreshMap α) (f : Nat → α → Option β) : FreshMap β where
  get k := (m.get k).bind (f k)
  next := m.next
  fresh k hk := by rw [m.fresh k hk, Option.bind_none]

/-- Replace or remove the value of one key. -/
def update (m : FreshMap α) (k : Nat) (f : α → Option α) : FreshMap α :=
  m.filterMap fun j a => if j = k then f a else some a

/-- The keys, in order. -/
def keys (m : FreshMap α) : List Nat := (List.range m.next).filter fun k => (m.get k).isSome

section Lookup

variable (m : FreshMap α)

/-- Keys that are in use have been allocated. -/
theorem lt_next_of_get {k : Nat} {a : α} (h : m.get k = some a) : k < m.next := by
  by_contra hk
  rw [m.fresh k (Nat.le_of_not_lt hk)] at h
  exact Option.some_ne_none a h.symm

@[simp] theorem get_empty (k : Nat) : (empty : FreshMap α).get k = none := rfl

/-- The new value is found under the next key, the others where they were. -/
theorem get_alloc (a : α) : (m.alloc a).get = Function.update m.get m.next (some a) := rfl

@[simp] theorem get_alloc_self (a : α) : (m.alloc a).get m.next = some a :=
  Function.update_self ..

/-- The others are found where they were. -/
theorem get_alloc_of_ne {k : Nat} (a : α) (hk : k ≠ m.next) : (m.alloc a).get k = m.get k :=
  Function.update_of_ne hk ..

@[simp] theorem next_alloc (a : α) : (m.alloc a).next = m.next + 1 := rfl

@[simp] theorem get_filterMap (f : Nat → α → Option β) (k : Nat) :
    (m.filterMap f).get k = (m.get k).bind (f k) := rfl

@[simp] theorem next_filterMap (f : Nat → α → Option β) : (m.filterMap f).next = m.next := rfl

/-- One value is replaced or removed. -/
theorem get_update (k : Nat) (f : α → Option α) :
    (m.update k f).get = Function.update m.get k ((m.get k).bind f) := by
  funext j
  rw [update, get_filterMap]
  by_cases hj : j = k
  · subst hj
    simp
  · simp [hj]

@[simp] theorem next_update (k : Nat) (f : α → Option α) : (m.update k f).next = m.next := rfl

/-- The keys are those under which something is found. -/
@[simp] theorem mem_keys {k : Nat} : k ∈ m.keys ↔ (m.get k).isSome = true := by
  simp only [keys, List.mem_filter, List.mem_range, and_iff_right_iff_imp]
  intro hk
  obtain ⟨a, ha⟩ := Option.isSome_iff_exists.mp hk
  exact m.lt_next_of_get ha

/-- The keys that are left. -/
theorem keys_filterMap (f : Nat → α → Option β) :
    (m.filterMap f).keys = m.keys.filter fun k => ((m.get k).bind (f k)).isSome := by
  rw [keys, keys, List.filter_filter]
  refine List.filter_congr fun k _ => ?_
  rw [get_filterMap]
  cases m.get k <;> simp

end Lookup

/-! ### Views -/

/-- The map read through a partial function. -/
def view (m : FreshMap α) (read : α → Option β) (k : Nat) : Option β := (m.get k).bind read

section View

variable {m : FreshMap α} {read : α → Option β}

/-- What is viewed is there. -/
theorem get_of_view {k : Nat} {b : β} (h : m.view read k = some b) :
    ∃ a, m.get k = some a ∧ read a = some b := Option.bind_eq_some_iff.mp h

/-- Its key is among the keys. -/
theorem mem_keys_of_view {k : Nat} {b : β} (h : m.view read k = some b) : k ∈ m.keys := by
  obtain ⟨a, ha, _⟩ := get_of_view h
  rw [mem_keys, ha, Option.isSome_some]

/-- The view of a new value. -/
theorem view_alloc (a : α) :
    (m.alloc a).view read = Function.update (m.view read) m.next (read a) := by
  funext k
  by_cases hk : k = m.next
  · subst hk
    simp [view]
  · simp [view, get_alloc_of_ne m a hk, hk]

/-- The view of changed values is another view of the values. -/
theorem view_filterMap {γ : Type} {f : Nat → α → Option γ} {read : γ → Option β}
    {read' : α → Option β} (h : ∀ k a, (f k a).bind read = read' a) :
    (m.filterMap f).view read = m.view read' := by
  funext k
  rw [view, view, get_filterMap, Option.bind_assoc]
  exact congrArg (m.get k).bind (funext (h k))

/-- A change of one value shows in its view only. -/
theorem view_update {k : Nat} {f : α → Option α} {g : β → Option β}
    (h : ∀ a, (f a).bind read = (read a).bind g) :
    (m.update k f).view read = Function.update (m.view read) k ((m.view read k).bind g) := by
  funext j
  by_cases hj : j = k
  · subst hj
    simp only [view, get_update, Function.update_self, Option.bind_assoc, h]
  · simp [view, get_update, hj]

/-- A view that an update does not touch. -/
theorem view_update_eq {k : Nat} {f : α → Option α} (h : ∀ a, (f a).bind read = read a) :
    (m.update k f).view read = m.view read := by
  rw [view_update (g := some) fun a => by rw [h, Option.bind_fun_some], Option.bind_fun_some,
    Function.update_eq_self]

end View

end FreshMap
