import Mathlib.Data.List.Dedup
import Mathlib.Data.List.Sort
import Mathlib.Order.Defs.Unbundled

namespace QBRepository

/-!
# Sorting and grouping

Lists that are sorted by one relation and then reduced to one element for each value of a key.

* `Sorting` — a sort that need not be stable; `Enumeration` — an order in which the entries of an
  unordered collection are listed;
* `grouping` — the elements of a list by key, each group in the order of the list; `firsts` — the
  first element of each group;
* `Uniquing` — a step that keeps the first of the elements that are the same, in order;
* `firsts_pairwise_iff` — the first elements of the groups of a sorted list are sorted in every
  enumeration exactly when no group lies above an element of another one.
-/

variable {α κ : Type}

/-- A sort; equivalent elements may come in any order. -/
structure Sorting (α : Type) where
  sorted : (α → α → Bool) → List α → List α
  perm : ∀ lt xs, (sorted lt xs).Perm xs
  ascending : ∀ lt xs, IsStrictWeakOrder α (fun a b => lt a b = true) →
    (sorted lt xs).Pairwise fun a b => lt b a = false

/-- An order in which the entries of an unordered collection are listed. -/
structure Enumeration (β : Type) where
  list : List β → List β
  perm : ∀ entries, (list entries).Perm entries

/-! ### Strict weak orders -/

section StrictWeakOrder

variable {lt : α → α → Bool} (h : IsStrictWeakOrder α (fun a b => lt a b = true))

include h

/-- In a strict weak order, "not above" is transitive. -/
theorem not_lt_trans {a b c : α} (hab : lt b a = false) (hbc : lt c b = false) :
    lt c a = false := by
  have hirrefl : ∀ x y, lt x y = true → lt y x = false := fun x y hxy =>
    Bool.eq_false_iff.mpr fun hyx => h.toIrrefl.irrefl x (h.toIsTrans.trans x y x hxy hyx)
  rw [Bool.eq_false_iff] at hab hbc ⊢
  intro hca
  -- `b` is then equivalent to `a` and to `c`, so these two are equivalent
  have hba : ¬ lt a b = true := fun hab' => hbc (h.toIsTrans.trans c a b hca hab')
  have hcb : ¬ lt b c = true := fun hbc' => hab (h.toIsTrans.trans b c a hbc' hca)
  exact (h.incomp_trans a b c ⟨hba, hab⟩ ⟨hcb, hbc⟩).2 hca

/-- One of two values is not greater than the other. -/
theorem not_lt_total (a b : α) : lt b a = false ∨ lt a b = false := by
  cases hba : lt b a with
  | false => exact Or.inl rfl
  | true =>
    refine Or.inr (Bool.eq_false_iff.mpr fun hab => ?_)
    exact h.toIrrefl.irrefl a (h.toIsTrans.trans a b a hab hba)

end StrictWeakOrder

/-- Merge sort, as one such sort. -/
def Sorting.merge (α : Type) : Sorting α where
  sorted lt xs := xs.mergeSort fun a b => !lt b a
  perm lt xs := List.mergeSort_perm xs _
  ascending lt xs h := by
    have hpairwise : (xs.mergeSort fun a b => !lt b a).Pairwise fun a b => (!lt b a) = true :=
      List.pairwise_mergeSort
        (fun a b c hab hbc => by
          simpa using not_lt_trans h (by simpa using hab) (by simpa using hbc))
        (fun a b => by simpa using not_lt_total h a b) xs
    exact hpairwise.imp fun hab => by simpa using hab

/-! ### The different values of a list -/

section Different

/-- What is left is from the list. -/
theorem mem_of_mem_eraseDups [BEq α] {xs : List α} {x : α} (hx : x ∈ xs.eraseDups) : x ∈ xs := by
  match xs with
  | [] => exact hx
  | y :: xs =>
    rw [List.eraseDups_cons] at hx
    rcases List.mem_cons.mp hx with rfl | hx
    · exact List.mem_cons_self
    · exact List.mem_cons_of_mem y (List.mem_filter.mp (mem_of_mem_eraseDups hx)).1
termination_by xs.length
decreasing_by exact Nat.lt_succ_of_le (List.length_filter_le _ _)

variable [BEq α] [EquivBEq α]

/-- Something equal to each value is left. -/
theorem exists_mem_eraseDups {xs : List α} {x : α} (hx : x ∈ xs) :
    ∃ y ∈ xs.eraseDups, (x == y) = true := by
  match xs with
  | y :: xs =>
    rw [List.eraseDups_cons]
    cases hxy : x == y with
    | true => exact ⟨y, List.mem_cons_self, hxy⟩
    | false =>
      have hmem : x ∈ xs := (List.mem_cons.mp hx).resolve_left fun h => by simp [h] at hxy
      have hrest : x ∈ xs.filter fun z => !z == y := List.mem_filter.mpr ⟨hmem, by simp [hxy]⟩
      obtain ⟨z, hz, hxz⟩ := exists_mem_eraseDups hrest
      exact ⟨z, List.mem_cons_of_mem y hz, hxz⟩
termination_by xs.length
decreasing_by exact Nat.lt_succ_of_le (List.length_filter_le _ _)

/-- No two values that are left are equal. -/
theorem pairwise_eraseDups (xs : List α) : xs.eraseDups.Pairwise fun a b => (a == b) = false := by
  match xs with
  | [] => simp
  | x :: xs =>
    rw [List.eraseDups_cons, List.pairwise_cons]
    refine ⟨fun y hy => ?_, pairwise_eraseDups _⟩
    have hyx := (List.mem_filter.mp (mem_of_mem_eraseDups hy)).2
    rw [BEq.comm]
    simpa using hyx
termination_by xs.length
decreasing_by exact Nat.lt_succ_of_le (List.length_filter_le _ _)

/-- Two lists of different values that occur in each other, up to equality, are of one length. -/
theorem length_eq_of_different {xs ys : List α} (hxs : xs.Pairwise fun a b => (a == b) = false)
    (hys : ys.Pairwise fun a b => (a == b) = false) (hxy : ∀ x ∈ xs, ∃ y ∈ ys, (x == y) = true)
    (hyx : ∀ y ∈ ys, ∃ x ∈ xs, (y == x) = true) : xs.length = ys.length := by
  -- the lists name the same classes, each once
  let classes : Setoid α := ⟨fun a b => (a == b) = true, fun _ => BEq.rfl, BEq.symm, BEq.trans⟩
  have hnodup : ∀ {zs : List α}, (zs.Pairwise fun a b => (a == b) = false) →
      (zs.map (Quotient.mk classes)).Nodup := fun {zs} hzs =>
    List.pairwise_map.mpr (hzs.imp fun {a b} hab (heq : Quotient.mk classes a = _) =>
      Bool.eq_false_iff.mp hab (Quotient.exact heq))
  have hmem : ∀ {zs ws : List α}, (∀ z ∈ zs, ∃ w ∈ ws, (z == w) = true) →
      ∀ c ∈ zs.map (Quotient.mk classes), c ∈ ws.map (Quotient.mk classes) := by
    intro zs ws hzw c hc
    obtain ⟨z, hz, rfl⟩ := List.mem_map.mp hc
    obtain ⟨w, hw, hzw⟩ := hzw z hz
    exact List.mem_map.mpr ⟨w, hw, Quotient.sound (BEq.symm hzw)⟩
  have hperm := (List.perm_ext_iff_of_nodup (hnodup hxs) (hnodup hys)).mpr fun c =>
    ⟨hmem hxy c, hmem hyx c⟩
  simpa using hperm.length_eq

end Different

/-! ### Groups and their first elements -/

variable [DecidableEq κ]

/-- The elements by key, in the order of the list within each group. -/
def grouping (key : α → κ) (xs : List α) : List (κ × List α) :=
  (xs.map key).dedup.map fun k => (k, xs.filter fun x => key x = k)

/-- The first element of each group. -/
def firsts (order : Enumeration (κ × List α)) (key : α → κ) (xs : List α) : List α :=
  (order.list (grouping key xs)).filterMap fun group => group.2.head?

/-- The elements of a group have its key. -/
theorem key_of_mem_grouping {key : α → κ} {xs : List α} {group : κ × List α}
    (hgroup : group ∈ grouping key xs) {x : α} (hx : x ∈ group.2) : key x = group.1 := by
  obtain ⟨k, -, rfl⟩ := List.mem_map.mp hgroup
  simpa using (List.mem_filter.mp hx).2

section Firsts

variable (order : Enumeration (κ × List α)) (key : α → κ) (xs : List α)

/-- The first element with a given key, in whichever order the keys are listed. -/
theorem firsts_perm :
    (firsts order key xs).Perm ((xs.map key).dedup.filterMap fun k => xs.find? (key · = k)) := by
  refine ((order.perm _).filterMap _).trans (List.Perm.of_eq ?_)
  rw [grouping, List.filterMap_map]
  refine List.filterMap_congr fun k _ => ?_
  exact List.head?_filter

variable {order key xs}

/-- The elements that come first in their group. -/
theorem mem_firsts {x : α} : x ∈ firsts order key xs ↔ xs.find? (key · = key x) = some x := by
  rw [(firsts_perm order key xs).mem_iff, List.mem_filterMap]
  constructor
  · rintro ⟨k, -, hx⟩
    have hk : key x = k := by simpa using List.find?_some hx
    rw [hk]
    exact hx
  · intro hx
    refine ⟨key x, ?_, hx⟩
    exact List.mem_dedup.mpr (List.mem_map_of_mem (List.mem_of_find?_eq_some hx))

/-- A first value of a group is from the list. -/
theorem mem_of_mem_firsts {x : α} (hx : x ∈ firsts order key xs) : x ∈ xs :=
  List.mem_of_find?_eq_some (mem_firsts.mp hx)

/-- The keys of the first elements are the keys of the list, each once. -/
theorem map_firsts_perm : ((firsts order key xs).map key).Perm (xs.map key).dedup := by
  refine ((firsts_perm order key xs).map key).trans (List.Perm.of_eq ?_)
  rw [List.map_filterMap]
  conv_rhs => rw [← List.filterMap_some (l := (xs.map key).dedup)]
  refine List.filterMap_congr fun k hk => ?_
  obtain ⟨x, hx, rfl⟩ := List.mem_map.mp (List.mem_dedup.mp hk)
  cases hfind : xs.find? (key · = key x) with
  | none => simpa using List.find?_eq_none.mp hfind x hx
  | some y =>
    have hy : key y = key x := by simpa using List.find?_some hfind
    rw [Option.map_some, hy]

/-- Their keys differ. -/
theorem nodup_map_firsts : ((firsts order key xs).map key).Nodup :=
  map_firsts_perm.nodup_iff.mpr (List.nodup_dedup _)

/-- They are some of the values, none repeated. -/
theorem firsts_subperm : (firsts order key xs).Subperm xs :=
  List.subperm_of_subset nodup_map_firsts.of_map fun _ => mem_of_mem_firsts

/-- Every key keeps an element. -/
theorem exists_mem_firsts (order : Enumeration (κ × List α)) (key : α → κ) {x : α}
    (hx : x ∈ xs) : ∃ y ∈ firsts order key xs, key y = key x := by
  have hkey : key x ∈ (firsts order key xs).map key :=
    map_firsts_perm.mem_iff.mpr (List.mem_dedup.mpr (List.mem_map_of_mem hx))
  simpa using hkey

/-- Two of the first elements have different keys. -/
theorem firsts_inj {x y : α} (hx : x ∈ firsts order key xs) (hy : y ∈ firsts order key xs)
    (hkey : key x = key y) : x = y :=
  List.inj_on_of_nodup_map nodup_map_firsts hx hy hkey

/-- The first element of a group precedes the others. -/
theorem firsts_le (le : α → α → Prop) (hrefl : ∀ a, le a a) (hxs : xs.Pairwise le) {x y : α}
    (hx : x ∈ firsts order key xs) (hy : y ∈ xs) (hkey : key y = key x) : le x y := by
  obtain ⟨-, before, after, rfl, hbefore⟩ := List.find?_eq_some_iff_append.mp (mem_firsts.mp hx)
  rw [List.pairwise_append, List.pairwise_cons] at hxs
  rcases List.mem_append.mp hy with hy | hy
  · -- nothing before `x` has its key
    exact absurd hkey (by simpa using hbefore y hy)
  · rcases List.mem_cons.mp hy with rfl | hy
    · exact hrefl y
    · exact hxs.2.1.1 y hy

end Firsts

/-- List the groups with a given key first. -/
def Enumeration.keyFirst (k : κ) : Enumeration (κ × List α) where
  list groups := groups.filter (·.1 = k) ++ groups.filter fun group => !decide (group.1 = k)
  perm groups := List.filter_append_perm _ groups

/-- If the dictionary enumerates one group first, its first value comes first. -/
theorem firsts_keyFirst (k : κ) (key : α → κ) (xs : List α) :
    ∃ front rest, firsts (.keyFirst k) key xs = front ++ rest ∧
      (∀ x ∈ front, key x = k) ∧ ∀ x ∈ rest, key x ≠ k := by
  refine ⟨_, _, List.filterMap_append, fun x hx => ?_, fun x hx => ?_⟩
  all_goals
    obtain ⟨group, hgroup, hhead⟩ := List.mem_filterMap.mp hx
    obtain ⟨hgroup, hk⟩ := List.mem_filter.mp hgroup
    rw [key_of_mem_grouping hgroup (List.mem_of_head? hhead)]
    simpa using hk

/-- **Reducing a sorted list to the first elements of its groups** leaves it sorted, in whichever
    order the groups are listed, exactly when each element has one at or below it in every other
    group. -/
theorem firsts_pairwise_iff {key : α → κ} {xs : List α} (le : α → α → Prop)
    (hrefl : ∀ a, le a a) (htrans : ∀ a b c, le a b → le b c → le a c) (hxs : xs.Pairwise le) :
    (∀ order, (firsts order key xs).Pairwise le) ↔
      ∀ a ∈ xs, ∀ b ∈ xs, key a ≠ key b → ∃ a' ∈ xs, key a' = key a ∧ le a' b := by
  constructor
  · intro h a ha b hb hab
    -- list the group of `a` first: its first element then precedes all others
    have hpairwise := h (.keyFirst (key a))
    obtain ⟨a', ha', haKey⟩ := exists_mem_firsts (.keyFirst (key a)) key ha
    obtain ⟨b', hb', hbKey⟩ := exists_mem_firsts (.keyFirst (key a)) key hb
    refine ⟨a', mem_of_mem_firsts ha', haKey,
      htrans a' b' b ?_ (firsts_le le hrefl hxs hb' hb hbKey.symm)⟩
    obtain ⟨front, rest, heq, hfront, hrest⟩ := firsts_keyFirst (key a) key xs
    rw [heq] at hpairwise ha' hb'
    have haFront := (List.mem_append.mp ha').resolve_right fun hmem => hrest a' hmem haKey
    have hbRest := (List.mem_append.mp hb').resolve_left fun hmem =>
      hab ((hfront b' hmem).symm.trans hbKey)
    exact (List.pairwise_append.mp hpairwise).2.2 a' haFront b' hbRest
  · intro h order
    have hnodup : (firsts order key xs).Pairwise fun a b => key a ≠ key b :=
      List.pairwise_map.mp nodup_map_firsts
    refine hnodup.imp_of_mem fun {a b} ha hb hab => ?_
    obtain ⟨a', ha', hkey, hle⟩ := h a (mem_of_mem_firsts ha) b (mem_of_mem_firsts hb) hab
    exact htrans a a' b (firsts_le le hrefl hxs ha ha' hkey) hle

/-! ### Lists without repetitions -/

/-- A step that removes all but the first of the elements that a relation takes for the same, and
    keeps the order. -/
structure Uniquing (α : Type) where
  unique : (α → α → Bool) → List α → List α
  sublist : ∀ same xs, (unique same xs).Sublist xs
  different : ∀ same xs, (unique same xs).Pairwise fun a b => same a b = false
  kept : ∀ same xs, Equivalence (fun a b => same a b = true) →
    ∀ b ∈ xs, ∃ a ∈ unique same xs, same b a = true
  first : ∀ same xs, ∀ le : α → α → Prop, (∀ a, le a a) → xs.Pairwise le →
    ∀ a ∈ unique same xs, ∀ b ∈ xs, same b a = true → le a b

/-- The list without the elements that are the same as an earlier one. -/
def keepFirst (same : α → α → Bool) : List α → List α
  | [] => []
  | x :: xs => x :: (keepFirst same xs).filter fun y => !same x y

/-- The values that are kept, in their order. -/
theorem keepFirst_sublist (same : α → α → Bool) (xs : List α) :
    (keepFirst same xs).Sublist xs := by
  induction xs with
  | nil => exact .slnil
  | cons x xs ih => exact .cons_cons x (List.filter_sublist.trans ih)

/-- No two of them are the same. -/
theorem pairwise_keepFirst (same : α → α → Bool) (xs : List α) :
    (keepFirst same xs).Pairwise fun a b => same a b = false := by
  induction xs with
  | nil => exact .nil
  | cons x xs ih =>
    rw [keepFirst, List.pairwise_cons]
    refine ⟨fun y hy => ?_, ih.filter _⟩
    simpa using (List.mem_filter.mp hy).2

/-- One that is the same as a given value is kept. -/
theorem exists_mem_keepFirst {same : α → α → Bool}
    (h : Equivalence fun a b => same a b = true) {xs : List α} {b : α} (hb : b ∈ xs) :
    ∃ a ∈ keepFirst same xs, same b a = true := by
  induction xs with
  | nil => exact absurd hb List.not_mem_nil
  | cons x xs ih =>
    rw [keepFirst]
    rcases List.mem_cons.mp hb with rfl | hb
    · exact ⟨b, List.mem_cons_self, h.refl b⟩
    · obtain ⟨a, ha, hba⟩ := ih hb
      cases hxa : same x a with
      | true => exact ⟨x, List.mem_cons_self, h.trans hba (h.symm hxa)⟩
      | false =>
        refine ⟨a, List.mem_cons_of_mem x (List.mem_filter.mpr ⟨ha, ?_⟩), hba⟩
        rw [hxa, Bool.not_false]

/-- In a list in order, the first of those that are the same is kept. -/
theorem keepFirst_le {same : α → α → Bool} (le : α → α → Prop) (hrefl : ∀ a, le a a)
    {xs : List α} (hxs : xs.Pairwise le) {a b : α} (ha : a ∈ keepFirst same xs) (hb : b ∈ xs)
    (hsame : same b a = true) : le a b := by
  induction xs with
  | nil => exact absurd hb List.not_mem_nil
  | cons x xs ih =>
    rw [List.pairwise_cons] at hxs
    rcases List.mem_cons.mp ha with rfl | ha
    · rcases List.mem_cons.mp hb with rfl | hb
      · exact hrefl b
      · exact hxs.1 b hb
    · obtain ⟨ha, hxa⟩ := List.mem_filter.mp ha
      rcases List.mem_cons.mp hb with rfl | hb
      · -- `a` would have been removed
        rw [hsame] at hxa
        exact absurd hxa Bool.false_ne_true
      · exact ih hxs.2 ha hb

/-- Keeping the first, as one such step. -/
def Uniquing.keepFirst (α : Type) : Uniquing α where
  unique := QBRepository.keepFirst
  sublist := keepFirst_sublist
  different := pairwise_keepFirst
  kept _ _ h _ hb := exists_mem_keepFirst h hb
  first _ _ le hrefl hxs _ ha _ hb hsame := keepFirst_le le hrefl hxs ha hb hsame

end QBRepository
