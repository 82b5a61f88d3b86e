import Mathlib.Data.List.Forall2

/-!
# Tables with handles

A `KeyedTable` has a value under each of some keys, and handles by which a program refers to values:
a handle has a value of its own, stands for the value under a key, or has lost what it stood for.

* `give`, `store`, `hold`, `remove` — the changes of a table;
* `add`, `drop` — storing and removing what a handle stands for, which a lost handle cannot;
* `remove_remove`, `remove_congr` — removing twice, and removing what is there;
* `foldlM_add_own` — storing the values of some handles, one after another;
* `Keeps` — a table that has the handles of another one, and may have more.
-/

/-- What a handle stands for. -/
inductive Handle (K V : Type*) where
  | own (key : K) (value : V)
  | stored (key : K)
  | lost

/-- A table of values under keys, with the handles on them. -/
structure KeyedTable (H K V : Type*) where
  value : K → Option V
  handle : H → Option (Handle K V)
  /-- a handle stands for a key only as long as there is a value -/
  held : ∀ h key, handle h = some (.stored key) → value key ≠ none

namespace Handle

variable {K V : Type*}

/-- What becomes of a handle when some keys are removed. -/
def lose (gone : K → Bool) : Handle K V → Handle K V
  | own key value => own key value
  | stored key => if gone key then lost else stored key
  | lost => lost

/-- A handle of a key that is removed is lost. -/
theorem lose_stored (gone : K → Bool) (key : K) :
    (stored key : Handle K V).lose gone = if gone key then lost else stored key := rfl

/-- Removing keys twice loses the handles of both. -/
theorem lose_lose (gone gone' : K → Bool) (handle : Handle K V) :
    (handle.lose gone).lose gone' = handle.lose fun key => gone key || gone' key := by
  cases handle with
  | own key value => rfl
  | stored key =>
    rw [lose_stored, lose_stored]
    cases gone key <;> rfl
  | lost => rfl

end Handle

namespace KeyedTable

variable {H K V : Type*} [DecidableEq H] [DecidableEq K] (t : KeyedTable H K V)

/-- The key of what a handle stands for. -/
def keyOf (h : H) : Option K :=
  match t.handle h with
  | some (.own key _) | some (.stored key) => some key
  | some .lost | none => none

/-- The value a handle stands for. -/
def valueOf (h : H) : Option V :=
  match t.handle h with
  | some (.own _ value) => some value
  | some (.stored key) => t.value key
  | some .lost | none => none

/-! ### Changes -/

/-- A new handle with a value of its own. -/
def give (h : H) (key : K) (value : V) : KeyedTable H K V where
  value := t.value
  handle := Function.update t.handle h (some (.own key value))
  held h' key' hh := by
    by_cases hsame : h' = h
    · rw [hsame, Function.update_self] at hh
      cases hh
    · rw [Function.update_of_ne hsame] at hh
      exact t.held h' key' hh

/-- New handles on values. -/
def hold (names : H → Option K) (hnames : ∀ h key, names h = some key → t.value key ≠ none) :
    KeyedTable H K V where
  value := t.value
  handle h := (names h).elim (t.handle h) fun key => some (.stored key)
  held h key hh := by
    cases hname : names h with
    | none =>
      rw [hname] at hh
      exact t.held h key hh
    | some key' =>
      rw [hname] at hh
      cases hh
      exact hnames h key hname

/-- The values under some keys are gone, and handles on them are lost. -/
def remove (gone : K → Bool) : KeyedTable H K V where
  value key := if gone key then none else t.value key
  handle h := (t.handle h).map (Handle.lose gone)
  held h key hh := by
    obtain ⟨handle, hhandle, hlose⟩ := Option.map_eq_some_iff.mp hh
    cases handle with
    | own key' value => cases hlose
    | stored key' =>
      rw [Handle.lose_stored] at hlose
      split at hlose
      · cases hlose
      next hkept =>
        cases hlose
        rw [if_neg hkept]
        exact t.held h key hhandle
    | lost => cases hlose

/-- A value is stored under a key, and the handle stands for it from now on. -/
def store (h : H) (key : K) (value : V) : KeyedTable H K V where
  value := Function.update t.value key (some value)
  handle := Function.update t.handle h (some (.stored key))
  held h' key' hh := by
    by_cases hkey : key' = key
    · rw [hkey, Function.update_self]
      exact Option.some_ne_none value
    · rw [Function.update_of_ne hkey]
      refine t.held h' key' ?_
      by_cases hsame : h' = h
      · rw [hsame, Function.update_self] at hh
        cases hh
        exact absurd rfl hkey
      · rwa [Function.update_of_ne hsame] at hh

/-- Store what a handle stands for. -/
def add (h : H) : Option (KeyedTable H K V) :=
  match t.handle h with
  | some (.own key value) => some (t.store h key value)
  | some (.stored _) => some t
  | some .lost | none => none

/-- Remove what a handle stands for. -/
def drop (h : H) : Option (KeyedTable H K V) :=
  match t.handle h with
  | some (.own _ _) => some t
  | some (.stored key) => some (t.remove fun k => k == key)
  | some .lost | none => none

omit [DecidableEq K] in
/-- A new handle has a value of its own. -/
theorem handle_give (h : H) (key : K) (value : V) :
    (t.give h key value).handle = Function.update t.handle h (some (.own key value)) := rfl

omit [DecidableEq H] [DecidableEq K] in
/-- The handles that are given out name keys. -/
theorem handle_hold {names : H → Option K}
    (hnames : ∀ h key, names h = some key → t.value key ≠ none) (h : H) :
    (t.hold names hnames).handle h
      = (names h).elim (t.handle h) fun key => some (.stored key) := rfl

omit [DecidableEq H] [DecidableEq K] in
/-- The values that are left. -/
theorem value_remove (gone : K → Bool) (key : K) :
    (t.remove gone).value key = if gone key then none else t.value key := rfl

omit [DecidableEq H] [DecidableEq K] in
/-- The handles that are left. -/
theorem handle_remove (gone : K → Bool) (h : H) :
    (t.remove gone).handle h = (t.handle h).map (Handle.lose gone) := rfl

/-- The value is stored under its key. -/
theorem value_store (h : H) (key : K) (value : V) :
    (t.store h key value).value = Function.update t.value key (some value) := rfl

/-- The handle names the key from then on. -/
theorem handle_store (h : H) (key : K) (value : V) :
    (t.store h key value).handle = Function.update t.handle h (some (.stored key)) := rfl

omit [DecidableEq H] [DecidableEq K]

variable {t}

/-- Tables with the same values and handles are the same. -/
theorem ext_of {t' : KeyedTable H K V} (hvalue : t.value = t'.value)
    (hhandle : t.handle = t'.handle) : t = t' := by
  cases t
  cases t'
  cases hvalue
  cases hhandle
  rfl

/-- Removing keys one set after the other. -/
theorem remove_remove (gone gone' : K → Bool) :
    (t.remove gone).remove gone' = t.remove fun key => gone key || gone' key := by
  apply ext_of
  · funext key
    rw [value_remove, value_remove, value_remove]
    cases gone key <;> cases gone' key <;> rfl
  · funext h
    rw [handle_remove, handle_remove, handle_remove, Option.map_map]
    exact congrArg ((t.handle h).map ·) (funext fun handle => handle.lose_lose gone gone')

/-- Removing no key. -/
theorem remove_false : (t.remove fun _ => false) = t := by
  apply ext_of
  · rfl
  · funext h
    rw [handle_remove]
    cases hhandle : t.handle h with
    | none => rfl
    | some handle => cases handle <;> rfl

/-- It only matters which of the keys with values are removed. -/
theorem remove_congr {gone gone' : K → Bool}
    (h : ∀ key, t.value key ≠ none → gone key = gone' key) : t.remove gone = t.remove gone' := by
  apply ext_of
  · funext key
    rw [value_remove, value_remove]
    cases hvalue : t.value key with
    | none => rw [ite_self, ite_self]
    | some value => rw [h key (hvalue ▸ Option.some_ne_none value)]
  · funext u
    rw [handle_remove, handle_remove]
    cases hhandle : t.handle u with
    | none => rfl
    | some handle =>
      cases handle with
      | own key value => rfl
      | stored key =>
        rw [Option.map_some, Option.map_some, Handle.lose_stored, Handle.lose_stored,
          h key (t.held u key hhandle)]
      | lost => rfl

/-! ### Known handles -/

/-- The handles of `t` are handles of `t'`. -/
def Keeps (t t' : KeyedTable H K V) : Prop := ∀ h, t.handle h ≠ none → t'.handle h ≠ none

/-- Nothing happens. -/
theorem Keeps.refl (t : KeyedTable H K V) : Keeps t t := fun _ h => h

/-- Giving out handles takes none away. -/
theorem keeps_hold (names : H → Option K)
    (hnames : ∀ h key, names h = some key → t.value key ≠ none) :
    Keeps t (t.hold names hnames) := by
  intro h hh
  rw [handle_hold]
  cases names h with
  | none => exact hh
  | some key => exact Option.some_ne_none _

/-- Removing keys takes none away: a lost handle is still known. -/
theorem keeps_remove (gone : K → Bool) : Keeps t (t.remove gone) := by
  intro h hh
  rwa [handle_remove, ne_eq, Option.map_eq_none_iff]

variable {t' : KeyedTable H K V} {h : H}

/-- A known handle has a key unless it is lost. -/
theorem keyOf_eq_none (hknown : t.handle h ≠ none) :
    t.keyOf h = none ↔ t.handle h = some .lost := by
  unfold keyOf
  split
  · simp_all
  · simp_all
  next hlost => simp [hlost]
  next hnone => exact absurd hnone hknown

/-- Changing the table by one handle after another. -/
theorem keeps_foldlM {change : KeyedTable H K V → H → Option (KeyedTable H K V)}
    (hchange : ∀ {t t' h}, change t h = some t' → Keeps t t') {hs : List H}
    (hrun : hs.foldlM change t = some t') : Keeps t t' := by
  induction hs generalizing t with
  | nil => exact Option.some.inj hrun ▸ Keeps.refl t
  | cons h hs ih =>
    rw [List.foldlM_cons] at hrun
    obtain ⟨between, hfirst, hrest⟩ := Option.bind_eq_some_iff.mp hrun
    exact fun u hu => ih hrest u (hchange hfirst u hu)

variable [DecidableEq K]

/-- Removing by a known handle fails only if it is lost. -/
theorem lost_of_drop (hknown : t.handle h ≠ none) (hdrop : t.drop h = none) :
    t.handle h = some .lost := by
  unfold drop at hdrop
  split at hdrop
  · cases hdrop
  · cases hdrop
  next hlost => exact hlost
  next hnone => exact absurd hnone hknown

/-- Dropping a handle's key takes none away. -/
theorem keeps_drop (hdrop : t.drop h = some t') : Keeps t t' := by
  unfold drop at hdrop
  split at hdrop
  · exact Option.some.inj hdrop ▸ Keeps.refl t
  · exact Option.some.inj hdrop ▸ keeps_remove _
  all_goals cases hdrop

variable [DecidableEq H]

/-- Storing by a known handle fails only if it is lost. -/
theorem lost_of_add (hknown : t.handle h ≠ none) (hadd : t.add h = none) :
    t.handle h = some .lost := by
  unfold add at hadd
  split at hadd
  · cases hadd
  · cases hadd
  next hlost => exact hlost
  next hnone => exact absurd hnone hknown

/-- Storing takes none away. -/
theorem keeps_store (h : H) (key : K) (value : V) : Keeps t (t.store h key value) := by
  intro h' hh'
  rw [handle_store]
  by_cases hsame : h' = h
  · rw [hsame, Function.update_self]
    exact Option.some_ne_none _
  · rwa [Function.update_of_ne hsame]

/-- Adding takes none away. -/
theorem keeps_add (hadd : t.add h = some t') : Keeps t t' := by
  unfold add at hadd
  split at hadd
  · exact Option.some.inj hadd ▸ keeps_store h _ _
  · exact Option.some.inj hadd ▸ Keeps.refl t
  all_goals cases hadd

/-- Adding handles with values of their own, one after another. -/
theorem foldlM_add_own {α : Type*} {key : α → K} {value : α → V} {hs : List H} {as : List α}
    (hnodup : hs.Nodup)
    (h : List.Forall₂ (fun h a => t.handle h = some (.own (key a) (value a))) hs as) :
    ∃ t', hs.foldlM add t = some t' ∧
      t'.value = as.foldl (fun values a => Function.update values (key a) (some (value a)))
        t.value := by
  induction hs generalizing t as with
  | nil =>
    cases h
    exact ⟨t, rfl, rfl⟩
  | cons h hs ih =>
    obtain _ | @⟨_, a, _, as, hown, hrest⟩ := h
    obtain ⟨hnew, hnodup⟩ := List.nodup_cons.mp hnodup
    -- the other handles still have their values
    have hrest' : List.Forall₂ (fun h' a' =>
        (t.store h (key a) (value a)).handle h' = some (.own (key a') (value a'))) hs as := by
      have hne : ∀ h' ∈ hs, h' ≠ h := fun h' hmem hsame => hnew (hsame ▸ hmem)
      refine (List.forall₂_and_left hs as |>.mpr ⟨hne, hrest⟩).imp ?_
      rintro h' a' ⟨hsame, hown'⟩
      rw [handle_store, Function.update_of_ne hsame, hown']
    obtain ⟨t', hrun, hvalue⟩ := ih hnodup hrest'
    refine ⟨t', ?_, hvalue⟩
    have hadd : t.add h = some (t.store h (key a) (value a)) := by rw [add, hown]
    rw [List.foldlM_cons, hadd]
    exact hrun

end KeyedTable
