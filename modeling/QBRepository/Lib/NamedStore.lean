import Mathlib.Data.Set.Function

namespace NamedStore

/-!
# Storing a finite map under derived names

A store `D : N → Option W` keeps values under *names*; a client thinks of a map
`live : K → Option V` from *keys* to values, and derives the name of a key by a function
`name : K → N` and the stored form of a value by `enc : V → W`.

* `Represents name enc D live` — the store holds, under the name of each live key and
  nowhere else, the stored form of that key's value;
* `Represents.update` / `Represents.erase` — overwriting or removing one name is
  overwriting or removing one key, as long as the names of the keys in use are distinct
  (`Set.InjOn name S`);
* `Represents.restrict` — losing names is losing the keys of those names;
* `Represents.get` — reading a name then is reading its key;
* `Represents.rename` — the name function may change between two operations, but only
  where no key is live.
-/

variable {K N V W : Type*} {name name' : K → N} {enc : V → W}
  {D : N → Option W} {live : K → Option V} {S : Set K}

/-- The store `D` holds exactly the stored forms of the live keys, each under the name of
    its key. -/
structure Represents (name : K → N) (enc : V → W) (D : N → Option W)
    (live : K → Option V) : Prop where
  stored : ∀ k v, live k = some v → D (name k) = some (enc v)
  covered : ∀ n w, D n = some w → ∃ k v, live k = some v ∧ name k = n ∧ enc v = w

/-- Every live key belongs to `S`. -/
def LiveIn (live : K → Option V) (S : Set K) : Prop := ∀ k v, live k = some v → k ∈ S

/-- An empty store represents no values. -/
theorem represents_empty :
    Represents name enc (fun _ => none) (fun _ : K => (none : Option V)) where
  stored := by intro k v h; simp at h
  covered := by intro n w h; simp at h

/-- No value is live. -/
theorem liveIn_empty : LiveIn (fun _ : K => (none : Option V)) S := by
  intro k v h; simp at h

/-- Reading the name of a key in use reads the key itself. -/
theorem Represents.get (h : Represents name enc D live) (hlive : LiveIn live S)
    (hinj : Set.InjOn name S) {k : K} (hk : k ∈ S) : D (name k) = (live k).map enc := by
  cases hv : live k with
  | some v => simpa using h.stored k v hv
  | none =>
    cases hw : D (name k) with
    | none => rfl
    | some w =>
      obtain ⟨k', v, hk', hname, _⟩ := h.covered _ _ hw
      have hkk : k' = k := hinj (hlive k' v hk') hk hname
      rw [hkk, hv] at hk'
      simp at hk'

section Updates

variable [DecidableEq K] [DecidableEq N]

/-- A value under one of the keys may change. -/
theorem LiveIn.update (hlive : LiveIn live S) {k : K} (hk : k ∈ S) (v : Option V) :
    LiveIn (Function.update live k v) S := by
  intro k' v' h
  by_cases hkk : k' = k
  · rw [hkk]; exact hk
  · rw [Function.update_of_ne hkk] at h
    exact hlive k' v' h

/-- Writing the stored form of `v` under the name of `k` maps `k` to `v`. -/
theorem Represents.update (h : Represents name enc D live) (hlive : LiveIn live S)
    (hinj : Set.InjOn name S) {k : K} (hk : k ∈ S) (v : V) :
    Represents name enc (Function.update D (name k) (some (enc v)))
      (Function.update live k (some v)) where
  stored := by
    intro k' v' hv'
    by_cases hkk : k' = k
    · subst hkk
      rw [Function.update_self, Option.some.injEq] at hv'
      rw [Function.update_self, hv']
    · rw [Function.update_of_ne hkk] at hv'
      have hne : name k' ≠ name k := fun he => hkk (hinj (hlive k' v' hv') hk he)
      rw [Function.update_of_ne hne]
      exact h.stored k' v' hv'
  covered := by
    intro n w hw
    by_cases hn : n = name k
    · subst hn
      rw [Function.update_self, Option.some.injEq] at hw
      exact ⟨k, v, Function.update_self .., rfl, hw⟩
    · rw [Function.update_of_ne hn] at hw
      obtain ⟨k', v', hk', hname, henc⟩ := h.covered n w hw
      have hkk : k' ≠ k := by rintro rfl; exact hn hname.symm
      exact ⟨k', v', by rw [Function.update_of_ne hkk]; exact hk', hname, henc⟩

/-- Removing the name of `k` forgets `k`. -/
theorem Represents.erase (h : Represents name enc D live) (hlive : LiveIn live S)
    (hinj : Set.InjOn name S) {k : K} (hk : k ∈ S) :
    Represents name enc (Function.update D (name k) none) (Function.update live k none) where
  stored := by
    intro k' v' hv'
    have hkk : k' ≠ k := by rintro rfl; simp at hv'
    rw [Function.update_of_ne hkk] at hv'
    have hne : name k' ≠ name k := fun he => hkk (hinj (hlive k' v' hv') hk he)
    rw [Function.update_of_ne hne]
    exact h.stored k' v' hv'
  covered := by
    intro n w hw
    have hn : n ≠ name k := by rintro rfl; simp at hw
    rw [Function.update_of_ne hn] at hw
    obtain ⟨k', v', hk', hname, henc⟩ := h.covered n w hw
    have hkk : k' ≠ k := by rintro rfl; exact hn hname.symm
    exact ⟨k', v', by rw [Function.update_of_ne hkk]; exact hk', hname, henc⟩

end Updates

/-- Where names have been lost, so have the keys of those names, and no others. -/
theorem Represents.restrict {D' : N → Option W} (h : Represents name enc D live)
    (hlost : ∀ n, D' n = D n ∨ D' n = none) :
    Represents name enc D' fun k => if (D' (name k)).isSome then live k else none where
  stored := by
    intro k v hv
    split at hv
    · rename_i hkept
      rcases hlost (name k) with hname | hname
      · rw [hname, h.stored k v hv]
      · rw [hname] at hkept
        exact absurd hkept Bool.false_ne_true
    · exact absurd hv.symm (Option.some_ne_none v)
  covered := by
    intro n w hw
    have hname : D n = some w := by
      rcases hlost n with hn | hn
      · rw [← hn, hw]
      · rw [hn] at hw
        exact absurd hw.symm (Option.some_ne_none w)
    obtain ⟨k, v, hk, rfl, henc⟩ := h.covered n w hname
    exact ⟨k, v, by rw [hw, Option.isSome_some, if_pos rfl, hk], rfl, henc⟩

/-- The same store under another name function that agrees on the live keys. -/
theorem Represents.rename (h : Represents name enc D live)
    (hagree : ∀ k v, live k = some v → name' k = name k) : Represents name' enc D live where
  stored := by
    intro k v hv
    rw [hagree k v hv]
    exact h.stored k v hv
  covered := by
    intro n w hw
    obtain ⟨k, v, hv, hname, henc⟩ := h.covered n w hw
    exact ⟨k, v, hv, by rw [hagree k v hv, hname], henc⟩

end NamedStore
