import Mathlib.Order.WellFounded

/-!
# Programs that may raise or diverge

`Outcome` is the result of a call: it returns, raises, or does not come back.  Loops and
recursions take fuel and diverge when it runs out; `Converges f a` says that `f` returns `a`
with all fuel from some point on.

* `loop` — a `while` loop; `loop_invariant` is its rule of partial correctness, `loop_converges`
  the rule with a variant, `loop_diverges` the one for loops that never end;
* `forEach` — a `for` loop over a list, with the same two rules (`forEach_invariant`,
  `forEach_converges`);
* `Commutes g g' f` — a call that makes no difference between `s` and `g s`, but for what `g'` does
  to its result; sequences and loops of such calls are such calls;
* `Meets R x y` — a call returns what its specification says, up to `R`, or raises where that says
  nothing; sequences of such calls do.
-/

/-- The result of a call. -/
inductive Outcome (α : Type) where
  | returns (a : α)
  | raises
  | diverges

namespace Outcome

variable {α β σ : Type}

/-- Sequencing: the first call that does not return decides. -/
def bind (x : Outcome α) (f : α → Outcome β) : Outcome β :=
  match x with
  | returns a => f a
  | raises => raises
  | diverges => diverges

instance : Monad Outcome where
  pure := returns
  bind := bind

@[simp] theorem pure_eq (a : α) : (pure a : Outcome α) = returns a := rfl

@[simp] theorem returns_bind (a : α) (f : α → Outcome β) : (returns a >>= f) = f a := rfl

@[simp] theorem raises_bind (f : α → Outcome β) : ((raises : Outcome α) >>= f) = raises := rfl

@[simp] theorem diverges_bind (f : α → Outcome β) : ((diverges : Outcome α) >>= f) = diverges := rfl

instance : LawfulMonad Outcome := LawfulMonad.mk' Outcome
  (fun x => by cases x <;> rfl) (fun _ _ => rfl) (fun x _ _ => by cases x <;> rfl)

/-- A sequence returns if both calls do. -/
theorem bind_eq_returns {x : Outcome α} {f : α → Outcome β} {b : β} :
    (x >>= f) = returns b ↔ ∃ a, x = returns a ∧ f a = returns b := by
  cases x with
  | returns a => exact ⟨fun h => ⟨a, rfl, h⟩, fun ⟨_, ha, h⟩ => (returns.inj ha) ▸ h⟩
  | raises => exact ⟨fun h => (by cases h), fun ⟨_, ha, _⟩ => (by cases ha)⟩
  | diverges => exact ⟨fun h => (by cases h), fun ⟨_, ha, _⟩ => (by cases ha)⟩

/-! ### Enough fuel -/

/-- With enough fuel, `f` returns `a`. -/
def Converges (f : Nat → Outcome α) (a : α) : Prop := ∃ n, ∀ fuel, n ≤ fuel → f fuel = returns a

/-- An outcome that needs no fuel. -/
theorem Converges.const (a : α) : Converges (fun _ => returns a) a := ⟨0, fun _ _ => rfl⟩

/-- An outcome that is reached with some fuel more. -/
theorem Converges.of_add {f : Nat → Outcome α} {a : α} (n : Nat)
    (h : ∀ fuel, f (fuel + n) = returns a) : Converges f a := by
  refine ⟨n, fun fuel hfuel => ?_⟩
  obtain ⟨m, rfl⟩ := Nat.exists_eq_add_of_le' hfuel
  exact h m

/-- A call that needs one unit of fuel more. -/
theorem Converges.succ {f g : Nat → Outcome α} {a : α} (hf : Converges f a)
    (h : ∀ fuel, g (fuel + 1) = f fuel) : Converges g a := by
  obtain ⟨n, hn⟩ := hf
  refine .of_add (n + 1) fun m => ?_
  rw [← Nat.add_assoc, h, hn (m + n) (by omega)]

/-- Two outcomes one after the other. -/
theorem Converges.bind {f : Nat → Outcome α} {g : α → Nat → Outcome β} {a : α} {b : β}
    (hf : Converges f a) (hg : Converges (g a) b) :
    Converges (fun fuel => f fuel >>= fun a => g a fuel) b := by
  obtain ⟨n, hn⟩ := hf
  obtain ⟨m, hm⟩ := hg
  refine ⟨max n m, fun fuel hfuel => ?_⟩
  show (f fuel >>= fun a => g a fuel) = returns b
  rw [hn fuel (by omega), returns_bind, hm fuel (by omega)]

/-- There is at most one outcome. -/
theorem Converges.unique {f : Nat → Outcome α} {a b : α} (ha : Converges f a)
    (hb : Converges f b) : a = b := by
  obtain ⟨n, hn⟩ := ha
  obtain ⟨m, hm⟩ := hb
  exact returns.inj ((hn (max n m) (by omega)).symm.trans (hm (max n m) (by omega)))

/-- What diverges with any fuel has no outcome. -/
theorem not_converges_of_diverges {f : Nat → Outcome α} (h : ∀ fuel, f fuel = diverges) (a : α) :
    ¬ Converges f a := by
  rintro ⟨n, hn⟩
  cases (h n).symm.trans (hn n le_rfl)

/-! ### While loops -/

/-- Repeat the body until it returns `none`. -/
def loop (body : σ → Outcome (Option σ)) : Nat → σ → Outcome σ
  | 0, _ => diverges
  | fuel + 1, s => do
    match ← body s with
    | none => returns s
    | some s' => loop body fuel s'

/-- The loop ends. -/
theorem loop_of_none {body : σ → Outcome (Option σ)} {s : σ} (h : body s = returns none)
    (fuel : Nat) : loop body (fuel + 1) s = returns s := by
  rw [loop, h, returns_bind]

/-- The loop goes on. -/
theorem loop_of_some {body : σ → Outcome (Option σ)} {s s' : σ}
    (h : body s = returns (some s')) (fuel : Nat) :
    loop body (fuel + 1) s = loop body fuel s' := by
  rw [loop, h, returns_bind]

/-- **Invariant rule.** What the body preserves holds when the loop returns, and the body has
    nothing left to do then. -/
theorem loop_invariant {body : σ → Outcome (Option σ)} {I : σ → Prop}
    (hbody : ∀ s s', I s → body s = returns (some s') → I s') {fuel : Nat} {s t : σ}
    (hs : I s) (h : loop body fuel s = returns t) : I t ∧ body t = returns none := by
  induction fuel generalizing s with
  | zero => cases h
  | succ fuel ih =>
    obtain ⟨next, hnext, h⟩ := bind_eq_returns.mp h
    cases next with
    | none =>
      obtain rfl := returns.inj h
      exact ⟨hs, hnext⟩
    | some s' => exact ih (hbody s s' hs hnext) h

/-- **Variant rule.** A loop whose body never raises, keeps an invariant and decreases a
    well-founded relation returns. -/
theorem loop_converges {body : σ → Outcome (Option σ)} {I : σ → Prop} {r : σ → σ → Prop}
    (hr : WellFounded r)
    (hbody : ∀ s, I s → body s = returns none ∨
      ∃ s', body s = returns (some s') ∧ I s' ∧ r s' s) {s : σ} (hs : I s) :
    ∃ t, Converges (fun fuel => loop body fuel s) t := by
  induction s using hr.induction with
  | _ s ih =>
    rcases hbody s hs with hnone | ⟨s', hsome, hs', hlt⟩
    · exact ⟨s, (Converges.const s).succ (loop_of_none hnone)⟩
    · obtain ⟨t, ht⟩ := ih s' hlt hs'
      exact ⟨t, ht.succ (loop_of_some hsome)⟩

/-- **Divergence rule.** A loop whose body keeps an invariant and never ends does not come
    back. -/
theorem loop_diverges {body : σ → Outcome (Option σ)} {I : σ → Prop}
    (hbody : ∀ s, I s → ∃ s', body s = returns (some s') ∧ I s') (fuel : Nat) {s : σ}
    (hs : I s) : loop body fuel s = diverges := by
  induction fuel generalizing s with
  | zero => rfl
  | succ fuel ih =>
    obtain ⟨s', hnext, hs'⟩ := hbody s hs
    rw [loop_of_some hnext]
    exact ih hs'

/-! ### For loops -/

/-- Run a call for each element of a list. -/
def forEach (f : α → σ → Outcome σ) : List α → σ → Outcome σ
  | [], s => returns s
  | a :: as, s => do
    let s ← f a s
    forEach f as s

@[simp] theorem forEach_nil (f : α → σ → Outcome σ) (s : σ) : forEach f [] s = returns s := rfl

/-- The first element, and then the others. -/
theorem forEach_cons (f : α → σ → Outcome σ) (a : α) (as : List α) (s : σ) :
    forEach f (a :: as) s = (f a s >>= forEach f as) := rfl

/-- One element. -/
theorem forEach_singleton (f : α → σ → Outcome σ) (a : α) (s : σ) : forEach f [a] s = f a s := by
  rw [forEach_cons]
  cases f a s <;> rfl

/-- The elements of two lists, one after the other. -/
theorem forEach_append (f : α → σ → Outcome σ) (as bs : List α) (s : σ) :
    forEach f (as ++ bs) s = (forEach f as s >>= forEach f bs) := by
  induction as generalizing s with
  | nil => rfl
  | cons a as ih =>
    rw [List.cons_append, forEach_cons, forEach_cons]
    cases f a s with
    | returns s' => exact ih s'
    | raises => rfl
    | diverges => rfl

/-- **Invariant rule**, for an invariant that knows the elements done. -/
theorem forEach_invariant {f : α → σ → Outcome σ} {I : List α → σ → Prop}
    {as : List α} (hf : ∀ pre a post s s', as = pre ++ a :: post → I pre s → f a s = returns s' →
      I (pre ++ [a]) s') {s t : σ} (hs : I [] s) (h : forEach f as s = returns t) : I as t := by
  have hrest : ∀ post pre s, as = pre ++ post → I pre s → forEach f post s = returns t →
      I as t := by
    intro post
    induction post with
    | nil =>
      intro pre s has hs h
      obtain rfl := returns.inj h
      rw [has, List.append_nil]
      exact hs
    | cons a post ih =>
      intro pre s has hs h
      obtain ⟨s', hs', h⟩ := bind_eq_returns.mp h
      exact ih (pre ++ [a]) s' (by rw [has, List.append_assoc, List.singleton_append])
        (hf pre a post s s' has hs hs') h
  exact hrest as [] s rfl hs h

/-- **Convergence rule**, for an invariant that knows the elements done. -/
theorem forEach_converges {f : Nat → α → σ → Outcome σ} {I : List α → σ → Prop}
    {as : List α} (hf : ∀ pre a post s, as = pre ++ a :: post → I pre s →
      ∃ s', Converges (fun fuel => f fuel a s) s' ∧ I (pre ++ [a]) s') {s : σ} (hs : I [] s) :
    ∃ t, Converges (fun fuel => forEach (f fuel) as s) t ∧ I as t := by
  have hrest : ∀ post pre s, as = pre ++ post → I pre s →
      ∃ t, Converges (fun fuel => forEach (f fuel) post s) t ∧ I as t := by
    intro post
    induction post with
    | nil =>
      intro pre s has hs
      refine ⟨s, .const s, ?_⟩
      rw [has, List.append_nil]
      exact hs
    | cons a post ih =>
      intro pre s has hs
      obtain ⟨s', hs', hI⟩ := hf pre a post s has hs
      obtain ⟨t, ht, hI⟩ := ih (pre ++ [a]) s'
        (by rw [has, List.append_assoc, List.singleton_append]) hI
      exact ⟨t, hs'.bind ht, hI⟩
  exact hrest as [] s rfl hs

/-! ### Calls that commute with a change of the state -/

section Commutes

variable {τ υ : Type} {g : σ → σ} {g' : τ → τ} {g'' : υ → υ}

/-- Calling `f` after the change `g` is changing the result of `f` by `g'`. -/
def Commutes (g : σ → σ) (g' : τ → τ) (f : σ → Outcome τ) : Prop :=
  ∀ s, f (g s) = f s >>= fun t => returns (g' t)

/-- Two calls that commute with a change do so together. -/
theorem Commutes.bind {f : σ → Outcome τ} {k : τ → Outcome υ} (hf : Commutes g g' f)
    (hk : Commutes g' g'' k) : Commutes g g'' fun s => f s >>= k := by
  intro s
  show (f (g s) >>= k) = ((f s >>= k) >>= fun u => returns (g'' u))
  rw [hf s]
  cases f s with
  | returns t => exact hk t
  | raises => rfl
  | diverges => rfl

/-- So does a loop over a list. -/
theorem Commutes.forEach {f : α → σ → Outcome σ} {as : List α}
    (hf : ∀ a ∈ as, Commutes g g (f a)) : Commutes g g (forEach f as) := by
  induction as with
  | nil => exact fun s => rfl
  | cons a as ih =>
    exact (hf a List.mem_cons_self).bind (ih fun b hb => hf b (List.mem_cons_of_mem a hb))

/-- So does a loop, for any fuel. -/
theorem Commutes.loop {body : σ → Outcome (Option σ)} (hbody : Commutes g (Option.map g) body)
    (fuel : Nat) : Commutes g g (loop body fuel) := by
  induction fuel with
  | zero => exact fun s => rfl
  | succ fuel ih =>
    intro s
    rw [Outcome.loop, Outcome.loop, hbody s]
    cases body s with
    | returns next =>
      cases next with
      | none => rfl
      | some s' => exact ih s'
    | raises => rfl
    | diverges => rfl

end Commutes

/-! ### Calls that meet a specification -/

section Meets

variable {τ υ ω : Type} {R : σ → τ → Prop} {Q : υ → ω → Prop}

/-- The call returns what the specification says, or raises where it says nothing. -/
def Meets (R : σ → τ → Prop) (x : Outcome σ) (y : Option τ) : Prop :=
  (∃ s t, x = returns s ∧ y = some t ∧ R s t) ∨ x = raises ∧ y = none

/-- A result that is related to the one that is specified. -/
theorem Meets.returns {s : σ} {t : τ} (h : R s t) : Meets R (returns s) (some t) :=
  Or.inl ⟨s, t, rfl, rfl, h⟩

/-- Related calls one after the other. -/
theorem Meets.bind {x : Outcome σ} {y : Option τ} {f : σ → Outcome υ} {g : τ → Option ω}
    (hx : Meets R x y) (hf : ∀ s t, R s t → Meets Q (f s) (g t)) :
    Meets Q (x >>= f) (y >>= g) := by
  rcases hx with ⟨s, t, rfl, rfl, h⟩ | ⟨rfl, rfl⟩
  · exact hf s t h
  · exact Or.inr ⟨rfl, rfl⟩

/-- **Simulation rule** for a loop over a list. -/
theorem Meets.forEach {f : α → σ → Outcome σ} {g : τ → α → Option τ} {as : List α}
    (hf : ∀ a ∈ as, ∀ s t, R s t → Meets R (f a s) (g t a)) {s : σ} {t : τ} (h : R s t) :
    Meets R (Outcome.forEach f as s) (as.foldlM g t) := by
  induction as generalizing s t with
  | nil => exact Meets.returns h
  | cons a as ih =>
    rw [forEach_cons, List.foldlM_cons]
    refine (hf a List.mem_cons_self s t h).bind fun s' t' h' => ?_
    exact ih (fun b hb => hf b (List.mem_cons_of_mem a hb)) h'

end Meets

end Outcome
