import Mathlib.Data.List.Basic

namespace Machine

/-!
# Machines that answer, and what they may answer

A machine `f : σ → ι → ω × σ` answers each input and goes to a next state; a specification is a
relation that says which answers and which next states are allowed.

* `outputs`, `final` — the answers to a list of inputs, and the state after them; `run_mapM` — a
  monadic map over a list is such a run;
* `Along P` — `P` holds of every input in the state in which it is given;
* `Runs spec` — a run the specification allows;
* `Runs.simulates` — a machine whose steps are allowed, in related states, only has runs that are
  allowed, with the same answers;
* `Runs.agree` — runs of a specification that leaves no choice but between answers that are alike.
-/

variable {σ τ ι ω : Type*}

section Run

variable (f : σ → ι → ω × σ)

/-- The answers to the inputs, one after another. -/
def outputs : σ → List ι → List ω
  | _, [] => []
  | s, i :: is => (f s i).1 :: outputs (f s i).2 is

/-- The state after the inputs. -/
def final : σ → List ι → σ
  | s, [] => s
  | s, i :: is => final (f s i).2 is

/-- `P` holds of each input in the state in which it is given. -/
def Along (P : σ → ι → Prop) : σ → List ι → Prop
  | _, [] => True
  | s, i :: is => P s i ∧ Along P (f s i).2 is

/-- The final state is a fold. -/
theorem final_eq_foldl (s : σ) (is : List ι) :
    final f s is = is.foldl (fun s i => (f s i).2) s := by
  induction is generalizing s with
  | nil => rfl
  | cons i is ih => exact ih (f s i).2

variable {f} {P Q : σ → ι → Prop}

/-- What holds of the inputs in every state holds along the run. -/
theorem Along.of_mem {is : List ι} (h : ∀ s, ∀ i ∈ is, P s i) (s : σ) : Along f P s is := by
  induction is generalizing s with
  | nil => trivial
  | cons i is ih =>
    exact ⟨h s i List.mem_cons_self,
      ih (fun s j hj => h s j (List.mem_cons_of_mem _ hj)) (f s i).2⟩

/-- Two conditions that hold along a run hold together. -/
theorem Along.and {s : σ} {is : List ι} (hP : Along f P s is) (hQ : Along f Q s is) :
    Along f (fun s i => P s i ∧ Q s i) s is := by
  induction is generalizing s with
  | nil => trivial
  | cons i is ih => exact ⟨⟨hP.1, hQ.1⟩, ih hP.2 hQ.2⟩

/-- A weaker condition holds along a run, too. -/
theorem Along.imp {s : σ} {is : List ι} (h : Along f P s is) (himp : ∀ s i, P s i → Q s i) :
    Along f Q s is := by
  induction is generalizing s with
  | nil => trivial
  | cons i is ih => exact ⟨himp s i h.1, ih h.2⟩

/-- A run of which `P` holds, or `q` whatever the run. -/
theorem Along.or {q : Prop} {s : σ} {is : List ι} (h : Along f P s is ∨ q) :
    Along f (fun s i => P s i ∨ q) s is := by
  rcases h with h | h
  · exact h.imp fun _ _ => Or.inl
  · exact Along.of_mem (fun _ _ _ => Or.inr h) s

end Run

/-- Mapping a stateful function over a list runs the machine on the list. -/
theorem run_mapM {σ ι ω : Type} (f : ι → StateM σ ω) (is : List ι) (s : σ) :
    (is.mapM f).run s
      = (outputs (fun s i => (f i).run s) s is, final (fun s i => (f i).run s) s is) := by
  induction is generalizing s with
  | nil => rfl
  | cons i is ih =>
    rw [List.mapM_cons]
    have hrest := ih ((f i).run s).2
    show ((is.mapM f).run ((f i).run s).2 |> fun r => (((f i).run s).1 :: r.1, r.2)) = _
    rw [hrest]
    rfl

/-- A run that the specification allows, with its answers. -/
inductive Runs (spec : τ → ι → ω → τ → Prop) : τ → List ι → List ω → τ → Prop where
  | nil (t : τ) : Runs spec t [] [] t
  | cons {t t' t'' : τ} {i : ι} {is : List ι} {o : ω} {os : List ω} (head : spec t i o t')
      (tail : Runs spec t' is os t'') : Runs spec t (i :: is) (o :: os) t''

/-- **Simulation.** If related states stay related in each step whose input meets `P`, by a step
    the specification allows, then so they do in each run whose inputs all meet `P`. -/
theorem Runs.simulates {f : σ → ι → ω × σ} {spec : τ → ι → ω → τ → Prop} {R : σ → τ → Prop}
    {P : σ → ι → Prop}
    (hstep : ∀ s t i, P s i → R s t → ∃ t', spec t i (f s i).1 t' ∧ R (f s i).2 t')
    (is : List ι) {s : σ} {t : τ} (hP : Along f P s is) (h : R s t) :
    ∃ t', Runs spec t is (outputs f s is) t' ∧ R (final f s is) t' := by
  induction is generalizing s t with
  | nil => exact ⟨t, .nil t, h⟩
  | cons i is ih =>
    obtain ⟨t', hhead, h'⟩ := hstep s t i hP.1 h
    obtain ⟨t'', htail, h''⟩ := ih hP.2 h'
    exact ⟨t'', .cons hhead htail, h''⟩

/-- If the specification leaves no choice but between answers that are alike, then the answers of
    its runs are alike. -/
theorem Runs.agree {spec : τ → ι → ω → τ → Prop} {alike : ω → ω → Prop} {is : List ι}
    {t t₁ t₂ : τ} {os₁ os₂ : List ω} (h₁ : Runs spec t is os₁ t₁) (h₂ : Runs spec t is os₂ t₂)
    (hstep : ∀ {t t₁ t₂ i o₁ o₂}, spec t i o₁ t₁ → spec t i o₂ t₂ → alike o₁ o₂ ∧ t₁ = t₂) :
    List.Forall₂ alike os₁ os₂ ∧ t₁ = t₂ := by
  induction h₁ generalizing os₂ t₂ with
  | nil t =>
    cases h₂
    exact ⟨.nil, rfl⟩
  | cons head tail ih =>
    obtain _ | ⟨head', tail'⟩ := h₂
    obtain ⟨halike, rfl⟩ := hstep head head'
    obtain ⟨hrest, rfl⟩ := ih tail'
    exact ⟨.cons halike hrest, rfl⟩

end Machine
