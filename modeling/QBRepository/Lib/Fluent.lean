import Mathlib.Logic.Basic

/-!
# Conditions that are built by calls

A query is built call by call: conditions that shall hold together, groups with alternatives
between which `or` stands, and `not` before what is negated.

* `Call` — the calls; `Reads` — the grammar of their sequences, and what a sequence means;
* `Frame` — an open group; `found` — the meaning a stack of open groups finds for a sequence;
* `Reads.found` — it finds the meaning of every clause;
* `Appends` — what a step that makes calls, or throws, adds to a query, with a rule for each way to
  build such steps.
-/

namespace Fluent

variable {Condition Row : Type}

/-- A call of the builder. -/
inductive Call (Condition : Type) where
  | add (condition : Condition)
  | group
  | endGroup
  | or
  | not
deriving DecidableEq

/-- The kinds of sequences the grammar tells apart. -/
inductive Level where
  | clause
  | conjunction
  | alternatives

/-- A sequence of calls of some kind, and the rows on which it holds. -/
inductive Reads (holds : Condition → Row → Bool) :
    Level → List (Call Condition) → (Row → Bool) → Prop
  | add (condition : Condition) : Reads holds .clause [.add condition] (holds condition)
  | not {calls meaning} (h : Reads holds .clause calls meaning) :
    Reads holds .clause (.not :: calls) fun row => !meaning row
  | group {calls meaning} (h : Reads holds .alternatives calls meaning) :
    Reads holds .clause (.group :: (calls ++ [.endGroup])) meaning
  | clause {calls meaning} (h : Reads holds .clause calls meaning) :
    Reads holds .conjunction calls meaning
  | and {calls meaning calls' meaning'} (h : Reads holds .clause calls meaning)
    (h' : Reads holds .conjunction calls' meaning') :
    Reads holds .conjunction (calls ++ calls') fun row => meaning row && meaning' row
  | conjunction {calls meaning} (h : Reads holds .conjunction calls meaning) :
    Reads holds .alternatives calls meaning
  | or {calls meaning calls' meaning'} (h : Reads holds .conjunction calls meaning)
    (h' : Reads holds .alternatives calls' meaning') :
    Reads holds .alternatives (calls ++ .or :: calls') fun row => meaning row || meaning' row

/-! ### A stack of open groups -/

/-- An open group: one of its earlier alternatives holds, the conditions since the last `or`
    hold, and whether what comes next is negated. -/
structure Frame (Row : Type) where
  alternatives : Row → Bool
  current : Row → Bool
  negated : Bool

namespace Frame

/-- A group that has just been opened. -/
def opened : Frame Row := ⟨fun _ => false, fun _ => true, false⟩

def add (frame : Frame Row) (meaning : Row → Bool) : Frame Row where
  alternatives := frame.alternatives
  current row := frame.current row && (frame.negated ^^ meaning row)
  negated := false

def meaning (frame : Frame Row) (row : Row) : Bool := frame.alternatives row || frame.current row

/-- The next alternative begins. -/
def next (frame : Frame Row) : Frame Row where
  alternatives := frame.meaning
  current _ := true
  negated := frame.negated

end Frame

variable (holds : Condition → Row → Bool)

/-- One call on the stack. -/
def step : List (Frame Row) → Call Condition → Option (List (Frame Row))
  | frame :: frames, .add condition => some (frame.add (holds condition) :: frames)
  | frames, .group => some (.opened :: frames)
  | frame :: outer :: frames, .endGroup => some (outer.add frame.meaning :: frames)
  | frame :: frames, .or => some (frame.next :: frames)
  | frame :: frames, .not => some ({ frame with negated := !frame.negated } :: frames)
  | _, _ => none

def run (calls : List (Call Condition)) (frames : List (Frame Row)) :
    Option (List (Frame Row)) :=
  calls.foldlM (step holds) frames

/-- The meaning that is found for a sequence, if its groups are closed. -/
def found (calls : List (Call Condition)) : Option (Row → Bool) :=
  match run holds calls [.opened] with
  | some [frame] => some frame.meaning
  | _ => none

section Run

variable {holds} {calls calls' : List (Call Condition)} {frames frames' : List (Frame Row)}

/-- The first call, and then the others. -/
theorem run_cons (call : Call Condition) :
    run holds (call :: calls) frames = (step holds frames call).bind (run holds calls) :=
  List.foldlM_cons

/-- Sequences one after the other. -/
theorem run_append (h : run holds calls frames = some frames') :
    run holds (calls ++ calls') frames = run holds calls' frames' := by
  rw [run, List.foldlM_append]
  show (run holds calls frames).bind _ = _
  rw [h]
  rfl

/-- What a sequence of some kind does to the group it stands in. -/
def Runs (holds : Condition → Row → Bool) (calls : List (Call Condition))
    (meaning : Row → Bool) : Level → Prop
  | .clause => ∀ frame frames,
    run holds calls (frame :: frames) = some (frame.add meaning :: frames)
  | .conjunction => ∀ frame frames, frame.negated = false →
    run holds calls (frame :: frames) = some (frame.add meaning :: frames)
  | .alternatives => ∀ frame frames, frame.negated = false → (∀ row, frame.current row = true) →
    ∃ frame', run holds calls (frame :: frames) = some (frame' :: frames) ∧
      ∀ row, frame'.meaning row = (frame.alternatives row || meaning row)

/-- A negated clause. -/
theorem runs_not {meaning : Row → Bool} (ih : Runs holds calls meaning .clause) :
    Runs holds (.not :: calls) (fun row => !meaning row) .clause := by
  intro frame frames
  have hstep : step holds (frame :: frames) .not
      = some ({ frame with negated := !frame.negated } :: frames) := rfl
  rw [run_cons, hstep, Option.bind_some, ih]
  simp [Frame.add]

/-- A group. -/
theorem runs_group {meaning : Row → Bool} (ih : Runs holds calls meaning .alternatives) :
    Runs holds (.group :: (calls ++ [.endGroup])) meaning .clause := by
  intro frame frames
  have hstep : step holds (frame :: frames) .group = some (.opened :: frame :: frames) := rfl
  obtain ⟨inner, hrun, hmeaning⟩ := ih .opened (frame :: frames) rfl fun _ => rfl
  have hinner : inner.meaning = meaning := by
    funext row
    rw [hmeaning row]
    exact Bool.false_or _
  rw [run_cons, hstep, Option.bind_some, run_append hrun, run_cons]
  show some (frame.add inner.meaning :: frames) = _
  rw [hinner]

/-- A clause before a conjunction. -/
theorem runs_and {meaning meaning' : Row → Bool} (ih : Runs holds calls meaning .clause)
    (ih' : Runs holds calls' meaning' .conjunction) :
    Runs holds (calls ++ calls') (fun row => meaning row && meaning' row) .conjunction := by
  intro frame frames hnegated
  rw [run_append (ih frame frames), ih' _ frames rfl]
  simp [Frame.add, hnegated, Bool.and_assoc]

/-- A conjunction is the only alternative. -/
theorem runs_conjunction {meaning : Row → Bool} (ih : Runs holds calls meaning .conjunction) :
    Runs holds calls meaning .alternatives := by
  intro frame frames hnegated hcurrent
  refine ⟨frame.add meaning, ih frame frames hnegated, fun row => ?_⟩
  simp [Frame.meaning, Frame.add, hnegated, hcurrent row]

/-- A conjunction before further alternatives. -/
theorem runs_or {meaning meaning' : Row → Bool} (ih : Runs holds calls meaning .conjunction)
    (ih' : Runs holds calls' meaning' .alternatives) :
    Runs holds (calls ++ .or :: calls') (fun row => meaning row || meaning' row)
      .alternatives := by
  intro frame frames hnegated hcurrent
  have hstep : step holds (frame.add meaning :: frames) .or
      = some ((frame.add meaning).next :: frames) := rfl
  obtain ⟨frame', hrun, hmeaning⟩ := ih' (frame.add meaning).next frames rfl fun _ => rfl
  refine ⟨frame', ?_, fun row => ?_⟩
  · rw [run_append (ih frame frames hnegated), run_cons, hstep, Option.bind_some, hrun]
  · rw [hmeaning row]
    simp [Frame.next, Frame.meaning, Frame.add, hnegated, hcurrent row, Bool.or_assoc]

/-- **A sequence does what it means** to the group it stands in, by induction on how it is read. -/
theorem Reads.runs {level : Level} {meaning : Row → Bool}
    (h : Reads holds level calls meaning) : Runs holds calls meaning level := by
  induction h with
  | add condition => exact fun frame frames => rfl
  | not _ ih => exact runs_not ih
  | group _ ih => exact runs_group ih
  | clause _ ih => exact fun frame frames _ => ih frame frames
  | and _ _ ih ih' => exact runs_and ih ih'
  | conjunction _ ih => exact runs_conjunction ih
  | or _ _ ih ih' => exact runs_or ih ih'

/-- **The meaning of a clause is found.** -/
theorem Reads.found {meaning : Row → Bool} (h : Reads holds .clause calls meaning) :
    Fluent.found holds calls = some meaning := by
  have hmeaning : (Frame.opened.add meaning).meaning = meaning := by
    funext row
    simp [Frame.meaning, Frame.add, Frame.opened]
  rw [Fluent.found, h.runs .opened []]
  exact congrArg some hmeaning

end Run

/-! ### Steps that may throw -/

variable {ε : Type}

/-- A step that makes calls on a query, or throws. -/
abbrev Step (ε Condition : Type) := List (Call Condition) → Except ε (List (Call Condition))

/-- Where it is accepted, the step adds a sequence of the kind with the meaning; elsewhere it
    throws. -/
def Appends (holds : Condition → Row → Bool) (level : Level) (accepted : Prop)
    (meaning : Row → Bool) (step : Step ε Condition) : Prop :=
  ∀ calls, (accepted → ∃ added, step calls = .ok (calls ++ added) ∧
      Reads holds level added meaning) ∧
    (¬ accepted → ∃ e, step calls = .error e)

namespace Appends

variable {holds} {level : Level} {accepted accepted' : Prop} {meaning meaning' : Row → Bool}
  {step step' : Step ε Condition}

/-- The same step, with its acceptance and its meaning in other words. -/
theorem congr (h : Appends holds level accepted meaning step) (haccepted : accepted ↔ accepted')
    (hmeaning : meaning = meaning') : Appends holds level accepted' meaning' step := by
  subst hmeaning
  intro calls
  rw [← haccepted]
  exact h calls

/-- A step that always throws. -/
theorem error (e : ε) : Appends holds level False meaning fun _ => .error e :=
  fun _ => ⟨False.elim, fun _ => ⟨e, rfl⟩⟩

/-- A step that adds a condition. -/
theorem add (condition : Condition) :
    Appends holds .clause True (holds condition)
      fun calls => (.ok (calls ++ [.add condition]) : Except ε (List (Call Condition))) :=
  fun _ => ⟨fun _ => ⟨_, rfl, .add condition⟩, fun h => absurd trivial h⟩

/-- A sequence of one kind may be one of another. -/
theorem raise (h : Appends holds level accepted meaning step) {level' : Level}
    (hlevel : ∀ {calls}, Reads holds level calls meaning → Reads holds level' calls meaning) :
    Appends holds level' accepted meaning step := by
  intro calls
  refine ⟨fun haccepted => ?_, (h calls).2⟩
  obtain ⟨added, hstep, hadded⟩ := (h calls).1 haccepted
  exact ⟨added, hstep, hlevel hadded⟩

/-- What a step adds between some calls before it and some behind it. -/
theorem around (h : Appends holds level accepted meaning step)
    {before behind : List (Call Condition)} {level' : Level} {meaning' : Row → Bool}
    (hreads : ∀ {calls}, Reads holds level calls meaning →
      Reads holds level' (before ++ calls ++ behind) meaning') :
    Appends holds level' accepted meaning' fun calls => do
      let calls ← step (calls ++ before)
      return calls ++ behind := by
  intro calls
  constructor
  · intro haccepted
    obtain ⟨added, hstep, hadded⟩ := (h (calls ++ before)).1 haccepted
    refine ⟨before ++ added ++ behind, ?_, hreads hadded⟩
    show (step (calls ++ before) >>= fun calls => pure (calls ++ behind)) = _
    rw [hstep]
    show Except.ok _ = Except.ok _
    simp only [List.append_assoc]
  · intro haccepted
    obtain ⟨e, hstep⟩ := (h (calls ++ before)).2 haccepted
    refine ⟨e, ?_⟩
    show (step (calls ++ before) >>= fun calls => pure (calls ++ behind)) = _
    rw [hstep]
    rfl

/-- A step between `not` and the end. -/
theorem not (h : Appends holds .clause accepted meaning step) :
    Appends holds .clause accepted (fun row => !meaning row)
      fun calls => step (calls ++ [.not]) := by
  intro calls
  refine ⟨fun haccepted => ?_, (h _).2⟩
  obtain ⟨added, hstep, hadded⟩ := (h (calls ++ [.not])).1 haccepted
  refine ⟨.not :: added, ?_, .not hadded⟩
  show step (calls ++ [.not]) = _
  rw [hstep, List.append_assoc, List.singleton_append]

/-- A step in a group. -/
theorem group (h : Appends holds .alternatives accepted meaning step) :
    Appends holds .clause accepted meaning fun calls => do
      let calls ← step (calls ++ [.group])
      return calls ++ [.endGroup] :=
  h.around fun hreads => .group hreads

/-- Two steps with some calls between them. -/
theorem seq {level₁ level₂ : Level} (h : Appends holds level₁ accepted meaning step)
    (h' : Appends holds level₂ accepted' meaning' step') {between : List (Call Condition)}
    {meaning'' : Row → Bool}
    (hreads : ∀ {calls calls'}, Reads holds level₁ calls meaning →
      Reads holds level₂ calls' meaning' →
      Reads holds level (calls ++ (between ++ calls')) meaning'') :
    Appends holds level (accepted ∧ accepted') meaning''
      fun calls => step calls >>= fun calls => step' (calls ++ between) := by
  intro calls
  by_cases haccepted : accepted
  · obtain ⟨added, hstep, hadded⟩ := (h calls).1 haccepted
    have hseq : (step calls >>= fun calls => step' (calls ++ between))
        = step' (calls ++ added ++ between) := by
      rw [hstep]
      rfl
    constructor
    · intro hboth
      obtain ⟨added', hstep', hadded'⟩ := (h' (calls ++ added ++ between)).1 hboth.2
      refine ⟨added ++ (between ++ added'), ?_, hreads hadded hadded'⟩
      show (step calls >>= _) = _
      rw [hseq, hstep']
      simp only [List.append_assoc]
    · intro hboth
      obtain ⟨e, hstep'⟩ := (h' (calls ++ added ++ between)).2 fun h => hboth ⟨haccepted, h⟩
      exact ⟨e, hseq.trans hstep'⟩
  · obtain ⟨e, hstep⟩ := (h calls).2 haccepted
    refine ⟨fun hboth => absurd hboth.1 haccepted, fun _ => ⟨e, ?_⟩⟩
    show (step calls >>= fun calls => step' (calls ++ between)) = _
    rw [hstep]
    rfl

/-- Two steps one after the other. -/
theorem and (h : Appends holds .clause accepted meaning step)
    (h' : Appends holds .conjunction accepted' meaning' step') :
    Appends holds .conjunction (accepted ∧ accepted') (fun row => meaning row && meaning' row)
      fun calls => step calls >>= step' := by
  have hseq : Appends holds .conjunction (accepted ∧ accepted')
      (fun row => meaning row && meaning' row)
      fun calls => step calls >>= fun calls => step' (calls ++ []) :=
    h.seq h' fun hreads hreads' => .and hreads hreads'
  simpa only [List.append_nil] using hseq

/-- Two steps with `or` between them. -/
theorem or (h : Appends holds .clause accepted meaning step)
    (h' : Appends holds .alternatives accepted' meaning' step') :
    Appends holds .alternatives (accepted ∧ accepted') (fun row => meaning row || meaning' row)
      fun calls => step calls >>= fun calls => step' (calls ++ [.or]) :=
  h.seq h' fun hreads hreads' => .or (.clause hreads) hreads'

/-- A check before a step. -/
theorem check {checked : Prop} {result : Except ε Unit} (hok : checked → result = .ok ())
    (herror : ¬ checked → ∃ e, result = .error e)
    (h : Appends holds level accepted meaning step) :
    Appends holds level (checked ∧ accepted) meaning
      fun calls => result >>= fun _ => step calls := by
  intro calls
  by_cases hchecked : checked
  · rw [hok hchecked]
    exact ⟨fun hboth => (h calls).1 hboth.2, fun hboth => (h calls).2 fun h => hboth ⟨hchecked, h⟩⟩
  · obtain ⟨e, hresult⟩ := herror hchecked
    rw [hresult]
    exact ⟨fun hboth => absurd hboth.1 hchecked, fun _ => ⟨e, rfl⟩⟩

end Appends

end Fluent
