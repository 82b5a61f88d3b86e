import QBRepository.FileSystem.Aliasing

namespace QBRepository

open IdentifiableCodable renaming id → idOf

/-!
# When `FileSystemRepository` survives a restart

`hashValue` is constant within one execution of the program only, but the file names it
yields stay on disk.  A history is a list of executions that share one directory; it may be
cut after any call (`CutAt`), and the executions to come ask for what was stored so far.

* `Survives` — at every cut `getAll` has at most one model per id, and every id is looked up
  correctly in the present execution and in each later one;
* `Stable` — every id live at a cut hashes the same in each later execution;
* `survives_iff` — the two are equivalent.  The step is `reads_iff_agree`: a directory written
  under one hash function is read correctly under another one exactly if the two agree on the
  live ids.
-/

variable {Id Model Data : Type} [IdentifiableCodable Model Id]

/-- One execution of the program: its hash function and the calls it makes. -/
structure Execution (Id Model : Type) where
  hashValue : Id → Int
  ops : List (Op Model)

/-- The same process environment with another hash function. -/
def Environment.withHash (env : Environment Id) (hashValue : Id → Int) : Environment Id :=
  { env with hashValue }

/-- All calls of a history, in order. -/
def callsOf (history : List (Execution Id Model)) : List (Op Model) :=
  history.flatMap Execution.ops

omit [IdentifiableCodable Model Id] in
/-- No executions, no calls. -/
@[simp] theorem callsOf_nil : callsOf ([] : List (Execution Id Model)) = [] := rfl

omit [IdentifiableCodable Model Id] in
/-- The calls of the first execution come first. -/
@[simp] theorem callsOf_cons (e : Execution Id Model) (history : List (Execution Id Model)) :
    callsOf (e :: history) = e.ops ++ callsOf history := List.flatMap_cons

/-- `history` can be cut after some call: `past` is what has run by then, under `current`
    in its last execution, and `later` are the hash functions of the executions to come. -/
def CutAt (history past : List (Execution Id Model)) (current : Id → Int)
    (later : List (Id → Int)) : Prop :=
  ∃ before done rest after, history = before ++ ⟨current, done ++ rest⟩ :: after ∧
    past = before ++ [⟨current, done⟩] ∧ later = after.map Execution.hashValue

omit [IdentifiableCodable Model Id] in
/-- Nothing to cut. -/
theorem not_cutAt_nil {past : List (Execution Id Model)} {current : Id → Int}
    {later : List (Id → Int)} : ¬ CutAt [] past current later := by
  rintro ⟨before, done, rest, after, hhist, _, _⟩
  simp at hhist

omit [IdentifiableCodable Model Id] in
/-- A cut lies in the first execution or in the remaining history. -/
theorem cutAt_cons {e : Execution Id Model} {history past : List (Execution Id Model)}
    {current : Id → Int} {later : List (Id → Int)} :
    CutAt (e :: history) past current later ↔
      (∃ done rest, e.ops = done ++ rest ∧ current = e.hashValue ∧
        past = [⟨e.hashValue, done⟩] ∧ later = history.map Execution.hashValue) ∨
      ∃ past', CutAt history past' current later ∧ past = e :: past' := by
  constructor
  · rintro ⟨before, done, rest, after, hhist, hpast, hlater⟩
    cases before with
    | nil =>
      simp only [List.nil_append, List.cons.injEq] at hhist
      obtain ⟨rfl, rfl⟩ := hhist
      exact Or.inl ⟨done, rest, rfl, rfl, hpast, hlater⟩
    | cons e' before =>
      simp only [List.cons_append, List.cons.injEq] at hhist
      obtain ⟨rfl, rfl⟩ := hhist
      exact Or.inr ⟨_, ⟨before, done, rest, after, rfl, rfl, hlater⟩, hpast⟩
  · rintro (⟨done, rest, hops, rfl, rfl, rfl⟩ |
      ⟨past', ⟨before, done, rest, after, rfl, rfl, rfl⟩, rfl⟩)
    · exact ⟨[], done, rest, history, by rw [← hops]; rfl, rfl, rfl⟩
    · exact ⟨e :: before, done, rest, after, rfl, rfl, rfl⟩

namespace FileSystemRepository

variable (repo : FileSystemRepository Model Data) (env : Environment Id)

/-- The file system after a history. -/
def runHistory (fm : FileManager Data) (history : List (Execution Id Model)) :
    FileManager Data :=
  history.foldl (fun fm e => repo.run (env.withHash e.hashValue) fm e.ops) fm

section Laws

variable [DecidableEq Id]

/-- At a cut, what is read agrees with the live models. -/
structure ReadsLive (S : Set Id) (current : Id → Int) (later : List (Id → Int))
    (fm : FileManager Data) (live : Live Id Model) : Prop where
  onePerId : ((((repo.getAll (env.withHash current)).run fm).1).map idOf).Nodup
  lookup : ∀ hashValue ∈ current :: later, ∀ k ∈ S,
    repo.getElement (env.withHash hashValue) (.modelId k) fm = live k

/-- **The law of restarts**, for a history that starts with `fm`, where `live` is stored. -/
def Survives (S : Set Id) (fm : FileManager Data) (live : Live Id Model)
    (history : List (Execution Id Model)) : Prop :=
  ∀ past current later, CutAt history past current later →
    repo.ReadsLive env S current later (repo.runHistory env fm past)
      (liveAfter live (callsOf past))

/-- Every id live at a cut hashes the same in the later executions as in the present one. -/
def Stable (live : Live Id Model) (history : List (Execution Id Model)) : Prop :=
  ∀ past current later, CutAt history past current later → ∀ hashValue ∈ later,
    ∀ k, liveAfter live (callsOf past) k ≠ none → hashValue k = current k

end Laws

section Equivalence

variable {repo env} {S : Set Id} {fm : FileManager Data} {live : Live Id Model}
  {current : Id → Int}

/-- A directory represents the live models under every hash function that agrees with the
    one it was written under on the live ids. -/
theorem Stores.withHash {hashValue : Id → Int} (h : repo.Stores (env.withHash current) S fm live)
    (hagree : ∀ k, live k ≠ none → hashValue k = current k) :
    repo.Stores (env.withHash hashValue) S fm live where
  represents := h.represents.rename fun k model hk => by
    show toString (hashValue k) = toString (current k)
    rw [hagree k (by rw [hk]; simp)]
  liveIn := h.liveIn
  keyed := h.keyed

/-- **A written directory is read correctly exactly under agreeing hash functions.** -/
theorem reads_iff_agree (hcodec : ∀ model, repo.decode (repo.encode model) = some model)
    (h : repo.Stores (env.withHash current) S fm live) {hashValue : Id → Int}
    (hinj : Set.InjOn hashValue S) :
    (∀ k ∈ S, repo.getElement (env.withHash hashValue) (.modelId k) fm = live k) ↔
      ∀ k, live k ≠ none → hashValue k = current k := by
  constructor
  · intro hreads k hk
    obtain ⟨model, hlive⟩ := Option.ne_none_iff_exists'.mp hk
    have hget := hreads k (h.liveIn k model hlive)
    rw [hlive] at hget
    -- the file found is the file of the model's own id, i.e. of `k`
    obtain ⟨data, hfile, hdec⟩ := getElement_eq_some hget
    obtain ⟨k', stored, hk', hname, hdata⟩ := h.represents.covered _ _ hfile
    obtain rfl : repo.encode stored = data := Node.file.inj hdata
    rw [hcodec, Option.some.injEq] at hdec
    have hkk : k' = k := by rw [← h.keyed k' stored hk', hdec, h.keyed k model hlive]
    rw [hkk] at hname
    exact (Int.repr_injective hname).symm
  · intro hagree k hk
    exact (h.withHash hagree).getElement hinj hcodec hk

variable [DecidableEq Id]

omit [DecidableEq Id] in
/-- At one cut, reading the live models is agreeing on the live ids. -/
theorem readsLive_iff (hcodec : ∀ model, repo.decode (repo.encode model) = some model)
    (hq : env.Quiet) (h : repo.Stores (env.withHash current) S fm live)
    {later : List (Id → Int)} (hinj : ∀ hashValue ∈ current :: later, Set.InjOn hashValue S) :
    repo.ReadsLive env S current later fm live ↔
      ∀ hashValue ∈ later, ∀ k, live k ≠ none → hashValue k = current k := by
  constructor
  · intro hreads hashValue hlater
    have hmem := List.mem_cons_of_mem current hlater
    exact (reads_iff_agree hcodec h (hinj hashValue hmem)).mp (hreads.lookup hashValue hmem)
  · intro hagree
    have hq' : (env.withHash current).Quiet := fun n => hq n
    obtain ⟨hnd, hall⟩ := h.getAll hq' hcodec
    -- two live models with the same id are the same model
    refine ⟨List.Nodup.map_on (fun model hm model' hm' hid => ?_) hnd, fun hashValue hmem => ?_⟩
    · have hlive := (hall model).mp hm
      rw [hid, (hall model').mp hm', Option.some.injEq] at hlive
      exact hlive.symm
    · refine (reads_iff_agree hcodec h (hinj hashValue hmem)).mpr ?_
      rcases List.mem_cons.mp hmem with rfl | hlater
      · exact fun _ _ => rfl
      · exact hagree hashValue hlater

/-- The law of restarts for a history is the law at the cuts of its first execution and the
    law for the rest. -/
theorem survives_cons (e : Execution Id Model) (history : List (Execution Id Model)) :
    repo.Survives env S fm live (e :: history) ↔
      (∀ done rest, e.ops = done ++ rest →
        repo.ReadsLive env S e.hashValue (history.map Execution.hashValue)
          (repo.run (env.withHash e.hashValue) fm done) (liveAfter live done)) ∧
      repo.Survives env S (repo.run (env.withHash e.hashValue) fm e.ops) (liveAfter live e.ops)
        history := by
  constructor
  · intro h
    refine ⟨fun done rest hops => ?_, fun past current later hcut => ?_⟩
    · simpa [runHistory, callsOf] using
        h _ _ _ (cutAt_cons.mpr (Or.inl ⟨done, rest, hops, rfl, rfl, rfl⟩))
    · simpa [runHistory, callsOf, liveAfter] using
        h _ _ _ (cutAt_cons.mpr (Or.inr ⟨past, hcut, rfl⟩))
  · rintro ⟨hfirst, hrest⟩ past current later hcut
    rcases cutAt_cons.mp hcut with ⟨done, rest, hops, rfl, rfl, rfl⟩ | ⟨past', hcut', rfl⟩
    · simpa [runHistory, callsOf] using hfirst done rest hops
    · simpa [runHistory, callsOf, liveAfter] using hrest past' current later hcut'

/-- A history is stable if its first execution is, with respect to all that follow, and so is the
    rest from the models it leaves. -/
theorem stable_cons (e : Execution Id Model) (history : List (Execution Id Model)) :
    Stable live (e :: history) ↔
      (∀ done rest, e.ops = done ++ rest → ∀ hashValue ∈ history.map Execution.hashValue,
        ∀ k, liveAfter live done k ≠ none → hashValue k = e.hashValue k) ∧
      Stable (liveAfter live e.ops) history := by
  constructor
  · intro h
    refine ⟨fun done rest hops => ?_, fun past current later hcut => ?_⟩
    · simpa [callsOf] using h _ _ _ (cutAt_cons.mpr (Or.inl ⟨done, rest, hops, rfl, rfl, rfl⟩))
    · simpa [callsOf, liveAfter] using h _ _ _ (cutAt_cons.mpr (Or.inr ⟨past, hcut, rfl⟩))
  · rintro ⟨hfirst, hrest⟩ past current later hcut
    rcases cutAt_cons.mp hcut with ⟨done, rest, hops, rfl, rfl, rfl⟩ | ⟨past', hcut', rfl⟩
    · simpa [callsOf] using hfirst done rest hops
    · simpa [callsOf, liveAfter] using hrest past' current later hcut'

/-- The equivalence from any state whose directory the next execution reads correctly. -/
theorem survives_iff_of_stores (hcodec : ∀ model, repo.decode (repo.encode model) = some model)
    (hq : env.Quiet) (history : List (Execution Id Model))
    (hinj : ∀ e ∈ history, Set.InjOn e.hashValue S) (hS : idsUsed (callsOf history) ⊆ S)
    (h : ∀ e ∈ history.head?, repo.Stores (env.withHash e.hashValue) S fm live) :
    repo.Survives env S fm live history ↔ Stable live history := by
  induction history generalizing fm live with
  | nil => exact ⟨fun _ _ _ _ hcut => absurd hcut not_cutAt_nil,
      fun _ _ _ _ hcut => absurd hcut not_cutAt_nil⟩
  | cons e history ih =>
    rw [survives_cons, stable_cons]
    have hstores : ∀ done rest, e.ops = done ++ rest →
        repo.Stores (env.withHash e.hashValue) S (repo.run (env.withHash e.hashValue) fm done)
          (liveAfter live done) := by
      intro done rest hops
      refine (h e rfl).run (fun n => hq n) (hinj e (by simp)) done ?_
      rintro _ ⟨model, ⟨op, hop, hmodel⟩, rfl⟩
      exact hS ⟨model, ⟨op, by simp [hops, hop], hmodel⟩, rfl⟩
    have hlater : ∀ hashValue ∈ e.hashValue :: history.map Execution.hashValue,
        Set.InjOn hashValue S := by
      intro hashValue hmem
      rcases List.mem_cons.mp hmem with rfl | hmem
      · exact hinj e (by simp)
      · obtain ⟨e', he', rfl⟩ := List.mem_map.mp hmem
        exact hinj e' (List.mem_cons_of_mem _ he')
    have hfirst : (∀ done rest, e.ops = done ++ rest →
        repo.ReadsLive env S e.hashValue (history.map Execution.hashValue)
          (repo.run (env.withHash e.hashValue) fm done) (liveAfter live done)) ↔
        ∀ done rest, e.ops = done ++ rest → ∀ hashValue ∈ history.map Execution.hashValue,
          ∀ k, liveAfter live done k ≠ none → hashValue k = e.hashValue k :=
      forall₃_congr fun done rest hops => readsLive_iff hcodec hq (hstores done rest hops) hlater
    rw [hfirst]
    refine and_congr_right fun hagree => ?_
    -- the next execution reads what the first one has left
    refine ih (fun e' he' => hinj e' (List.mem_cons_of_mem _ he')) ?_ ?_
    · rintro _ ⟨model, ⟨op, hop, hmodel⟩, rfl⟩
      exact hS ⟨model, ⟨op, by simp [hop], hmodel⟩, rfl⟩
    · intro e' he'
      have hmem : e' ∈ history := List.mem_of_mem_head? he'
      exact (hstores e.ops [] (by simp)).withHash
        (hagree e.ops [] (by simp) e'.hashValue (List.mem_map.mpr ⟨e', hmem, rfl⟩))

/-- **Restarts.** From an absent or empty directory, a history survives its restarts exactly
    if every id live at a cut hashes the same in each later execution. -/
theorem survives_iff (hcodec : ∀ model, repo.decode (repo.encode model) = some model)
    (hq : env.Quiet) (hfresh : fm.Fresh (repo.getDirectoryURL env))
    (history : List (Execution Id Model))
    (hinj : ∀ e ∈ history, Set.InjOn e.hashValue (idsUsed (callsOf history))) :
    repo.Survives env (idsUsed (callsOf history)) fm (fun _ => none) history ↔
      Stable (fun _ => none) history :=
  survives_iff_of_stores hcodec hq history hinj subset_rfl fun _ _ => stores_fresh hfresh

/-- Employee `1` is stored in one execution, and another one follows. -/
def twoExecutions (first second : Nat → Int) : List (Execution Nat Sample.Employee) :=
  [⟨first, [.create ⟨1, 21⟩]⟩, ⟨second, []⟩]

/-- Two executions with one hash function: the stored employee is found again. -/
theorem survives_employees :
    Sample.employees.Survives (Sample.process Int.ofNat)
      (idsUsed (callsOf (twoExecutions Int.ofNat Int.ofNat))) Sample.blank (fun _ => none)
      (twoExecutions Int.ofNat Int.ofNat) := by
  have hall : ∀ e ∈ twoExecutions Int.ofNat Int.ofNat, e.hashValue = Int.ofNat := by
    simp [twoExecutions]
  refine (survives_iff Sample.employees_codec (Sample.process_quiet _) (Or.inl rfl) _ ?_).mpr ?_
  · intro e he
    rw [hall e he]
    exact fun _ _ _ _ h => Int.ofNat.inj h
  · rintro _ current _ ⟨before, done, rest, after, hhist, _, rfl⟩ hashValue hmem k _
    obtain ⟨e, he, rfl⟩ := List.mem_map.mp hmem
    have hcurrent : current = Int.ofNat := hall ⟨current, done ++ rest⟩ (by rw [hhist]; simp)
    rw [hall e (by rw [hhist]; simp [he]), hcurrent]

/-- A second execution with another hash function does not find the employee stored by the
    first one. -/
theorem not_survives_rehashed :
    ¬ Sample.employees.Survives (Sample.process Int.ofNat)
      (idsUsed (callsOf (twoExecutions Int.ofNat fun k => k + 1))) Sample.blank (fun _ => none)
      (twoExecutions Int.ofNat fun k => k + 1) := by
  intro h
  have hcut : CutAt (twoExecutions Int.ofNat fun k => k + 1) [⟨Int.ofNat, [.create ⟨1, 21⟩]⟩]
      Int.ofNat [fun k => k + 1] := ⟨[], [.create ⟨1, 21⟩], [], _, rfl, rfl, rfl⟩
  have hused : (1 : Nat) ∈ idsUsed (callsOf (twoExecutions Int.ofNat fun k => k + 1)) :=
    ⟨⟨1, 21⟩, ⟨.create ⟨1, 21⟩, by simp [twoExecutions], by simp [Op.models]⟩, rfl⟩
  have hlost := (h _ _ _ hcut).lookup (fun k => k + 1) (by simp) 1 hused
  -- the second execution asks for the file `2`
  have hnone : Sample.employees.getElement ((Sample.process Int.ofNat).withHash fun k => k + 1)
      (.modelId 1) (Sample.employees.runHistory (Sample.process Int.ofNat) Sample.blank
        [⟨Int.ofNat, [.create ⟨1, 21⟩]⟩]) = none := rfl
  rw [hnone] at hlost
  simp [Op.apply, Live.store, IdentifiableCodable.id] at hlost

end Equivalence

end FileSystemRepository

end QBRepository
