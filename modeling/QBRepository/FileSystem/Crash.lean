import QBRepository.FileSystem.Failure

namespace QBRepository

open IdentifiableCodable renaming id → idOf

/-!
# Execution stopping inside `create` and `update`

A stored version is removed before the new one is created, so there is a moment at which neither
is there.

* `Environment.stopAfter` — the process stops: it makes calls up to a number, and none after;
* `Lost` — the calls carried out are those up to `removeItem`, and not `createFile`;
* `stopped_spec` — wherever execution stops, no other file has changed, and the old or the new
  version is found except in this moment.
-/

variable {Id Model Data : Type} [IdentifiableCodable Model Id]

/-- The same process, in which only the first `n` calls are carried out. -/
def Environment.stopAfter (env : Environment Id) (n : Nat) : Environment Id :=
  { env with fault := fun k => if k < n then env.fault k else some (.failure 0) }

/-- Calls succeed until the process stops, if they do without a stop. -/
theorem Environment.stopAfter_fault_eq_none {env : Environment Id} {n k : Nat} :
    (env.stopAfter n).fault k = none ↔ k < n ∧ env.fault k = none := by
  show (if k < n then env.fault k else some (.failure 0)) = none ↔ _
  split <;> simp [*]

namespace FileSystemRepository

variable (repo : FileSystemRepository Model Data) (env : Environment Id)

/-- The file system when execution stops after `n` calls of `op`. -/
def stopped (op : Op Model) (n : Nat) (fm : FileManager Data) : FileManager Data :=
  repo.step (env.stopAfter (fm.calls + n)) fm op

/-- Under the id of `model` either it or the version before is found. -/
def OldOrNew (model previous : Model) (fm : FileManager Data) : Prop :=
  repo.getElement env (.modelId (idOf model)) fm = some previous ∨
    repo.getElement env (.modelId (idOf model)) fm = some model

/-- No file but the one of `model` has changed from `fm` to `fm'`. -/
def OthersUnchanged (model : Model) (fm fm' : FileManager Data) : Prop :=
  ∀ url, url ≠ repo.fileURL env (idOf model) → fm'.contents url = fm.contents url

omit [IdentifiableCodable Model Id] in
/-- `createDirectory`, `encode` and `removeItem` are carried out, and `createFile`, the fourth
    call, is not. -/
def Lost (fm : FileManager Data) (n : Nat) : Prop :=
  (∀ i < 3, i < n ∧ env.fault (fm.calls + i) = none) ∧
    ¬ (3 < n ∧ env.fault (fm.calls + 3) = none)

/-- Crash atomicity: wherever an update of a stored record stops, the old or the new version is
    there, and nothing else has changed. -/
def CrashAtomic (fm : FileManager Data) : Prop :=
  ∀ (model previous : Model) (op : Op Model) (n : Nat), op ∈ [.create model, .update model] →
    repo.getElement env (.modelId (idOf model)) fm = some previous →
    repo.OldOrNew env model previous (repo.stopped env op n fm) ∧
      repo.OthersUnchanged env model fm (repo.stopped env op n fm)

variable {repo env} {fm : FileManager Data}

omit [IdentifiableCodable Model Id] in
/-- A model that is found has a file. -/
theorem fileExists_of_getElement {k : Id} {model : Model}
    (h : repo.getElement env (.modelId k) fm = some model) :
    fm.fileExists (repo.fileURL env k) = true := by
  cases hnode : fm.node (repo.fileURL env k) with
  | none =>
    rw [getElement_of_absent hnode] at h
    cases h
  | some node => rw [FileManager.fileExists, hnode, Option.isSome_some]

/-- `create` reports no error exactly if none of the calls before `createFile` throws. -/
theorem createError_eq_none {model : Model} : repo.createError env model fm = none ↔
    ∀ i < repo.callsBefore env model fm, env.fault (fm.calls + i) = none := by
  rw [createError, List.findSome?_eq_none_iff]
  constructor
  · intro h i hi
    exact h _ (List.mem_range'_1.mpr ⟨by omega, by omega⟩)
  · intro h k hk
    obtain ⟨hle, hlt⟩ := List.mem_range'_1.mp hk
    have := h (k - fm.calls) (by omega)
    rwa [Nat.add_sub_cancel' hle] at this

/-- **Stopping an update.** No file but the one of the model changes, and the old or the new
    version is found, except after `removeItem` while the new file is not created. -/
theorem stopped_spec {model previous : Model}
    (hcodec : repo.decode (repo.encode model) = some model)
    (hstored : repo.getElement env (.modelId (idOf model)) fm = some previous)
    {op : Op Model} (hop : op ∈ [.create model, .update model]) (n : Nat) :
    repo.OthersUnchanged env model fm (repo.stopped env op n fm) ∧
      (repo.OldOrNew env model previous (repo.stopped env op n fm) ↔ ¬ Lost env fm n) := by
  have hstep : repo.stopped env op n fm
      = ((repo.create (env.stopAfter (fm.calls + n)) model).run fm).2 := by
    rcases List.mem_pair.mp hop with rfl | rfl <;> rfl
  have hbefore : repo.callsBefore (env.stopAfter (fm.calls + n)) model fm = 3 :=
    if_pos (fileExists_of_getElement hstored)
  have herror : repo.createError (env.stopAfter (fm.calls + n)) model fm = none ↔
      ∀ i < 3, i < n ∧ env.fault (fm.calls + i) = none := by
    rw [createError_eq_none, hbefore]
    exact forall₂_congr fun i _ => by rw [Environment.stopAfter_fault_eq_none]; simp
  have hcreated : repo.createFileFault (env.stopAfter (fm.calls + n)) model fm = none ↔
      3 < n ∧ env.fault (fm.calls + 3) = none := by
    rw [createFileFault, hbefore, Environment.stopAfter_fault_eq_none]; simp
  rcases repo.create_spec (env.stopAfter (fm.calls + n)) model fm with
    ⟨error, fm', hfails, hrun, hnode⟩ | ⟨fm', hok, hrun, hnode⟩
  · -- execution stops before the previous version is removed
    rw [hstep, hrun]
    refine ⟨fun url _ => ?_, iff_of_true (Or.inl ?_) fun hlost => ?_⟩
    · rw [FileManager.contents, FileManager.contents, hnode]
    · rw [← hstored, getElement, getElement, FileManager.contents, FileManager.contents, hnode]
    · rw [herror.mpr hlost.1] at hfails
      cases hfails
  · rw [hstep, hrun]
    -- the file of the model, the same in the process that stops
    have hself := (congrFun hnode (repo.fileURL env (idOf model))).trans (Function.update_self ..)
    refine ⟨fun url hurl => ?_, ?_⟩
    · have hsame : fm'.node url = fm.node url :=
        (congrFun hnode url).trans (Function.update_of_ne hurl _ _)
      rw [FileManager.contents, FileManager.contents, hsame]
    · cases hfault : repo.createFileFault (env.stopAfter (fm.calls + n)) model fm with
      | none =>
        rw [hfault] at hself
        refine iff_of_true (Or.inr ?_) fun hlost => hlost.2 (hcreated.mp hfault)
        exact (getElement_of_file hself).trans hcodec
      | some error =>
        rw [hfault] at hself
        have habsent : repo.getElement env (.modelId (idOf model)) fm' = none :=
          getElement_of_absent hself
        refine iff_of_false (fun hfound => ?_) fun hlost => hlost ⟨herror.mp hok, fun h => ?_⟩
        · rcases hfound with h | h <;>
          · rw [habsent] at h
            cases h
        · rw [hcreated.mpr h] at hfault
          cases hfault

/-- After `createDirectory` and `encode` the stored employee is still there. -/
theorem stopped_spec_employees :
    Sample.employees.OthersUnchanged (Sample.process Int.ofNat) ⟨1, 22⟩ Sample.stored
        (Sample.employees.stopped (Sample.process Int.ofNat) (.update ⟨1, 22⟩) 2 Sample.stored) ∧
      Sample.employees.OldOrNew (Sample.process Int.ofNat) ⟨1, 22⟩ ⟨1, 21⟩
        (Sample.employees.stopped (Sample.process Int.ofNat) (.update ⟨1, 22⟩) 2
          Sample.stored) := by
  -- the third call, `removeItem`, is not reached
  have hkept : ¬ Lost (Sample.process Int.ofNat) Sample.stored 2 := fun hlost =>
    absurd (hlost.1 2 (by decide)).1 (by decide)
  exact (stopped_spec (Sample.employees_codec _) rfl (by simp) 2).imp_right fun h => h.mpr hkept

/-- After `removeItem` no version of the stored employee is there. -/
theorem not_crashAtomic_employees :
    ¬ ∀ ops, Sample.employees.CrashAtomic (Sample.process Int.ofNat)
      (Sample.employees.run (Sample.process Int.ofNat) Sample.blank ops) := by
  intro h
  have hfound := (h [.create ⟨1, 21⟩] ⟨1, 22⟩ ⟨1, 21⟩ (.update ⟨1, 22⟩) 3 (by simp) rfl).1
  have hnone : Sample.employees.getElement (Sample.process Int.ofNat) (.modelId 1)
      (Sample.employees.stopped (Sample.process Int.ofNat) (.update ⟨1, 22⟩) 3
        (Sample.employees.run (Sample.process Int.ofNat) Sample.blank [.create ⟨1, 21⟩])) = none :=
    rfl
  rcases hfound with hfound | hfound <;> cases hnone.symm.trans hfound

end FileSystemRepository

end QBRepository
