import QBRepository.Realm.Invariant

namespace QBRepository

/-!
# A batch is the sequence of its calls

`create` and `delete` for a list run in one write transaction, and for single models in one each.
None of what runs inside looks at the transaction, so a batch does what its single calls do one
after another; this includes the calls that raise and those that do not come back.

* `Realm.during` — a Realm inside or outside a transaction;
* `addEntityCascading_commutes`, `cascadeDelete_commutes` — what runs in a transaction does the same
  outside of one (`write_eq`);
* `RealmCommand.singles` — the calls of a batch;
* `run_singles` — batches may be replaced in every run.
-/

variable {Scalar : Type}

namespace Realm

/-- The Realm inside or outside a write transaction. -/
def during (inWriteTransaction : Bool) (s : Realm Scalar) : Realm Scalar :=
  { s with inWriteTransaction }

variable (s : Realm Scalar) (b : Bool)

@[simp] theorem object_during (r : Ref) : (s.during b).object r = s.object r := rfl

@[simp] theorem rows_during : (s.during b).rows = s.rows := rfl

@[simp] theorem isInvalidated_during (r : Ref) :
    (s.during b).isInvalidated r = s.isInvalidated r := rfl

/-- Reading accessors does not ask for a transaction. -/
theorem accessors_during (rows : List RowId) :
    (s.during b).accessors rows = ((s.accessors rows).1, (s.accessors rows).2.during b) := by
  induction rows generalizing s with
  | nil => rfl
  | cons row rows ih =>
    have hrest : ((s.accessor row).2.during b).accessors rows = _ := ih (s.accessor row).2
    show ((s.accessor row).1 :: (((s.accessor row).2.during b).accessors rows).1,
      (((s.accessor row).2.during b).accessors rows).2) = _
    rw [hrest]
    rfl

/-- Neither does reading links. -/
theorem links_during (r : Ref) :
    (s.during b).links r = ((s.links r).1, (s.links r).2.during b) := by
  rw [links, links, object_during]
  cases s.object r with
  | none => rfl
  | some object =>
    cases object with
    | unmanaged record => rfl
    | managed className row =>
      simp only [rows_during]
      cases s.rows.get row with
      | none => rfl
      | some record => exact s.accessors_during b record.targets

/-- Nor does deleting a row. -/
theorem deleteMain_during (element : Ref) :
    (s.during b).deleteMain element = (s.deleteMain element).during b := by
  rw [deleteMain, deleteMain, object_during]
  cases s.object element with
  | none => rfl
  | some object => cases object <;> rfl

end Realm

/-- Whether an object can be hashed does not depend on transactions. -/
def RealmEnvironment.HashesAlike (env : RealmEnvironment Scalar) : Prop :=
  ∀ b s r, env.hash (s.during b) r = env.hash s r

/-- What can be hashed is decided by the schema and the rows. -/
theorem hashesAlike_ofSchema (primaryKey : String → Option String) (pick : Nat → Nat) :
    (.ofSchema primaryKey pick : RealmEnvironment Scalar).HashesAlike :=
  fun _ _ _ => rfl

variable {env : RealmEnvironment Scalar} {update : Bool} {fuel : Nat} {b : Bool}

open Outcome (Commutes)

/-! ### Deleting -/

section Delete

variable (hhash : env.HashesAlike)

include hhash

/-- Nor does hashing an object, for an environment that hashes alike. -/
theorem insert_during (s : Realm Scalar) :
    ToBeDeleted.insert env (s.during b) = ToBeDeleted.insert env s := by
  funext element toBeDeleted
  rw [ToBeDeleted.insert, ToBeDeleted.insert, hhash b s element]
  rfl

/-- Resolving an element takes the same steps within a transaction. -/
theorem resolve_during (element : Ref) (deleteMainItem : Bool) (s : Realm Scalar)
    (toBeDeleted : List Ref) : resolve env element deleteMainItem (s.during b) toBeDeleted
      = resolve env element deleteMainItem s toBeDeleted >>= fun p =>
        .returns (p.1.during b, p.2) := by
  rw [resolve, resolve, Realm.isInvalidated_during, s.links_during b element]
  cases s.isInvalidated element with
  | true => rfl
  | false =>
    simp only [Bool.false_eq_true, if_false, insert_during hhash]
    cases Outcome.forEach (ToBeDeleted.insert env (s.links element).2) (s.links element).1
      toBeDeleted with
    | returns next =>
      cases deleteMainItem with
      | false => rfl
      | true =>
        show Outcome.returns (((s.links element).2.during b).deleteMain element, next) = _
        rw [Realm.deleteMain_during]
        rfl
    | raises => rfl
    | diverges => rfl

omit hhash in
/-- The iteration that takes out an element. -/
theorem cascadeStep_of_removeFirst {s : Realm Scalar} {toBeDeleted rest : List Ref} {element : Ref}
    (h : ToBeDeleted.removeFirst (env.pick s.picks) toBeDeleted = some (element, rest)) :
    cascadeStep env (s, toBeDeleted) =
      if s.isInvalidated element then
        .returns (some ({ s with picks := s.picks + 1 }, rest))
      else resolve env element true { s with picks := s.picks + 1 } rest >>= fun state =>
        .returns (some state) := by
  rw [cascadeStep, h]
  rfl

/-- So does a step of the cascade. -/
theorem cascadeStep_commutes : Commutes (fun state => (state.1.during b, state.2))
    (Option.map fun state => (state.1.during b, state.2)) (cascadeStep env) := by
  rintro ⟨s, toBeDeleted⟩
  show cascadeStep env (s.during b, toBeDeleted) = _
  cases hfirst : ToBeDeleted.removeFirst (env.pick s.picks) toBeDeleted with
  | none =>
    have hfirst' : ToBeDeleted.removeFirst (env.pick (s.during b).picks) toBeDeleted = none :=
      hfirst
    rw [cascadeStep, cascadeStep, hfirst, hfirst']
    rfl
  | some first =>
    obtain ⟨element, rest⟩ := first
    have hfirst' : ToBeDeleted.removeFirst (env.pick (s.during b).picks) toBeDeleted
      = some (element, rest) := hfirst
    rw [cascadeStep_of_removeFirst hfirst, cascadeStep_of_removeFirst hfirst',
      Realm.isInvalidated_during]
    cases s.isInvalidated element with
    | true => rfl
    | false =>
      have hresolve :=
        resolve_during (b := b) hhash element true { s with picks := s.picks + 1 } rest
      show (resolve env element true (Realm.during b { s with picks := s.picks + 1 }) rest >>= _)
        = (resolve env element true { s with picks := s.picks + 1 } rest >>= _) >>= _
      rw [hresolve]
      cases resolve env element true { s with picks := s.picks + 1 } rest <;> rfl

/-- So does its loop. -/
theorem cascadeLoop_commutes : Commutes (fun state => (state.1.during b, state.2))
    (fun state => (state.1.during b, state.2)) (cascadeLoop env fuel) :=
  (cascadeStep_commutes hhash).loop fuel

/-- So does deleting an object with what it leads to. -/
theorem cascadeDelete_commutes (entity : Ref) :
    Commutes (Realm.during b) (Realm.during b) (cascadeDelete env fuel entity) := by
  intro s
  rw [cascadeDelete, cascadeDelete, insert_during hhash]
  cases ToBeDeleted.insert env s entity [] with
  | returns toBeDeleted =>
    show (cascadeLoop env fuel (s.during b, toBeDeleted) >>= _) = _
    rw [cascadeLoop_commutes hhash (s, toBeDeleted)]
    show _ = (cascadeLoop env fuel (s, toBeDeleted) >>= _) >>= _
    cases cascadeLoop env fuel (s, toBeDeleted) <;> rfl
  | raises => rfl
  | diverges => rfl

/-- So does deleting what it leads to. -/
theorem cascadeDeleteSubtypes_commutes (entity : Ref) :
    Commutes (Realm.during b) (Realm.during b) (cascadeDeleteSubtypes env fuel entity) := by
  intro s
  rw [cascadeDeleteSubtypes, cascadeDeleteSubtypes, resolve_during hhash]
  cases resolve env entity false s [] with
  | returns state =>
    show (cascadeLoop env fuel (state.1.during b, state.2) >>= _) = _
    rw [cascadeLoop_commutes hhash state]
    show _ = (cascadeLoop env fuel state >>= _) >>= _
    cases cascadeLoop env fuel state <;> rfl
  | raises => rfl
  | diverges => rfl

end Delete

/-! ### Adding -/

section Add

variable [DecidableEq Scalar]

/-- Creating a row does not ask for a transaction. -/
theorem createRow_during (s : Realm Scalar) (record : Record Scalar Ref) :
    (s.during b).createRow env update record
      = s.createRow env update record >>= fun p => .returns (p.1, p.2.during b) := by
  rw [Realm.createRow, Realm.createRow]
  have hfind : (record.key env.primaryKey).bind ((s.during b).find env)
      = (record.key env.primaryKey).bind (s.find env) := rfl
  rw [hfind]
  cases (record.key env.primaryKey).bind (s.find env) with
  | none => rfl
  | some row => cases update <;> rfl

/-- Adding an object takes the same steps within a transaction, by induction on the fuel: a step
    commutes, and so does the loop over the objects it links to. -/
theorem addObject_commutes (r : Ref) :
    Commutes (Realm.during b) (Realm.during b) (addObject env update fuel r) := by
  induction fuel generalizing r with
  | zero => exact fun s => rfl
  | succ fuel ih =>
    intro s
    rw [addObject, addObject, Realm.isInvalidated_during, Realm.object_during]
    cases s.isInvalidated r with
    | true => rfl
    | false =>
      simp only [Bool.false_eq_true, if_false]
      cases s.object r with
      | none => rfl
      | some object =>
        cases object with
        | managed className row => rfl
        | unmanaged record =>
          simp only [createRow_during]
          cases s.createRow env update record with
          | returns p =>
            have htargets : Commutes (Realm.during b) (Realm.during b)
                (Outcome.forEach (addObject env update fuel) record.targets) :=
              Commutes.forEach fun v _ => ih v
            show (Outcome.forEach (addObject env update fuel) record.targets
              ((p.2.promote r record.className p.1).during b) >>= _) = _
            rw [htargets]
            show _ = (Outcome.forEach (addObject env update fuel) record.targets
              (p.2.promote r record.className p.1) >>= _) >>= _
            cases Outcome.forEach (addObject env update fuel) record.targets
              (p.2.promote r record.className p.1) <;> rfl
          | raises => rfl
          | diverges => rfl

/-- So does adding a model of a class. -/
theorem add_commutes (r : Ref) :
    Commutes (Realm.during b) (Realm.during b) (add env fuel r update) := by
  intro s
  rw [add, add]
  show (if update && ((s.className r).bind env.primaryKey).isNone then Outcome.raises
    else addObject env update fuel r (s.during b)) = _
  split
  · rfl
  · exact addObject_commutes r s

/-- So does storing a model after the cascade. -/
theorem addEntityCascading_commutes (hhash : env.HashesAlike) (entity : Ref) :
    Commutes (Realm.during b) (Realm.during b) (addEntityCascading env fuel update entity) :=
  (cascadeDeleteSubtypes_commutes hhash entity).bind (add_commutes entity)

end Add

/-! ### Transactions -/

/-- Outside of transactions, a write transaction does what its block does. -/
theorem write_eq {block : Realm Scalar → Outcome (Realm Scalar)}
    (hblock : ∀ b, Commutes (Realm.during b) (Realm.during b) block) {s : Realm Scalar}
    (hidle : s.inWriteTransaction = false) : write block s = block s := by
  have hs : s.during false = s := by
    cases s
    cases hidle
    rfl
  have hend := hblock false s
  rw [hs] at hend
  rw [write, hidle, if_neg Bool.false_ne_true, hend]
  show (block (s.during true) >>= _) = _
  rw [hblock true s]
  cases block s <;> rfl

/-! ### Batches -/

/-- The calls for single models that a batch stands for. -/
def RealmCommand.singles : RealmCommand → List RealmCommand
  | .createAll models => models.map .create
  | .deleteList models => models.map .delete
  | .create model => [.create model]
  | .update model => [.update model]
  | .delete model => [.delete model]
  | .deleteAll => [.deleteAll]
  | .performTranscation transaction => [.performTranscation transaction]

namespace RealmRepository

variable [DecidableEq Scalar] {repo : RealmRepository} {s : Realm Scalar}
  {commands : List RealmCommand}

/-- Commands one after the other. -/
theorem run_append (commands' : List RealmCommand) :
    run repo env fuel (commands ++ commands') s
      = run repo env fuel commands s >>= run repo env fuel commands' := by
  induction commands generalizing s with
  | nil => rw [List.nil_append, run]; rfl
  | cons command commands ih =>
    rw [List.cons_append, run, run]
    cases step repo env fuel command s with
    | returns s' => exact ih
    | raises => rfl
    | diverges => rfl

/-- One command. -/
theorem run_singleton (command : RealmCommand) :
    run repo env fuel [command] s = step repo env fuel command s := by
  rw [run]
  cases step repo env fuel command s with
  | returns s' => rw [Outcome.returns_bind, run]
  | raises => rfl
  | diverges => rfl

/-- A call for each model, one after another, is a loop without a transaction. -/
theorem run_map_eq_forEach {single : Ref → RealmCommand}
    {block : Ref → Realm Scalar → Outcome (Realm Scalar)}
    (hsingle : ∀ model s, step repo env fuel (single model) s = write (block model) s)
    (hblock : ∀ model b, Commutes (Realm.during b) (Realm.during b) (block model))
    (models : List Ref) (hidle : s.inWriteTransaction = false) :
    run repo env fuel (models.map single) s = Outcome.forEach block models s := by
  induction models generalizing s with
  | nil => rw [List.map_nil, run]; rfl
  | cons model models ih =>
    rw [List.map_cons, run, Outcome.forEach_cons, hsingle, write_eq (hblock model) hidle]
    cases hcall : block model s with
    | returns s' =>
      rw [Outcome.returns_bind, Outcome.returns_bind]
      refine ih ?_
      rw [← write_eq (hblock model) hidle, ← hsingle model s] at hcall
      rw [(step_keeps _ s s' hcall).2, hidle]
    | raises => rfl
    | diverges => rfl

/-- `create` is a transaction that stores the model. -/
theorem step_create (model : Ref) : step repo env fuel (.create model) s
    = write (addEntityCascading env fuel (repo.isIdentifiable env) model) s := by
  rw [step, create]
  cases write (addEntityCascading env fuel (repo.isIdentifiable env) model) s <;> rfl

/-- `create` of many is a transaction that stores them. -/
theorem step_createAll (models : List Ref) : step repo env fuel (.createAll models) s
    = write (addCascading env fuel (repo.isIdentifiable env) models) s := by
  rw [step, createAll]
  cases write (addCascading env fuel (repo.isIdentifiable env) models) s <;> rfl

/-- `delete` is a transaction that deletes with the cascade. -/
theorem step_delete (model : Ref) :
    step repo env fuel (.delete model) s = write (cascadeDelete env fuel model) s := by
  rw [step, delete]
  cases write (cascadeDelete env fuel model) s <;> rfl

/-- `delete` of many is a transaction that deletes them. -/
theorem step_deleteList (models : List Ref) :
    step repo env fuel (.deleteList models) s = write (deleteCascading env fuel models) s := by
  rw [step, deleteList]
  cases write (deleteCascading env fuel models) s <;> rfl

/-- Outside of transactions, a batch is the sequence of its calls. -/
theorem run_singles_of_command (hhash : env.HashesAlike) (hidle : s.inWriteTransaction = false)
    (command : RealmCommand) :
    run repo env fuel command.singles s = step repo env fuel command s := by
  cases command with
  | createAll models =>
    have hblock : ∀ model b, Commutes (Realm.during b) (Realm.during b)
        (addEntityCascading env fuel (repo.isIdentifiable env) model) :=
      fun model b => addEntityCascading_commutes hhash model
    rw [RealmCommand.singles, step_createAll,
      run_map_eq_forEach (fun model s => step_create model) hblock models hidle]
    exact (write_eq (fun b => Commutes.forEach fun model _ => hblock model b) hidle).symm
  | deleteList models =>
    have hblock : ∀ model b, Commutes (Realm.during b) (Realm.during b)
        (cascadeDelete env fuel model) := fun model b => cascadeDelete_commutes hhash model
    rw [RealmCommand.singles, step_deleteList,
      run_map_eq_forEach (fun model s => step_delete model) hblock models hidle]
    exact (write_eq (fun b => Commutes.forEach fun model _ => hblock model b) hidle).symm
  | create model => exact run_singleton _
  | update model => exact run_singleton _
  | delete model => exact run_singleton _
  | deleteAll => exact run_singleton _
  | performTranscation transaction => exact run_singleton _

/-- **Batches may be replaced by the sequences of their calls**, in every run that begins outside of
    a transaction: it returns the same Realm, raises, or does not come back, as before. -/
theorem run_singles (repo : RealmRepository) (fuel : Nat) (hhash : env.HashesAlike)
    (hidle : s.inWriteTransaction = false) (commands : List RealmCommand) :
    run repo env fuel (commands.flatMap RealmCommand.singles) s
      = run repo env fuel commands s := by
  induction commands generalizing s with
  | nil => rfl
  | cons command commands ih =>
    rw [List.flatMap_cons, run_append, run_singles_of_command hhash hidle, run]
    cases hstep : step repo env fuel command s with
    | returns s' => exact ih (((step_keeps command s s' hstep).2).trans hidle)
    | raises => rfl
    | diverges => rfl

end RealmRepository

/-- Deleting nobody, the person and nobody again, in batches or not. -/
theorem run_singles_numberedPerson : RealmRepository.run ⟨"Person"⟩ numbered 3
      ([.deleteList [], .deleteList [0], .createAll []].flatMap RealmCommand.singles) numberedPerson
    = RealmRepository.run ⟨"Person"⟩ numbered 3
        [.deleteList [], .deleteList [0], .createAll []] numberedPerson :=
  RealmRepository.run_singles ⟨"Person"⟩ 3 (hashesAlike_ofSchema _ _) rfl _

end QBRepository
