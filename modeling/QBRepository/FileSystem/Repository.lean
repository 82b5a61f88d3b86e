import QBRepository.FileSystem.FileManager
import QBRepository.RepositoryEditResult

namespace QBRepository

/-!
# `FileSystemRepository` — one file per record

The operations of `FileSystemRepository.swift`, each under its name there.  A record is
stored in the folder of its type, in a file named after the decimal `hashValue` of its id.

* `create` / `createAll` — the two overloads of `create(_:)`; likewise `delete` /
  `deleteList`;
* `create_spec`, `delete_spec` and `deleteAll_spec` — what one call reports and does to the
  directory of the repository, whichever calls the environment lets fail; `create_cases`,
  `delete_cases` and `deleteAll_cases` say of it what does not depend on which calls fail;
* `create_preserves`, `delete_preserves`, `deleteAll_preserves`, `getAll_preserves` — what the calls
  leave alone, given what `removeItem` and `createFile` do;
* `getAll_of_listed` — what is read when the directory can be listed.
-/

/-- `protocol IdentifiableCodable`: a model that carries an id. -/
class IdentifiableCodable (Model : Type) (Id : outParam Type) where
  id : Model → Id

open IdentifiableCodable renaming id → idOf

/-- `FileSystemRepository.Directory` -/
inductive Directory where
  | documents
  | caches
  | custom (url : URL)

/-- A `FileSystemRepository<Model>`: its fields, with the JSON coders as functions, and
    `String(describing: Model.self)`. -/
structure FileSystemRepository (Model Data : Type) where
  directory : Directory
  decode : Data → Option Model
  encode : Model → Data
  describingModel : String

/-- A value passed as `withId:`, which is of the model's id type or of another one. -/
inductive AnyId (Id : Type) where
  | modelId (id : Id)
  | foreign

variable {Id Model Data : Type} [IdentifiableCodable Model Id]

namespace FileSystemRepository

variable (repo : FileSystemRepository Model Data) (env : Environment Id)

/-! ### Helper -/

/-- `getURL(for directory:)`; a search path that does not exist is fatal and not modelled. -/
def getBaseURL : Directory → URL
  | .documents => env.url .documentDirectory
  | .caches => env.url .cachesDirectory
  | .custom url => url

/-- `getDirectoryURL()` -/
def getDirectoryURL : URL := getBaseURL env repo.directory ++ [repo.describingModel]

/-- `getURL(forId:)` -/
def getURL (forId : String) : FileURL := ⟨repo.getDirectoryURL env, forId⟩

/-- `String(id.hashValue)`, the name of the file of `id`. -/
def fileName (id : Id) : String := toString (env.hashValue id)

/-- `getURL(forId: String(id.hashValue))`, as every caller writes it. -/
def fileURL (id : Id) : FileURL := repo.getURL env (fileName env id)

/-! ### Reading -/

/-- `decoder.decode(Model.self, from: data)` -/
def decodeModel (data : Data) : FileM Data Model :=
  match repo.decode data with
  | some model => return model
  | none => throw .corruptData

/-- The closure of `getAll`: an unreadable entry is skipped, an undecodable one throws. -/
def readModel (fileURL : FileURL) : FileM Data (Option Model) := do
  match (← get).contents fileURL with
  | none => return none
  | some data => return some (← repo.decodeModel data)

/-- `getAll()` -/
def getAll : StateM (FileManager Data) (List Model) :=
  FileM.catching
    (do
      let files ← env.contentsOfDirectory (repo.getDirectoryURL env)
      let models ← files.mapM repo.readModel
      return models.filterMap fun model => model)
    fun _ => []

/-- `getElement(withId:)` -/
def getElement (anyId : AnyId Id) (fm : FileManager Data) : Option Model :=
  match anyId with
  | .foreign => none
  | .modelId correctId =>
    let fileURL := repo.fileURL env correctId
    match fm.contents fileURL with
    | none => none
    | some data => repo.decode data

/-! ### Writing -/

/-- `encoder.encode(model)`, which may throw. -/
def encodeModel (model : Model) : FileM Data Data := do
  env.attempt
  return repo.encode model

/-- `create(_ model:)` -/
def create (model : Model) :
    StateM (FileManager Data) (RepositoryEditResult FileSystemError Model) :=
  let fileURL := repo.fileURL env (idOf model)
  let directoryURL := repo.getDirectoryURL env
  FileM.catching
    (do
      env.createDirectory directoryURL
      let data ← repo.encodeModel env model
      if (← get).fileExists fileURL then
        env.removeItem fileURL
      -- whether the file was created is not looked at
      let _ ← env.createFile fileURL data
      return .success model)
    fun error => .error error

omit [IdentifiableCodable Model Id] in
/-- The result `create(_ models:)` picks from the results of the single calls. -/
def batchResult (models : List Model)
    (results : List (RepositoryEditResult FileSystemError Model)) :
    RepositoryEditResult FileSystemError (List Model) :=
  -- as in the source, the closure answers `false` on errors
  let firstError := results.find? fun result =>
    match result with
    | .error _ => false
    | .success _ => true
  match firstError with
  | some (.error error) => .error error
  | _ => .success models

/-- `create(_ models:)` -/
def createAll (models : List Model) :
    StateM (FileManager Data) (RepositoryEditResult FileSystemError (List Model)) := do
  let results ← models.mapM (repo.create env)
  return batchResult models results

/-- `update(_:)` -/
def update (model : Model) :
    StateM (FileManager Data) (RepositoryEditResult FileSystemError Model) :=
  repo.create env model

/-- `delete(_ model:)` -/
def delete (model : Model) : StateM (FileManager Data) (Option FileSystemError) :=
  let fileURL := repo.fileURL env (idOf model)
  FileM.catching
    (do
      if (← get).fileExists fileURL then
        env.removeItem fileURL
      return none)
    some

/-- `delete(_ models:)` -/
def deleteList (models : List Model) : StateM (FileManager Data) (Option FileSystemError) := do
  let results ← models.mapM (repo.delete env)
  return (results.filterMap fun result => result).head?

/-- `deleteAll()` -/
def deleteAll : StateM (FileManager Data) (Option FileSystemError) :=
  FileM.catching
    (do
      let fileURLs ← env.contentsOfDirectory (repo.getDirectoryURL env)
      fileURLs.forM env.removeItem
      return none)
    some

/-- `performTranscation(_:)`; the closure is run, and there is nothing to roll back. -/
def performTranscation (transaction : StateM (FileManager Data) Unit) :
    StateM (FileManager Data) (Option FileSystemError) := do
  transaction
  return none

/-! ### What one call does

Each lemma describes a call on any state and in any environment; the cases marked
`¬ env.Quiet` occur only where a call is made to fail. -/

section Writing

omit [IdentifiableCodable Model Id] in
/-- Encoding fails if the environment has it fail, and otherwise gives the data of the model. -/
@[simp] theorem exec_encodeModel (model : Model) (fm : FileManager Data) :
    FileM.exec (repo.encodeModel env model) fm = match env.fault fm.calls with
      | some error => (.error error, fm.tick)
      | none => (.ok (repo.encode model), fm.tick) := by
  simp only [encodeModel, FileM.exec_bind, Environment.exec_attempt]
  cases env.fault fm.calls <;> rfl

/-- The calls `create` makes before it creates the file: `createDirectory`, `encode` and, if there
    is a previous version, `removeItem`. -/
def callsBefore (model : Model) (fm : FileManager Data) : Nat :=
  if fm.fileExists (repo.fileURL env (idOf model)) then 3 else 2

/-- The error of the first of these calls that throws. -/
def createError (model : Model) (fm : FileManager Data) : Option FileSystemError :=
  (List.range' fm.calls (repo.callsBefore env model fm)).findSome? env.fault

/-- Whether `createFile` is made to fail. -/
def createFileFault (model : Model) (fm : FileManager Data) : Option FileSystemError :=
  env.fault (fm.calls + repo.callsBefore env model fm)

/-- **What `create` does**: it reports the first error thrown and changes no file, or it reports
    success, and the file holds the model unless `createFile` has failed. -/
theorem create_spec (model : Model) (fm : FileManager Data) :
    (∃ error fm', repo.createError env model fm = some error ∧
      (repo.create env model).run fm = (.error error, fm') ∧ fm'.node = fm.node) ∨
    ∃ fm', repo.createError env model fm = none ∧
      (repo.create env model).run fm = (.success model, fm') ∧
      fm'.node = Function.update fm.node (repo.fileURL env (idOf model))
        (match repo.createFileFault env model fm with
          | none => some (.file (repo.encode model))
          | some _ => none) := by
  simp only [create, FileM.run_catching, FileM.exec_bind, Environment.exec_createDirectory,
    createError, createFileFault, callsBefore]
  cases h₀ : env.fault fm.calls with
  | some error =>
    refine Or.inl ⟨error, fm.tick, ?_, rfl, rfl⟩
    split <;> simp [List.range', h₀]
  | none =>
  simp only [exec_encodeModel]
  -- `fm₀`: the directory exists; nothing is stored or removed yet
  generalize hfm₀ : fm.tick.makeDirectory (repo.getDirectoryURL env) = fm₀
  have hcalls₀ : fm₀.calls = fm.calls + 1 := by rw [← hfm₀]; rfl
  have hnode₀ : fm₀.node = fm.node := by rw [← hfm₀]; simp
  have hdir₀ : (fm₀.listing (repo.fileURL env (idOf model)).directory).isSome := by
    rw [← hfm₀]; exact fm.tick.listing_makeDirectory_isSome _
  have hexists : fm₀.tick.fileExists (repo.fileURL env (idOf model))
      = fm.fileExists (repo.fileURL env (idOf model)) := by
    rw [FileManager.fileExists, FileManager.node_tick, hnode₀, FileManager.fileExists]
  rw [hcalls₀]
  cases h₁ : env.fault (fm.calls + 1) with
  | some error =>
    refine Or.inl ⟨error, fm₀.tick, ?_, rfl, hnode₀⟩
    split <;> simp [List.range', h₀, h₁]
  | none =>
  simp only [FileM.exec_get, hexists]
  cases hex : fm.fileExists (repo.fileURL env (idOf model)) with
  | false =>
    have habs : fm₀.tick.node (repo.fileURL env (idOf model)) = none := by
      simpa [FileManager.fileExists] using hexists.trans hex
    obtain ⟨created, fm', hrun, hfm'⟩ :=
      env.exec_writeFile (repo.fileURL env (idOf model)) (repo.encode model) fm₀.tick hdir₀ habs
    refine Or.inr ⟨fm', by simp [List.range', h₀, h₁], ?_, ?_⟩
    · simp only [Bool.false_eq_true, if_false, FileM.exec_bind, hrun, FileM.exec_pure]
    · rw [hfm', FileManager.node_tick, hnode₀]
      show Function.update _ _ (match env.fault (fm₀.calls + 1) with | none => _ | some _ => _) = _
      rw [hcalls₀]
      rfl
  | true =>
    simp only [if_true, FileM.exec_bind, Environment.exec_removeItem, hexists.trans hex]
    rw [show fm₀.tick.calls = fm.calls + 2 from congrArg (· + 1) hcalls₀]
    cases h₂ : env.fault (fm.calls + 2) with
    | some error =>
      exact Or.inl ⟨error, fm₀.tick.tick, by simp [List.range', h₀, h₁, h₂], rfl, hnode₀⟩
    | none =>
      -- `fm₁`: the previous version is gone
      generalize hfm₁ : fm₀.tick.tick.modifyListing (repo.fileURL env (idOf model)).directory
        (AList.erase (repo.fileURL env (idOf model)).name) = fm₁
      have hcalls₁ : fm₁.calls = fm.calls + 3 := by
        rw [← hfm₁]
        exact congrArg (· + 2) hcalls₀
      have hnode₁ : fm₁.node = Function.update fm.node (repo.fileURL env (idOf model)) none := by
        rw [← hfm₁, FileManager.node_erase, FileManager.node_tick, FileManager.node_tick, hnode₀]
      have hdir₁ : (fm₁.listing (repo.fileURL env (idOf model)).directory).isSome := by
        rw [← hfm₁, FileManager.listing_modifyListing_isSome]; exact hdir₀
      obtain ⟨created, fm', hrun, hfm'⟩ :=
        env.exec_writeFile (repo.fileURL env (idOf model)) (repo.encode model) fm₁ hdir₁
          (by rw [hnode₁, Function.update_self])
      refine Or.inr
        ⟨fm', by simp [List.range', h₀, h₁, h₂], by simp only [hrun, FileM.exec_pure], ?_⟩
      rw [hcalls₁] at hfm'
      rw [hfm', hnode₁]
      exact Function.update_idem ..

/-- `create` stores the model under its id, or fails; only a failing `createFile` loses the
    previous version and still reports success. -/
theorem create_cases (model : Model) (fm : FileManager Data) :
    (∃ fm', (repo.create env model).run fm = (.success model, fm') ∧
      (fm'.node = Function.update fm.node (repo.fileURL env (idOf model))
          (some (.file (repo.encode model))) ∨
        ¬ env.Quiet ∧
          fm'.node = Function.update fm.node (repo.fileURL env (idOf model)) none)) ∨
    ∃ error fm', (repo.create env model).run fm = (.error error, fm') ∧
      ¬ env.Quiet ∧ fm'.node = fm.node := by
  rcases repo.create_spec env model fm with
    ⟨error, fm', herror, hrun, hnode⟩ | ⟨fm', -, hrun, hnode⟩
  · obtain ⟨n, -, hfault⟩ := List.exists_of_findSome?_eq_some herror
    exact Or.inr ⟨error, fm', hrun, not_quiet hfault, hnode⟩
  · refine Or.inl ⟨fm', hrun, ?_⟩
    cases hfault : repo.createFileFault env model fm with
    | none => exact Or.inl (by rw [hnode, hfault])
    | some error => exact Or.inr ⟨not_quiet hfault, by rw [hnode, hfault]⟩

/-- The error of `removeItem`, where `delete` calls it and it throws. -/
def removalError (model : Model) (fm : FileManager Data) : Option FileSystemError :=
  if fm.fileExists (repo.fileURL env (idOf model)) then env.fault fm.calls else none

/-- **What `delete` does**: it makes one call if the file of the model's id is there, reports the
    error of that call, and otherwise leaves no such file. -/
theorem delete_spec (model : Model) (fm : FileManager Data) :
    ∃ fm', (repo.delete env model).run fm = (repo.removalError env model fm, fm') ∧
      fm'.node = (match repo.removalError env model fm with
        | none => Function.update fm.node (repo.fileURL env (idOf model)) none
        | some _ => fm.node) ∧
      fm'.calls = fm.calls + if fm.fileExists (repo.fileURL env (idOf model)) then 1 else 0 := by
  simp only [delete, FileM.run_catching, FileM.exec_bind, FileM.exec_get, removalError]
  cases hex : fm.fileExists (repo.fileURL env (idOf model)) with
  | false =>
    -- there is nothing to remove
    have habs : fm.node (repo.fileURL env (idOf model)) = none := by
      simpa [FileManager.fileExists] using hex
    refine ⟨fm, by simp, ?_, by simp⟩
    show fm.node = Function.update fm.node (repo.fileURL env (idOf model)) none
    rw [← habs, Function.update_eq_self]
  | true =>
    simp only [hex, if_true, FileM.exec_bind, Environment.exec_removeItem]
    cases h₀ : env.fault fm.calls with
    | some error => exact ⟨_, rfl, rfl, rfl⟩
    | none => exact ⟨_, rfl, by rw [FileManager.node_erase, FileManager.node_tick], rfl⟩

/-- `delete` removes the file of the model's id, or reports the error of `removeItem`. -/
theorem delete_cases (model : Model) (fm : FileManager Data) :
    (∃ fm', (repo.delete env model).run fm = (none, fm') ∧
      fm'.node = Function.update fm.node (repo.fileURL env (idOf model)) none) ∨
    ∃ error fm', (repo.delete env model).run fm = (some error, fm') ∧
      ¬ env.Quiet ∧ fm'.node = fm.node := by
  obtain ⟨fm', hrun, hnode, -⟩ := repo.delete_spec env model fm
  cases herror : repo.removalError env model fm with
  | none =>
    rw [herror] at hrun hnode
    exact Or.inl ⟨fm', hrun, hnode⟩
  | some error =>
    rw [herror] at hrun hnode
    -- an error is that of a call
    have hfault : env.fault fm.calls = some error := by
      unfold removalError at herror
      split at herror
      · exact herror
      · exact absurd herror.symm (Option.some_ne_none error)
    exact Or.inr ⟨error, fm', hrun, not_quiet hfault, hnode⟩

/-- What `catch { return error }` makes of the outcome of a block that ends in `return nil`. -/
def errorOf {α : Type} : Except FileSystemError α → Option FileSystemError
  | .ok _ => none
  | .error error => some error

/-- The first error `deleteAll` meets: that of the listing, or of one of the removals, which are the
    calls after it. -/
def deleteAllError (fm : FileManager Data) : Option FileSystemError :=
  match env.fault fm.calls, fm.listing (repo.getDirectoryURL env) with
  | some error, _ => some error
  | none, none => some .noSuchFile
  | none, some l => (List.range' (fm.calls + 1) l.keys.length).findSome? env.fault

omit [IdentifiableCodable Model Id] in
/-- **What `deleteAll` does**: it reports the first error it meets, and without one it leaves no
    entry in the directory of the repository; it touches nothing else. -/
theorem deleteAll_spec (fm : FileManager Data) :
    ∃ fm', (repo.deleteAll env).run fm = (repo.deleteAllError env fm, fm') ∧
      (∀ url, fm'.node url = fm.node url ∨
        url.directory = repo.getDirectoryURL env ∧ fm'.node url = none) ∧
      (repo.deleteAllError env fm = none →
        ∀ name, fm'.node ⟨repo.getDirectoryURL env, name⟩ = none) := by
  rw [deleteAll, FileM.run_catching, FileM.exec_bind, deleteAllError]
  cases h₀ : env.fault fm.calls with
  | some error =>
    rw [env.exec_contentsOfDirectory, h₀]
    exact ⟨_, rfl, fun _ => Or.inl rfl, fun h => absurd h (Option.some_ne_none error)⟩
  | none =>
  cases hl : fm.listing (repo.getDirectoryURL env) with
  | none =>
    rw [env.exec_contentsOfDirectory, h₀, hl]
    exact ⟨_, rfl, fun _ => Or.inl rfl, fun h => absurd h (Option.some_ne_none _)⟩
  | some l =>
    -- each removal finds its file, for each is listed once
    obtain ⟨files, hlist, hnd, hlength, hfiles⟩ := env.exec_contentsOfDirectory_items h₀ hl
    have hframe := env.removeItems_node files fm.tick
    obtain ⟨houtcome, hgone⟩ := env.exec_removeItems files fm.tick hnd
      fun file hfile => ((hfiles file).mp hfile).2
    rw [hlength, show fm.tick.calls = fm.calls + 1 from rfl] at houtcome hgone
    rw [hlist]
    rcases hloop : FileM.exec (files.forM env.removeItem) fm.tick with ⟨outcome, fm'⟩
    simp only [hloop] at hframe houtcome hgone
    simp only [FileM.exec_bind, hloop]
    refine ⟨fm', ?_, fun url => ?_, fun hnone name => ?_⟩
    · have herror : errorOf outcome
          = (List.range' (fm.calls + 1) l.keys.length).findSome? env.fault := by
        rw [houtcome]
        cases (List.range' (fm.calls + 1) l.keys.length).findSome? env.fault <;> rfl
      rw [← herror]
      cases outcome <;> rfl
    · exact (hframe url).imp_right fun h => ⟨((hfiles url).mp h.1).1, h.2⟩
    · rcases hframe ⟨repo.getDirectoryURL env, name⟩ with h | ⟨-, h⟩
      · cases hnode : fm.node ⟨repo.getDirectoryURL env, name⟩ with
        | none => rw [h, FileManager.node_tick, hnode]
        | some node =>
          refine hgone hnone _ ((hfiles _).mpr ⟨rfl, ?_⟩)
          rw [FileManager.fileExists, hnode, Option.isSome_some]
      · exact h

omit [IdentifiableCodable Model Id] in
/-- `deleteAll` only removes entries of the repository's directory, without faults all. -/
theorem deleteAll_cases (fm : FileManager Data) :
    ∃ result fm', (repo.deleteAll env).run fm = (result, fm') ∧
      (∀ url, fm'.node url = fm.node url ∨
        url.directory = repo.getDirectoryURL env ∧ fm'.node url = none) ∧
      (env.Quiet → ∀ name, fm'.node ⟨repo.getDirectoryURL env, name⟩ = none) := by
  obtain ⟨fm', hrun, hframe, hgone⟩ := repo.deleteAll_spec env fm
  refine ⟨_, fm', hrun, hframe, fun hq name => ?_⟩
  cases hl : fm.listing (repo.getDirectoryURL env) with
  | none =>
    -- a directory that does not exist has no entries
    have habs := FileManager.node_of_listing_none hl name
    rcases hframe ⟨repo.getDirectoryURL env, name⟩ with h | ⟨-, h⟩
    · rw [h, habs]
    · exact h
  | some l =>
    refine hgone ?_ name
    simp only [deleteAllError, hq fm.calls, hl]
    exact List.findSome?_eq_none_iff.mpr fun n _ => hq n

/-! What the calls leave alone, if it does not depend on the number of calls. -/

section Preserves

variable {γ : Type} {v : FileManager Data → γ} (htick : ∀ fm, v fm.tick = v fm)

include htick

/-- After `createDirectory`, `create` touches only the file of the model. -/
theorem create_preserves (model : Model)
    (hremove : FileM.Preserves v (env.removeItem (repo.fileURL env (idOf model))))
    (hcreate : ∀ data, FileM.Preserves v (env.createFile (repo.fileURL env (idOf model)) data))
    (fm : FileManager Data) : v ((repo.create env model).run fm).2
      = v (FileM.exec (env.createDirectory (repo.getDirectoryURL env)) fm).2 := by
  rw [create, FileM.run_catching_snd]
  refine FileM.exec_bind_of_preserves (fun _ => ?_) fm
  have hencode : FileM.Preserves v (repo.encodeModel env model) :=
    (env.preserves_attempt htick).bind fun _ => FileM.Preserves.pure _
  refine hencode.bind fun data => FileM.Preserves.bind (fun _ => rfl) fun fm => ?_
  -- with or without a previous version to remove
  have hcreateFile : FileM.Preserves v (do
      let _ ← env.createFile (repo.fileURL env (idOf model)) data
      return (.success model : RepositoryEditResult FileSystemError Model)) :=
    (hcreate data).bind fun _ => FileM.Preserves.pure _
  split
  · exact hremove.bind fun _ => hcreateFile
  · exact hcreateFile

omit htick in
/-- `delete` touches only the file of the model. -/
theorem delete_preserves (model : Model)
    (hremove : FileM.Preserves v (env.removeItem (repo.fileURL env (idOf model))))
    (fm : FileManager Data) : v ((repo.delete env model).run fm).2 = v fm := by
  refine FileM.Preserves.catching (FileM.Preserves.bind (fun _ => rfl) fun fm => ?_) some fm
  split
  · exact hremove.bind fun _ => FileM.Preserves.pure none
  · exact FileM.Preserves.pure none

omit [IdentifiableCodable Model Id] in
/-- `deleteAll` touches only the entries of the directory. -/
theorem deleteAll_preserves
    (hremove : ∀ url, url.directory = repo.getDirectoryURL env →
      FileM.Preserves v (env.removeItem url))
    (fm : FileManager Data) : v ((repo.deleteAll env).run fm).2 = v fm := by
  refine FileM.Preserves.catching (fun fm => ?_) some fm
  rw [FileM.exec_bind]
  rcases env.exec_listing (repo.getDirectoryURL env) fm with
    ⟨error, hrun⟩ | ⟨fileURLs, hrun, hfiles⟩ <;> rw [hrun]
  · exact htick fm
  · have hloop : FileM.Preserves v (fileURLs.forM env.removeItem) :=
      FileM.Preserves.forM fileURLs fun fileURL hfile => hremove fileURL (hfiles fileURL hfile)
    exact ((hloop.bind fun _ => FileM.Preserves.pure none) fm.tick).trans (htick fm)

end Preserves

end Writing

section Reading

omit [IdentifiableCodable Model Id]

/-- What a readable and decodable entry contributes to `getAll`. -/
def modelAt (fm : FileManager Data) (fileURL : FileURL) : Option Model :=
  (fm.contents fileURL).bind repo.decode

/-- An entry that decodes, if its content can be read at all. -/
def Readable (fm : FileManager Data) (fileURL : FileURL) : Prop :=
  ∀ data, fm.contents fileURL = some data → (repo.decode data).isSome

/-- A file that can be read gives its model, and any other file an error. -/
theorem readModel_cases (fm : FileManager Data) (fileURL : FileURL) :
    repo.Readable fm fileURL ∧
        FileM.exec (repo.readModel fileURL) fm = (.ok (repo.modelAt fm fileURL), fm) ∨
      ¬ repo.Readable fm fileURL ∧
        FileM.exec (repo.readModel fileURL) fm = (.error .corruptData, fm) := by
  simp only [readModel, FileM.exec_bind, FileM.exec_get, modelAt, Readable]
  cases hc : fm.contents fileURL with
  | none => exact Or.inl ⟨by simp, rfl⟩
  | some data =>
    cases hm : repo.decode data with
    | none => exact Or.inr ⟨by simp [hm], by simp [decodeModel, hm]⟩
    | some model => exact Or.inl ⟨by simp [hm], by simp [decodeModel, hm]⟩

open Classical in
/-- One entry that does not decode makes the reading of them all throw. -/
theorem exec_readModels (fm : FileManager Data) (files : List FileURL) :
    FileM.exec (files.mapM repo.readModel) fm =
      (if ∀ url ∈ files, repo.Readable fm url then .ok (files.map (repo.modelAt fm))
        else .error .corruptData, fm) := by
  induction files with
  | nil => simp
  | cons url files ih =>
    rw [List.mapM_cons]
    simp only [FileM.exec_bind]
    rcases repo.readModel_cases fm url with ⟨hurl, hread⟩ | ⟨hurl, hread⟩
    · by_cases hfiles : ∀ url ∈ files, repo.Readable fm url
      · simp [hread, ih, hurl, if_pos hfiles]
      · simp [hread, ih, hurl, if_neg hfiles]
    · simp [hread, hurl]

open Classical in
/-- **What `getAll` returns** when the directory can be listed: the models of the entries, or
    nothing if one of them does not decode. -/
theorem getAll_spec (fm : FileManager Data) (hlist : env.fault fm.calls = none) :
    ∃ (names : List String) (fm' : FileManager Data), (repo.getAll env).run fm =
        (if ∀ name ∈ names, repo.Readable fm ⟨repo.getDirectoryURL env, name⟩ then
          names.filterMap fun name => repo.modelAt fm ⟨repo.getDirectoryURL env, name⟩
        else [], fm') ∧
      names.Nodup ∧
      ∀ name, name ∈ names ↔ (fm.node ⟨repo.getDirectoryURL env, name⟩).isSome := by
  simp only [getAll, FileM.run_catching, FileM.exec_bind]
  cases hl : fm.listing (repo.getDirectoryURL env) with
  | none =>
    -- the listing throws, and `getAll` returns the empty list
    rw [env.exec_contentsOfDirectory, hlist, hl]
    refine ⟨[], fm.tick, by simp, by simp, fun name => ?_⟩
    rw [FileManager.node_of_listing_none hl]
    simp
  | some l =>
    obtain ⟨names, hrun, hnd, -, hnames⟩ := env.exec_contentsOfDirectory_of_listing hlist hl
    refine ⟨names, fm.tick, ?_, hnd, hnames⟩
    rw [hrun]
    have hread : (∀ url ∈ names.map (FileURL.mk (repo.getDirectoryURL env)),
        repo.Readable fm.tick url) ↔
        ∀ name ∈ names, repo.Readable fm ⟨repo.getDirectoryURL env, name⟩ :=
      List.forall_mem_map
    by_cases hall : ∀ name ∈ names, repo.Readable fm ⟨repo.getDirectoryURL env, name⟩
    · simp only [exec_readModels, if_pos (hread.mpr hall), if_pos hall, FileM.exec_pure,
        List.filterMap_map, List.map_map]
      rfl
    · simp only [exec_readModels, if_neg (mt hread.mp hall), if_neg hall]

/-- A directory that cannot be listed is read as empty. -/
theorem getAll_of_fault {fm : FileManager Data} {error : FileSystemError}
    (hlist : env.fault fm.calls = some error) :
    ((repo.getAll env).run fm).1 = [] := by
  simp only [getAll, FileM.run_catching, FileM.exec_bind, Environment.exec_contentsOfDirectory,
    hlist]

/-- Without an entry that does not decode, `getAll` returns the models of the entries. -/
theorem getAll_of_listed (fm : FileManager Data) (hlist : env.fault fm.calls = none)
    (hdec : ∀ name data, fm.contents ⟨repo.getDirectoryURL env, name⟩ = some data →
      (repo.decode data).isSome) :
    ∃ (names : List String) (fm' : FileManager Data), (repo.getAll env).run fm =
        (names.filterMap fun name => repo.modelAt fm ⟨repo.getDirectoryURL env, name⟩, fm') ∧
      names.Nodup ∧
      ∀ name, name ∈ names ↔ (fm.node ⟨repo.getDirectoryURL env, name⟩).isSome := by
  obtain ⟨names, fm', hrun, hnames⟩ := repo.getAll_spec env fm hlist
  have hall : ∀ name ∈ names, repo.Readable fm ⟨repo.getDirectoryURL env, name⟩ :=
    fun name _ => hdec name
  rw [if_pos hall] at hrun
  exact ⟨names, fm', hrun, hnames⟩

/-- `getAll` only reads. -/
theorem getAll_preserves {γ : Type} {v : FileManager Data → γ} (htick : ∀ fm, v fm.tick = v fm)
    (fm : FileManager Data) : v ((repo.getAll env).run fm).2 = v fm := by
  refine FileM.Preserves.catching ?_ _ fm
  refine (env.preserves_contentsOfDirectory htick _).bind fun files => ?_
  refine FileM.Preserves.bind (fun fm => ?_) fun models => FileM.Preserves.pure _
  rw [exec_readModels]

end Reading

end FileSystemRepository

end QBRepository
