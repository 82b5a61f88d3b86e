import Mathlib

namespace QBRepository

/-!
# File system — `FileManager` as the repository uses it

The part of Foundation's `FileManager` that `FileSystemRepository` calls, as a state
`FileManager Data` and computations `FileM Data α` over it that may throw.

* A directory is a finite association list from entry names to nodes; `listing` says which
  directories exist.  A nested directory is a node of its own: no operation looks inside it.
  The directories are those of repositories, none of which is inside another; the entry of a
  new directory in its parent, and the contents of a nested one that is removed, are left out.
* `Environment` is one execution of the program: the hash function of the process, the
  search paths, and everything the file system may do differently from run to run, i.e.
  which calls fail (`fault`, indexed by the number of calls made so far) and in which order
  a directory is enumerated (`order`).
* A call that throws has no effect.
-/

/-- An absolute directory location, as its list of path components. -/
abbrev URL := List String

/-- `url.appendingPathComponent(name, isDirectory: false)`: an entry of a directory. -/
structure FileURL where
  directory : URL
  name : String
deriving DecidableEq

/-- The errors a file-system call or the encoder throws. -/
inductive FileSystemError where
  | noSuchFile
  | corruptData
  | failure (code : Nat)
deriving DecidableEq

/-- What is stored under an entry name. -/
inductive Node (Data : Type) where
  | file (data : Data)
  | directory

/-- The entries of one existing directory. -/
abbrev Listing (Data : Type) := AList fun _ : String => Node Data

/-- The state of the file system, with the number of fallible calls made so far. -/
structure FileManager (Data : Type) where
  listing : URL → Option (Listing Data)
  calls : Nat

/-- `FileManager.SearchPathDirectory`, as far as it is used. -/
inductive SearchPathDirectory where
  | documentDirectory
  | cachesDirectory

/-- One execution of the program. -/
structure Environment (Id : Type) where
  /-- `hashValue`, constant within one execution only. -/
  hashValue : Id → Int
  /-- `FileManager.default.urls(for:in:).first` -/
  url : SearchPathDirectory → URL
  /-- The error of the `n`-th fallible call, `none` where it succeeds. -/
  fault : Nat → Option FileSystemError
  /-- The order in which the `n`-th call, a listing, enumerates the entry names. -/
  order : Nat → List String → List String
  order_perm : ∀ n names, (order n names).Perm names

/-- No call fails but for the reasons the state itself gives. -/
def Environment.Quiet {Id : Type} (env : Environment Id) : Prop := ∀ n, env.fault n = none

/-- A file system in which a call fails is not quiet. -/
theorem not_quiet {Id : Type} {env : Environment Id} {n : Nat} {error : FileSystemError}
    (h : env.fault n = some error) : ¬ env.Quiet := by
  intro hq
  rw [hq n] at h
  exact absurd h (by simp)

variable {Id Data α β : Type}

/-! ### The state -/

namespace FileManager

/-- One more fallible call has been made. -/
def tick (fm : FileManager Data) : FileManager Data := { fm with calls := fm.calls + 1 }

/-- The entries below `directory`, none where it does not exist. -/
def entries (fm : FileManager Data) (directory : URL) : Listing Data :=
  (fm.listing directory).getD ∅

/-- The node at `url`. -/
def node (fm : FileManager Data) (url : FileURL) : Option (Node Data) :=
  (fm.entries url.directory).lookup url.name

/-- `fileExists(atPath:)` -/
def fileExists (fm : FileManager Data) (url : FileURL) : Bool := (fm.node url).isSome

/-- `contents(atPath:)`, nil for a missing entry and for a directory. -/
def contents (fm : FileManager Data) (url : FileURL) : Option Data :=
  match fm.node url with
  | some (.file data) => some data
  | _ => none

/-- What can be read is a file. -/
theorem node_of_contents {fm : FileManager Data} {url : FileURL} {data : Data}
    (h : fm.contents url = some data) : fm.node url = some (.file data) := by
  unfold contents at h
  split at h
  · rename_i data' hnode
    rw [hnode, Option.some.inj h]
  · exact absurd h.symm (Option.some_ne_none data)

/-- Replace the listing of an existing directory. -/
def modifyListing (fm : FileManager Data) (directory : URL)
    (f : Listing Data → Listing Data) : FileManager Data :=
  { fm with listing := Function.update fm.listing directory ((fm.listing directory).map f) }

/-- Make sure `directory` exists. -/
def makeDirectory (fm : FileManager Data) (directory : URL) : FileManager Data :=
  { fm with listing := Function.update fm.listing directory (some (fm.entries directory)) }

/-! How each update shows in `node` and in which directories exist. -/

@[simp] theorem node_tick (fm : FileManager Data) : fm.tick.node = fm.node := rfl

@[simp] theorem listing_tick (fm : FileManager Data) : fm.tick.listing = fm.listing := rfl

/-- Creating a directory changes no entry of the directories that are modelled. -/
@[simp] theorem node_makeDirectory (fm : FileManager Data) (directory : URL) :
    (fm.makeDirectory directory).node = fm.node := by
  funext url
  by_cases h : url.directory = directory
  · simp [node, entries, makeDirectory, h]
  · simp [node, entries, makeDirectory, Function.update_of_ne h]

/-- The directory exists afterwards. -/
@[simp] theorem listing_makeDirectory_isSome (fm : FileManager Data) (directory : URL) :
    ((fm.makeDirectory directory).listing directory).isSome = true := by
  simp [makeDirectory]

/-- Rewriting a directory neither creates nor removes one. -/
@[simp] theorem listing_modifyListing_isSome (fm : FileManager Data) (directory directory' : URL)
    (f : Listing Data → Listing Data) :
    ((fm.modifyListing directory' f).listing directory).isSome
      = (fm.listing directory).isSome := by
  by_cases h : directory = directory'
  · subst h; simp [modifyListing]
  · simp [modifyListing, Function.update_of_ne h]

/-- Rewriting one directory by `f` touches one entry if `f` does. -/
theorem node_modifyListing (fm : FileManager Data) (url : FileURL) (new : Option (Node Data))
    (f : Listing Data → Listing Data)
    (hself : ((fm.listing url.directory).map f).elim none (AList.lookup url.name) = new)
    (hother : ∀ l name, name ≠ url.name → (f l).lookup name = l.lookup name) :
    (fm.modifyListing url.directory f).node = Function.update fm.node url new := by
  funext other
  by_cases hu : other = url
  · subst hu
    rw [Function.update_self, ← hself]
    cases hl : fm.listing other.directory <;> simp [node, entries, modifyListing, hl]
  · rw [Function.update_of_ne hu]
    -- an entry of the same directory bears another name; other directories are not rewritten
    by_cases hd : other.directory = url.directory
    · have hn : other.name ≠ url.name := by
        intro hn; cases other; cases url; simp_all
      cases hl : fm.listing url.directory <;>
        simp [node, entries, modifyListing, hd, hl, hother _ _ hn]
    · simp [node, entries, modifyListing, Function.update_of_ne hd]

/-- An entry is removed, the others stay. -/
theorem node_erase (fm : FileManager Data) (url : FileURL) :
    (fm.modifyListing url.directory (AList.erase url.name)).node
      = Function.update fm.node url none := by
  refine fm.node_modifyListing url none _ ?_ fun l name hn => AList.lookup_erase_ne hn
  cases fm.listing url.directory <;> simp

/-- An entry of an existing directory is written, the others stay. -/
theorem node_insert (fm : FileManager Data) (url : FileURL)
    (h : (fm.listing url.directory).isSome) (new : Node Data) :
    (fm.modifyListing url.directory (AList.insert url.name new)).node
      = Function.update fm.node url (some new) := by
  obtain ⟨l, hl⟩ := Option.isSome_iff_exists.mp h
  refine fm.node_modifyListing url (some new) _ ?_ fun l name hn => AList.lookup_insert_ne hn
  simp [hl]

/-! Where the listing of a directory shows in `node`. -/

/-- A missing directory has no entries. -/
theorem node_of_listing_none {fm : FileManager Data} {directory : URL}
    (h : fm.listing directory = none) (name : String) : fm.node ⟨directory, name⟩ = none := by
  simp [node, entries, h]

/-- The names of a listing are those of the entries. -/
theorem mem_keys_iff {fm : FileManager Data} {directory : URL} {l : Listing Data}
    (h : fm.listing directory = some l) (name : String) :
    name ∈ l.keys ↔ (fm.node ⟨directory, name⟩).isSome = true := by
  rw [node, entries, h, Option.getD_some, AList.lookup_isSome, AList.mem_keys]

end FileManager

/-! ### The calls -/

/-- A computation over the file system that may throw. -/
abbrev FileM (Data α : Type) := ExceptT FileSystemError (StateM (FileManager Data)) α

namespace FileM

/-- Run a computation: its outcome and the file system it leaves. -/
def exec (block : FileM Data α) (fm : FileManager Data) :
    Except FileSystemError α × FileManager Data :=
  block.run.run fm

/-- `do { … } catch { … }` around a throwing block. -/
def catching (block : FileM Data α) (handler : FileSystemError → α) :
    StateM (FileManager Data) α := do
  match ← block.run with
  | .ok result => return result
  | .error error => return handler error

/-- Returning a value changes nothing. -/
@[simp] theorem exec_pure (a : α) (fm : FileManager Data) :
    exec (pure a) fm = (.ok a, fm) := rfl

/-- Neither does throwing an error. -/
@[simp] theorem exec_throw (error : FileSystemError) (fm : FileManager Data) :
    exec (throw error : FileM Data α) fm = (.error error, fm) := rfl

/-- Reading the file system changes nothing. -/
@[simp] theorem exec_get (fm : FileManager Data) : exec get fm = (.ok fm, fm) := rfl

/-- The file system is replaced. -/
@[simp] theorem exec_set (fm' fm : FileManager Data) : exec (set fm') fm = (.ok (), fm') := rfl

/-- The file system is changed by the function. -/
@[simp] theorem exec_modify (f : FileManager Data → FileManager Data) (fm : FileManager Data) :
    exec (modify f) fm = (.ok (), f fm) := rfl

/-- A block that throws stops; otherwise the rest runs on the state it left. -/
@[simp] theorem exec_bind (block : FileM Data α) (rest : α → FileM Data β)
    (fm : FileManager Data) :
    exec (block >>= rest) fm = match exec block fm with
      | (.ok a, fm') => exec (rest a) fm'
      | (.error error, fm') => (.error error, fm') := by
  show (ExceptT.bindCont rest (block.run.run fm).1).run (block.run.run fm).2 = _
  unfold exec
  rcases h : block.run.run fm with ⟨_ | _, _⟩ <;> rfl

/-- A caught block returns its result, or what the handler makes of its error. -/
theorem run_catching (block : FileM Data α) (handler : FileSystemError → α)
    (fm : FileManager Data) :
    (catching block handler).run fm = match exec block fm with
      | (.ok a, fm') => (a, fm')
      | (.error error, fm') => (handler error, fm') := by
  unfold catching exec
  rcases h : block.run.run fm with ⟨_ | _, _⟩ <;> simp_all <;> rfl

/-- A loop runs its body on the first item, and then on the others. -/
theorem forM_cons (body : α → FileM Data Unit) (x : α) (xs : List α) :
    (x :: xs).forM body = (do body x; xs.forM body) := rfl

/-- A handler does not touch the file system. -/
theorem run_catching_snd (block : FileM Data α) (handler : FileSystemError → α)
    (fm : FileManager Data) : ((catching block handler).run fm).2 = (exec block fm).2 := by
  rw [run_catching]
  rcases exec block fm with ⟨_ | _, _⟩ <;> rfl

/-! What a computation leaves alone. -/

/-- `block` leaves what `view` shows of the file system as it is, also where it throws. -/
def Preserves {γ : Type} (view : FileManager Data → γ) (block : FileM Data α) : Prop :=
  ∀ fm, view (exec block fm).2 = view fm

section Preserves

variable {γ : Type} {v : FileManager Data → γ}

/-- A result leaves everything as it is. -/
theorem Preserves.pure (a : α) : Preserves v (pure a : FileM Data α) := fun _ => rfl

/-- Where the rest leaves it alone, `v` shows what the first block has made of it. -/
theorem exec_bind_of_preserves {block : FileM Data α} {rest : α → FileM Data β}
    (hrest : ∀ a, Preserves v (rest a)) (fm : FileManager Data) :
    v (exec (block >>= rest) fm).2 = v (exec block fm).2 := by
  rw [exec_bind]
  rcases exec block fm with ⟨_ | a, fm'⟩
  · rfl
  · exact hrest a fm'

/-- So do two such computations one after the other. -/
theorem Preserves.bind {block : FileM Data α} {rest : α → FileM Data β}
    (hblock : Preserves v block) (hrest : ∀ a, Preserves v (rest a)) :
    Preserves v (block >>= rest) :=
  fun fm => (exec_bind_of_preserves hrest fm).trans (hblock fm)

/-- So does a loop of them. -/
theorem Preserves.forM {body : α → FileM Data Unit} (xs : List α)
    (h : ∀ x ∈ xs, Preserves v (body x)) : Preserves v (xs.forM body) := by
  induction xs with
  | nil => exact Preserves.pure ()
  | cons x xs ih =>
    rw [forM_cons]
    exact (h x (by simp)).bind fun _ => ih fun y hy => h y (List.mem_cons_of_mem _ hy)

/-- Catching what a block throws changes nothing in addition. -/
theorem Preserves.catching {block : FileM Data α} (h : Preserves v block)
    (handler : FileSystemError → α) (fm : FileManager Data) :
    v ((FileM.catching block handler).run fm).2 = v fm := by
  rw [run_catching_snd, h fm]

end Preserves

end FileM

namespace Environment

variable (env : Environment Id)

/-- Count a fallible call and throw where the environment lets it fail. -/
def attempt : FileM Data Unit := do
  let fm ← get
  set fm.tick
  match env.fault fm.calls with
  | some error => throw error
  | none => return ()

/-- `createDirectory(at:withIntermediateDirectories: true, attributes:)` -/
def createDirectory (url : URL) : FileM Data Unit := do
  env.attempt
  modify fun fm => fm.makeDirectory url

/-- `removeItem(at:)` -/
def removeItem (url : FileURL) : FileM Data Unit := do
  env.attempt
  if (← get).fileExists url then
    modify fun fm => fm.modifyListing url.directory (AList.erase url.name)
  else
    throw .noSuchFile

/-- `createFile(atPath:contents:attributes:)`, which reports failure by its result only. -/
def createFile (url : FileURL) (data : Data) : FileM Data Bool := do
  let fm ← get
  set fm.tick
  match env.fault fm.calls, fm.listing url.directory, fm.node url with
  | none, some _, some (.file _) | none, some _, none =>
    modify fun fm => fm.modifyListing url.directory (AList.insert url.name (.file data))
    return true
  | _, _, _ => return false

/-- `contentsOfDirectory(at:includingPropertiesForKeys:options:)` -/
def contentsOfDirectory (url : URL) : FileM Data (List FileURL) := do
  let fm ← get
  env.attempt
  match fm.listing url with
  | none => throw .noSuchFile
  | some entries => return (env.order fm.calls entries.keys).map (FileURL.mk url)

/-! One equation for each call. -/

/-- A fallible call is counted, and fails where it is meant to. -/
@[simp] theorem exec_attempt (fm : FileManager Data) :
    FileM.exec env.attempt fm = match env.fault fm.calls with
      | some error => (.error error, fm.tick)
      | none => (.ok (), fm.tick) := by
  simp only [attempt, FileM.exec_bind, FileM.exec_get, FileM.exec_set]
  cases env.fault fm.calls <;> rfl

/-- `createDirectory` fails, or the directory exists afterwards. -/
theorem exec_createDirectory (url : URL) (fm : FileManager Data) :
    FileM.exec (env.createDirectory url) fm = match env.fault fm.calls with
      | some error => (.error error, fm.tick)
      | none => (.ok (), fm.tick.makeDirectory url) := by
  simp only [createDirectory, FileM.exec_bind, exec_attempt]
  cases env.fault fm.calls <;> rfl

/-- `removeItem` fails, also for a missing entry, or removes the entry. -/
theorem exec_removeItem (url : FileURL) (fm : FileManager Data) :
    FileM.exec (env.removeItem url) fm = match env.fault fm.calls with
      | some error => (.error error, fm.tick)
      | none =>
        if fm.fileExists url then
          (.ok (), fm.tick.modifyListing url.directory (AList.erase url.name))
        else (.error .noSuchFile, fm.tick) := by
  simp only [removeItem, FileM.exec_bind, exec_attempt]
  cases env.fault fm.calls with
  | some error => rfl
  | none =>
    have hex : fm.tick.fileExists url = fm.fileExists url := rfl
    simp only [FileM.exec_get, hex]
    cases fm.fileExists url <;> rfl

/-- Creating a file where nothing is stored: it appears unless the call is made to fail. -/
theorem exec_createFile_absent (url : FileURL) (data : Data) (fm : FileManager Data)
    (hdir : (fm.listing url.directory).isSome)
    (habs : fm.node url = none) :
    FileM.exec (env.createFile url data) fm = match env.fault fm.calls with
      | some _ => (.ok false, fm.tick)
      | none =>
        (.ok true, fm.tick.modifyListing url.directory (AList.insert url.name (.file data))) := by
  obtain ⟨l, hl⟩ := Option.isSome_iff_exists.mp hdir
  simp only [createFile, FileM.exec_bind, FileM.exec_get, FileM.exec_set, hl, habs]
  cases env.fault fm.calls <;> rfl

/-- A listing enumerates the entry names of an existing directory in some order. -/
theorem exec_contentsOfDirectory (url : URL) (fm : FileManager Data) :
    FileM.exec (env.contentsOfDirectory url) fm = match env.fault fm.calls, fm.listing url with
      | some error, _ => (.error error, fm.tick)
      | none, none => (.error .noSuchFile, fm.tick)
      | none, some l => (.ok ((env.order fm.calls l.keys).map (FileURL.mk url)), fm.tick) := by
  simp only [contentsOfDirectory, FileM.exec_bind, FileM.exec_get, exec_attempt]
  cases env.fault fm.calls with
  | some error => rfl
  | none => cases fm.listing url <;> rfl

/-- A listing that succeeds names each entry once, in some order. -/
theorem exec_contentsOfDirectory_of_listing {url : URL} {fm : FileManager Data} {l : Listing Data}
    (hcall : env.fault fm.calls = none) (hl : fm.listing url = some l) :
    ∃ names : List String,
      FileM.exec (env.contentsOfDirectory url) fm = (.ok (names.map (FileURL.mk url)), fm.tick) ∧
      names.Nodup ∧ names.length = l.keys.length ∧
      ∀ name, name ∈ names ↔ (fm.node ⟨url, name⟩).isSome = true := by
  have hperm := env.order_perm fm.calls l.keys
  refine ⟨env.order fm.calls l.keys, ?_, hperm.nodup_iff.mpr l.keys_nodup, hperm.length_eq,
    fun name => ?_⟩
  · rw [exec_contentsOfDirectory, hcall, hl]
  · rw [hperm.mem_iff, FileManager.mem_keys_iff hl]

/-- The items it returns are those of the directory. -/
theorem exec_contentsOfDirectory_items {url : URL} {fm : FileManager Data} {l : Listing Data}
    (hcall : env.fault fm.calls = none) (hl : fm.listing url = some l) :
    ∃ items, FileM.exec (env.contentsOfDirectory url) fm = (.ok items, fm.tick) ∧
      items.Nodup ∧ items.length = l.keys.length ∧
      ∀ item, item ∈ items ↔ item.directory = url ∧ fm.fileExists item = true := by
  obtain ⟨names, hrun, hnd, hlength, hnames⟩ := env.exec_contentsOfDirectory_of_listing hcall hl
  refine ⟨_, hrun, hnd.map fun _ _ h => (FileURL.mk.inj h).2, by rw [List.length_map, hlength],
    fun item => ?_⟩
  rw [List.mem_map]
  constructor
  · rintro ⟨name, hname, rfl⟩
    exact ⟨rfl, (hnames name).mp hname⟩
  · rintro ⟨rfl, hexists⟩
    exact ⟨item.name, (hnames item.name).mpr hexists, rfl⟩

/-- A listing changes nothing, and every item it returns lies in the listed directory. -/
theorem exec_listing (url : URL) (fm : FileManager Data) :
    (∃ error, FileM.exec (env.contentsOfDirectory url) fm = (.error error, fm.tick)) ∨
    ∃ fileURLs, FileM.exec (env.contentsOfDirectory url) fm = (.ok fileURLs, fm.tick) ∧
      ∀ fileURL ∈ fileURLs, fileURL.directory = url := by
  rw [exec_contentsOfDirectory]
  cases env.fault fm.calls with
  | some error => exact Or.inl ⟨error, rfl⟩
  | none =>
    cases fm.listing url with
    | none => exact Or.inl ⟨.noSuchFile, rfl⟩
    | some l =>
      refine Or.inr ⟨_, rfl, fun fileURL hfile => ?_⟩
      obtain ⟨name, -, rfl⟩ := List.mem_map.mp hfile
      rfl

section Preserves

variable {γ : Type} {v : FileManager Data → γ} (htick : ∀ fm, v fm.tick = v fm)

include htick

/-- An attempt only counts. -/
theorem preserves_attempt : FileM.Preserves v env.attempt := by
  intro fm
  rw [exec_attempt]
  cases env.fault fm.calls <;> exact htick fm

/-- Listing a directory changes nothing. -/
theorem preserves_contentsOfDirectory (url : URL) :
    FileM.Preserves v (env.contentsOfDirectory url) := by
  intro fm
  rcases env.exec_listing url fm with ⟨error, hrun⟩ | ⟨fileURLs, hrun, -⟩ <;> rw [hrun] <;>
    exact htick fm

end Preserves

/-- Creating a file in place of nothing: it is there unless the call is made to fail. -/
theorem exec_writeFile (url : FileURL) (data : Data) (fm : FileManager Data)
    (hdir : (fm.listing url.directory).isSome) (habs : fm.node url = none) :
    ∃ created fm', FileM.exec (env.createFile url data) fm = (.ok created, fm') ∧
      fm'.node = Function.update fm.node url
        (match env.fault fm.calls with
          | none => some (.file data)
          | some _ => none) := by
  rw [env.exec_createFile_absent url data fm hdir habs]
  cases env.fault fm.calls with
  | none => exact ⟨true, _, rfl, fm.tick.node_insert url hdir _⟩
  | some error =>
    refine ⟨false, _, rfl, ?_⟩
    show fm.tick.node = Function.update fm.node url none
    rw [FileManager.node_tick, ← habs, Function.update_eq_self]

/-- Removing one item touches nothing else. -/
theorem removeItem_node (item : FileURL) (fm : FileManager Data) (url : FileURL) :
    (FileM.exec (env.removeItem item) fm).2.node url = fm.node url ∨
      url = item ∧ (FileM.exec (env.removeItem item) fm).2.node url = none := by
  rw [exec_removeItem]
  cases env.fault fm.calls with
  | some error => exact Or.inl rfl
  | none =>
    cases fm.fileExists item with
    | false => exact Or.inl rfl
    | true =>
      show (fm.tick.modifyListing item.directory (AList.erase item.name)).node url = _ ∨ _ ∧
        (fm.tick.modifyListing item.directory (AList.erase item.name)).node url = _
      rw [FileManager.node_erase, FileManager.node_tick]
      by_cases hurl : url = item
      · exact Or.inr ⟨hurl, by rw [hurl, Function.update_self]⟩
      · exact Or.inl (Function.update_of_ne hurl _ _)

/-- Removing a list of items, as far as it gets, touches nothing else. -/
theorem removeItems_node (items : List FileURL) (fm : FileManager Data) (url : FileURL) :
    (FileM.exec (items.forM env.removeItem) fm).2.node url = fm.node url ∨
      url ∈ items ∧ (FileM.exec (items.forM env.removeItem) fm).2.node url = none := by
  induction items generalizing fm with
  | nil => exact Or.inl rfl
  | cons head tail ih =>
    rw [FileM.forM_cons, FileM.exec_bind]
    have hhead := env.removeItem_node head fm url
    generalize FileM.exec (env.removeItem head) fm = first at hhead ⊢
    obtain ⟨outcome, fm₁⟩ := first
    have hfirst : fm₁.node url = fm.node url ∨ url ∈ head :: tail ∧ fm₁.node url = none := by
      rcases hhead with h | ⟨hurl, h⟩
      · exact Or.inl h
      · exact Or.inr ⟨by rw [hurl]; exact List.mem_cons_self, h⟩
    cases outcome with
    | error error => exact hfirst
    | ok _ =>
      rcases ih fm₁ with h | ⟨hmem, h⟩
      · simp only [h]
        exact hfirst
      · exact Or.inr ⟨List.mem_cons_of_mem _ hmem, h⟩

/-- **Removing a list of items** that are all there, each listed once: the first call that fails
    ends the loop, and without one they are all gone. -/
theorem exec_removeItems (items : List FileURL) (fm : FileManager Data) (hnd : items.Nodup)
    (hexist : ∀ item ∈ items, fm.fileExists item = true) :
    (FileM.exec (items.forM env.removeItem) fm).1
        = (match (List.range' fm.calls items.length).findSome? env.fault with
          | some error => .error error
          | none => .ok ()) ∧
      ((List.range' fm.calls items.length).findSome? env.fault = none →
        ∀ item ∈ items, (FileM.exec (items.forM env.removeItem) fm).2.node item = none) := by
  induction items generalizing fm with
  | nil => exact ⟨rfl, by simp⟩
  | cons head tail ih =>
    rw [List.nodup_cons] at hnd
    rw [FileM.forM_cons, FileM.exec_bind, exec_removeItem, hexist head List.mem_cons_self,
      List.length_cons, List.range'_succ, List.findSome?_cons]
    cases h₀ : env.fault fm.calls with
    | some error => exact ⟨rfl, fun h => absurd h (Option.some_ne_none error)⟩
    | none =>
      simp only [if_true]
      -- `fm₁`: the head is gone, and the rest is still there, for the head is not among it
      generalize hfm₁ : fm.tick.modifyListing head.directory (AList.erase head.name) = fm₁
      have hnode₁ : fm₁.node = Function.update fm.node head none := by
        rw [← hfm₁, FileManager.node_erase, FileManager.node_tick]
      have hexist₁ : ∀ item ∈ tail, fm₁.fileExists item = true := by
        intro item hitem
        have hne : item ≠ head := by rintro rfl; exact hnd.1 hitem
        rw [FileManager.fileExists, hnode₁, Function.update_of_ne hne]
        exact hexist item (List.mem_cons_of_mem _ hitem)
      obtain ⟨houtcome, hgone⟩ := ih fm₁ hnd.2 hexist₁
      rw [show fm₁.calls = fm.calls + 1 by rw [← hfm₁]; rfl] at houtcome hgone
      refine ⟨houtcome, fun hnone item hitem => ?_⟩
      rcases List.mem_cons.mp hitem with rfl | htail
      · -- nothing that follows brings the head back
        rcases env.removeItems_node tail fm₁ item with h | ⟨-, h⟩
        · rw [h, hnode₁, Function.update_self]
        · exact h
      · exact hgone hnone item htail

end Environment

end QBRepository
