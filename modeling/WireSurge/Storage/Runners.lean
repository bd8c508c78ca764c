import WireSurge.Core.Json
import WireSurge.Lib.Pool
import WireSurge.Metrics.Runner
import WireSurge.Storage.Concurrent

/-!
# Runner records

A run writes its record again and again, in place (`write_runner_snapshot`); a
watcher lists the records of all runners (`runner_entries_json`). The two take
their steps in any order (`sharing`). `fs::write` empties the file before it
writes the text, and a watcher that reads it then gets an error for the whole list
(`listing_torn`).

In a run in which the watcher does not read the file while a write of it is
unfinished (`WholeRead`), the list has each record of the other runners, and of the
run one that was whole in the file; or none, if there was no file when the listing
began (`listing_of_wholeRead`).
-/

namespace WireSurge.Storage

open WireSurge.Core (Json WireSurgeError)
open Fs (Bytes)
open Function (update)
open Metrics (RunnerStats)
open Prog (Only Pool Safe)
open UnixPath (Name child extension join ofText parent separator)

/-! ## Programs -/

/-- An error of the JSON parser, with its place in the text. -/
structure JsonError where
  message : String
  line : Nat
  column : Nat

/-- `serde_json`, for records: how one is written, or the message why not, and how texts
and values are read and written. -/
structure RecordJson where
  ofStats : RunnerStats → Except String String
  fromStr : String → Except JsonError Json
  toString : Json → String

/-- `to_json`. -/
def RecordJson.toJson (lib : RecordJson) (stats : RunnerStats) : Except WireSurgeError String :=
  (lib.ofStats stats).mapError (WireSurgeError.new "json_encode_failed")

/-- `parse_stored_json`. -/
def parseStoredJson (lib : RecordJson) (input : String) : Except WireSurgeError Json :=
  (lib.fromStr input).mapError fun error =>
    (WireSurgeError.new "invalid_stored_json" error.message).atPath
      ("line " ++ toString error.line ++ ", column " ++ toString error.column)

/-- `fs::create_dir_all`; a path has fewer parents than characters. -/
def createDirAllRounds : Nat → UnixPath → FsM Unit
  | 0, _ => pure ()
  | rounds + 1, path => do
    if path = [] then pure ()
    else
      match ← ask (.mkdir path) with
      | .ok () => pure ()
      | .error error =>
        if error.kind = .notFound then do
          createDirAllRounds rounds (parent path)
          match ← ask (.mkdir path) with
          | .ok () => pure ()
          | .error error => if ← ask (.isDir path) then pure () else throw (ofIo error)
        else if ← ask (.isDir path) then pure () else throw (ofIo error)

/-- `create_dir_all`: a path has no more parents than characters. -/
def createDirAll (path : UnixPath) : FsM Unit := createDirAllRounds (path.length + 1) path

/-- `fs::write`. -/
def fsWrite (path : UnixPath) (bytes : Bytes) : FsM Unit := do
  let fd ← mapErr ofIo (← ask (.create path))
  writeAll fd bytes

namespace WorkspaceStore

variable (store : WorkspaceStore) (lib : RecordJson)

/-- `runners_dir`. -/
def runnersDir : UnixPath := join store.metadataDir (ofText "runners")

/-- The file of the record of a runner. -/
def recordPath (id : String) : UnixPath := join store.runnersDir (ofText (id ++ ".json"))

/-- `write_runner_snapshot`: the record is written over the one that is there. -/
def writeRunnerSnapshot (stats : RunnerStats) : FsM Unit := do
  store.ensureWorkspace
  createDirAll store.runnersDir
  let text ← liftExcept (lib.toJson stats)
  fsWrite (store.recordPath stats.id) (Str.encode text.toList)

/-- The snapshots of a run, one after another. -/
def writeRunnerSnapshots : List RunnerStats → FsM Unit
  | [] => pure ()
  | stats :: records => do
    store.writeRunnerSnapshot lib stats
    writeRunnerSnapshots records

/-- The loop of `runner_entries_json` over the entries. -/
def readRecords (entries : List Json) : List Name → FsM (List Json)
  | [] => pure entries
  | name :: names => do
    let path := join store.runnersDir name
    if extension path = some (ofText "json") then
      let input ← mapErr ofIo (← readToString path)
      let value ← liftExcept (parseStoredJson lib input)
      readRecords (entries ++ [value]) names
    else readRecords entries names

/-- The records in the order of their texts. -/
def sortEntries (entries : List Json) : List Json :=
  entries.mergeSort fun left right => (compare (lib.toString left) (lib.toString right)).isLE

/-- `runner_entries_json`: one record that cannot be read fails the list. -/
def runnerEntriesJson : FsM String := do
  store.ensureWorkspace
  let entries ← if ← ask (.exists_ store.runnersDir) then do
      let names ← mapErr ofIo (← ask (.readDir store.runnersDir))
      store.readRecords lib [] names
    else pure []
  return lib.toString (.array (sortEntries lib entries))

end WorkspaceStore

/-! ## A run and a watcher -/

/-- Who is at work on the records. -/
inductive Party
  | run
  | watcher
  deriving DecidableEq

/-- What is left of the run, or of the listing. -/
abbrev Listing := Prog Fs.Op Fs.Ans (Except WireSurgeError String)

/-- The programs of the run and of the watcher over one file system. -/
abbrev Sharing := Pool Party Fs.Op Fs.Ans (Except WireSurgeError String) Fs

/-- The run with its records, and a listing of the records. -/
def sharing (store : WorkspaceStore) (lib : RecordJson) (records : List RunnerStats) (s : Fs) : Sharing where
  rest
    | .run => (do store.writeRunnerSnapshots lib records; return "" : FsM String).run
    | .watcher => (store.runnerEntriesJson lib).run
  state := s

/-- A file has been opened, and is not yet written. -/
def unfinished (rest : Listing) : Bool :=
  match rest.next with
  | some (.write _ _) => true
  | _ => false

/-- The next operation is the read of the file at `path`. -/
def readsAt (path : UnixPath) (rest : Listing) : Bool :=
  match rest.next with
  | some (.read p) => p = path
  | _ => false

/-- The watcher does not read the run's record while a write of it is unfinished. -/
def WholeRead (store : WorkspaceStore) (id : String) (pool : Sharing) (action : Party × Fs.Choice) : Prop :=
  action.1 = .watcher → readsAt (store.recordPath id) (pool.rest .watcher) → ¬unfinished (pool.rest .run)

/-! ## Paths -/

/-- What the id of a runner is: a file name, but for its end. -/
structure PlainId (id : String) : Prop where
  ne_nil : id.toList ≠ []
  noSeparator : '/' ∉ id.toList

section

variable {store : WorkspaceStore} {id : String} {name : Name}

open WorkspaceStore

theorem runnersDir_eq : store.runnersDir = child store.metadataDir (ofText "runners") :=
  store.join_metadataDir (by decide)

theorem join_runnersDir (h : separator ∉ name) : join store.runnersDir name = child store.runnersDir name :=
  UnixPath.join_eq_child (UnixPath.join_ne_nil _ (by decide))
    (by rw [runnersDir, UnixPath.getLast?_join _ (by decide)]; decide) h

theorem runnersDir_ne_workspaceFile : store.runnersDir ≠ store.workspaceFile := by
  rw [runnersDir_eq, workspaceFile_eq]
  exact fun h => absurd (UnixPath.child_injective h) (by decide)

theorem runnersDir_ne_metadataDir : store.runnersDir ≠ store.metadataDir := by
  rw [runnersDir_eq]
  exact UnixPath.child_ne_self

theorem child_runnersDir_ne_workspaceFile (h : separator ∉ name) :
    child store.runnersDir name ≠ store.workspaceFile := by
  intro he
  have hparent := congrArg UnixPath.parent he
  rw [UnixPath.parent_child h, workspaceFile_eq, UnixPath.parent_child (by decide)] at hparent
  exact runnersDir_ne_metadataDir hparent

theorem child_runnersDir_ne_metadataDir : child store.runnersDir name ≠ store.metadataDir := by
  intro he
  have hlength := congrArg List.length he
  rw [runnersDir_eq] at hlength
  simp [child] at hlength

theorem parent_runnersDir : parent store.runnersDir = store.metadataDir := by
  rw [runnersDir_eq, UnixPath.parent_child (by decide)]

/-- The file name of a record. -/
def recordName (id : String) : Name := ofText (id ++ ".json")

theorem PlainId.recordName (h : PlainId id) : separator ∉ recordName id :=
  UnixPath.noSeparator_append h.noSeparator (by decide)

theorem recordPath_eq (h : PlainId id) : store.recordPath id = child store.runnersDir (recordName id) :=
  join_runnersDir h.recordName

theorem extension_recordName (h : PlainId id) :
    extension (join store.runnersDir (recordName id)) = some (ofText "json") := by
  rw [join_runnersDir h.recordName]
  exact UnixPath.extension_ofText h.recordName h.ne_nil rfl (by decide) (by decide)

theorem plainId_localRunner (host : Metrics.Host) (now : Nat) (run : Option String) (workers : Nat) :
    PlainId (RunnerStats.localRunner host now run workers).id where
  ne_nil := by simp [RunnerStats.localRunner]
  noSeparator hmem := by
    rw [RunnerStats.localRunner, String.toList_append] at hmem
    rcases List.mem_append.mp hmem with hstart | hdigits
    · exact absurd hstart (by decide)
    · rw [Nat.toString_eq_repr, Nat.toList_repr] at hdigits
      have hdigit : '/'.isDigit := Nat.isDigit_of_mem_toDigits (by decide) (by decide) hdigits
      exact absurd hdigit (by decide)

end

/-! ## What the run and the watcher ask -/

/-- The operations of a run: no name is taken away. -/
def Adds : Fs.Op → Prop
  | .exists_ _ | .isDir _ | .mkdir _ | .create _ | .write _ _ => True
  | _ => False

section

variable {faults : Bool} {s s' : Fs} {op : Fs.Op} {ans : Fs.Ans op}

theorem state_of_looks (h : Looks op) (hw : Fs.world false s op ans s') : s' = s := by
  cases op with
  | exists_ p => exact (Fs.world_exists hw).1
  | isDir p => exact (Fs.world_isDir hw).1
  | read p => exact (Fs.world_read hw).1
  | readDir d => exact (Fs.world_readDir hw).1
  | _ => cases h

theorem look_of_adds (h : Adds op) (hw : Fs.world false s op ans s') (p : UnixPath) (hp : (s.look p).isSome) :
    (s'.look p).isSome := by
  have hupdate {q : UnixPath} {entry : Fs.Entry} (hlook : s'.look = update s.look q (some entry)) :
      (s'.look p).isSome := by
    rw [hlook, Function.update_apply]
    split
    · rfl
    · exact hp
  cases op with
  | exists_ q => rwa [(Fs.world_exists hw).1]
  | isDir q => rwa [(Fs.world_isDir hw).1]
  | mkdir q =>
    rcases Fs.world_mkdir hw with ⟨-, -, rfl, -⟩ | ⟨-, -, hlook⟩
    · exact hp
    · exact hupdate hlook
  | create q =>
    rcases Fs.world_create hw with ⟨-, -, rfl, -⟩ | ⟨-, -, -, -, hlook⟩
    · exact hp
    · exact hupdate hlook
  | write fd bytes =>
    rw [Fs.look_isSome] at hp ⊢
    rwa [Fs.nodes_write hw]
  | _ => cases h

end

/-! ## The run -/

/-- A workspace for the records. -/
structure Prepared (store : WorkspaceStore) (id : String) (s : Fs) : Prop where
  plain : PlainId id
  workspace : (s.look store.workspaceFile).isSome
  metadata : s.look store.metadataDir = some .dir
  place : s.look store.runnersDir = some .dir ∨ s.look store.runnersDir = none ∧ s.entries store.runnersDir = []

/-- All names show what they did at first, but the run's record and the directory for it. -/
structure Around (store : WorkspaceStore) (id : String) (first s : Fs) : Prop where
  same (p : UnixPath) : p ≠ store.recordPath id → p ≠ store.runnersDir → s.look p = first.look p
  place : s.look store.runnersDir = some .dir ∨
    s.look store.runnersDir = none ∧ s.look (store.recordPath id) = none

/-- The record is the one there was at first, or a whole one of the run. -/
def Whole (store : WorkspaceStore) (lib : RecordJson) (id : String) (records : List RunnerStats) (first s : Fs) :
    Prop :=
  s.look (store.recordPath id) = first.look (store.recordPath id) ∨ ∃ stats ∈ records, ∃ text,
    lib.toJson stats = .ok text ∧ s.look (store.recordPath id) = some (.file (Str.encode text.toList))

/-- The state of the file system where the run asks for `op`. -/
structure RunAsks (store : WorkspaceStore) (lib : RecordJson) (id : String) (records : List RunnerStats) (first s : Fs)
    (op : Fs.Op) : Prop where
  adds : Adds op
  around : Around store id first s
  whole : (∀ fd bytes, op ≠ .write fd bytes) → Whole store lib id records first s

section

variable {store : WorkspaceStore} {lib : RecordJson} {id : String} {records : List RunnerStats} {first s s' : Fs}

theorem Prepared.around (h : Prepared store id first) : Around store id first first where
  same _ _ _ := rfl
  place := by
    refine h.place.imp_right fun ⟨hdir, hentries⟩ => ⟨hdir, ?_⟩
    by_contra hne
    have hmem : recordName id ∈ first.entries store.runnersDir := by
      rw [Fs.mem_entries, ← recordPath_eq h.plain]
      exact ⟨h.plain.recordName, Option.isSome_iff_ne_none.mpr hne⟩
    rw [hentries] at hmem
    cases hmem

theorem Prepared.recordPath_ne (h : Prepared store id first) : store.recordPath id ≠ store.runnersDir := by
  rw [recordPath_eq h.plain]
  exact UnixPath.child_ne_self

theorem Around.metadata (h : Around store id first s) (hp : Prepared store id first) :
    s.look store.metadataDir = some .dir := by
  rw [h.same _ ?_ runnersDir_ne_metadataDir.symm, hp.metadata]
  rw [recordPath_eq hp.plain]
  exact child_runnersDir_ne_metadataDir.symm

theorem Around.workspace (h : Around store id first s) (hp : Prepared store id first) :
    (s.look store.workspaceFile).isSome := by
  rw [h.same _ ?_ runnersDir_ne_workspaceFile.symm]
  · exact hp.workspace
  · rw [recordPath_eq hp.plain]
    exact (child_runnersDir_ne_workspaceFile hp.plain.recordName).symm

/-- The directory is made. -/
theorem Around.mkdir (h : Around store id first s) (hlook : s'.look = update s.look store.runnersDir (some .dir)) :
    Around store id first s' where
  same p hp hdir := by
    rw [hlook, Function.update_of_ne hdir]
    exact h.same p hp hdir
  place := .inl (by rw [hlook, Function.update_self])

/-- The record is written. -/
theorem Around.write (h : Around store id first s) (hp : Prepared store id first)
    (hplace : s.look store.runnersDir = some .dir) {content : Bytes}
    (hlook : s'.look = update s.look (store.recordPath id) (some (.file content))) : Around store id first s' where
  same p hne hdir := by
    rw [hlook, Function.update_of_ne hne]
    exact h.same p hne hdir
  place := .inl (by rw [hlook, Function.update_of_ne hp.recordPath_ne.symm, hplace])

/-- What holds of the file system in all runs that meet the condition. -/
abbrev Kept (store : WorkspaceStore) (lib : RecordJson) (id : String) (records : List RunnerStats) (first s : Fs) :
    Prop :=
  Around store id first s ∧ Whole store lib id records first s

theorem Kept.asks (h : Kept store lib id records first s) {op : Fs.Op} (hop : Adds op) :
    RunAsks store lib id records first s op := ⟨hop, h.1, fun _ => h.2⟩

theorem safe_createDirAll (hp : Prepared store id first) (h : Kept store lib id records first s) :
    Safe (Fs.world false) (RunAsks store lib id records first) (fun _ s => Kept store lib id records first s)
      (createDirAll store.runnersDir).run s := by
  have hne : store.runnersDir ≠ [] := UnixPath.join_ne_nil _ (by decide)
  rw [createDirAll, createDirAllRounds, if_neg hne, Prog.safe_run_bind, safe_ask]
  refine ⟨h.asks trivial, fun ans s' hw => ?_⟩
  rcases Fs.world_mkdir hw with ⟨error, rfl, rfl, hcause⟩ | ⟨rfl, -, hlook⟩
  · rcases hcause rfl with ⟨rfl, -⟩ | ⟨-, hparent⟩
    · simp only [Prog.onOk, Fs.alreadyExists, reduceCtorEq, if_false, Prog.safe_run_bind]
      refine ⟨h.asks trivial, fun ans s'' hw => ?_⟩
      obtain ⟨rfl, -, -⟩ := Fs.world_isDir hw
      cases ans <;> exact h
    · rw [parent_runnersDir] at hparent
      exact absurd (h.1.metadata hp) hparent
  · refine ⟨h.1.mkdir hlook, ?_⟩
    rw [Whole, hlook, Function.update_of_ne hp.recordPath_ne]
    exact h.2

theorem safe_fsWrite (hp : Prepared store id first) (h : Kept store lib id records first s) {stats : RunnerStats}
    {text : String} (hmem : stats ∈ records) (htext : lib.toJson stats = .ok text) :
    Safe (Fs.world false) (RunAsks store lib id records first) (fun _ s => Kept store lib id records first s)
      (fsWrite (store.recordPath id) (Str.encode text.toList)).run s := by
  rw [fsWrite, Prog.safe_run_bind, safe_ask]
  refine ⟨h.asks trivial, fun ans s' hw => ?_⟩
  rcases Fs.world_create hw with ⟨error, rfl, rfl, -⟩ | ⟨fd, rfl, hcan, hwriting, hlook⟩
  · exact h
  · have hplace : s.look store.runnersDir = some .dir := by
      rcases h.1.place with hdir | ⟨hnone, habsent⟩
      · exact hdir
      · have hparent := hcan.2 habsent
        rw [recordPath_eq hp.plain, UnixPath.parent_child hp.plain.recordName, hnone] at hparent
        cases hparent
    simp only [Prog.onOk, Prog.safe_run_bind, safe_mapErr, Except.mapError]
    refine safe_writeAll ⟨hwriting, hlook⟩ (fun w rest t ht _ => ?_) (fun t ht => ?_) fun hf =>
      absurd hf Bool.false_ne_true
    · exact ⟨trivial, h.1.write hp hplace ht.look, fun hne => absurd rfl (hne _ _)⟩
    · refine ⟨h.1.write hp hplace ht.look, .inr ⟨stats, hmem, text, htext, ?_⟩⟩
      rw [ht.look, Function.update_self]

theorem safe_writeRunnerSnapshots (hp : Prepared store id first) (hids : ∀ stats ∈ records, stats.id = id) :
    ∀ (rest : List RunnerStats) (s : Fs), (∀ stats ∈ rest, stats ∈ records) → Kept store lib id records first s →
      Safe (Fs.world false) (RunAsks store lib id records first) (fun _ s => Kept store lib id records first s)
        (store.writeRunnerSnapshots lib rest).run s := by
  intro rest
  induction rest with
  | nil => exact fun s _ h => h
  | cons stats rest ih =>
    intro s hrest h
    have hmem := hrest stats List.mem_cons_self
    rw [WorkspaceStore.writeRunnerSnapshots, Prog.safe_run_bind, WorkspaceStore.writeRunnerSnapshot,
      Prog.safe_run_bind]
    refine safe_ensureWorkspace (h.asks trivial) (fun _ => ?_) fun _ _ => h
    simp only [Prog.onOk, Prog.safe_run_bind]
    refine (safe_createDirAll hp h).mono fun r s' h' => ?_
    cases r with
    | error => exact h'
    | ok =>
      simp only [Prog.onOk, safe_liftExcept]
      cases htext : lib.toJson stats with
      | error => exact h'
      | ok text =>
        simp only [hids stats hmem]
        refine (safe_fsWrite hp h' hmem htext).mono fun r s'' h'' => ?_
        cases r with
        | error => exact h''
        | ok => exact ih s'' (fun _ ht => hrest _ (List.mem_cons_of_mem _ ht)) h''

end

/-! ## Both -/

/-- What is left of the run keeps the record whole, but while it writes it, and the
watcher only looks. -/
structure Sound (store : WorkspaceStore) (lib : RecordJson) (id : String) (records : List RunnerStats) (first : Fs)
    (pool : Sharing) : Prop where
  run : Safe (Fs.world false) (RunAsks store lib id records first) (fun _ s => Kept store lib id records first s)
    (pool.rest .run) pool.state
  watcher : Only Looks (pool.rest .watcher)

/-- The states behind `pool`. -/
abbrev Behind (store : WorkspaceStore) (id : String) : Sharing → Sharing → Prop :=
  Lts.Reach (Pool.step performed) (WholeRead store id)

section

variable {store : WorkspaceStore} {lib : RecordJson} {id : String} {records : List RunnerStats} {first : Fs}
variable {pool pool' : Sharing}

theorem only_looks {op : Fs.Op} (h : Looks op) : Only Looks (ask op).run := Prog.only_ask.mpr ⟨h, fun _ => trivial⟩

theorem only_except {α : Type} (r : Except WireSurgeError α) : Only Looks (liftExcept r : FsM α).run := by
  cases r <;> trivial

theorem only_mapErr {α : Type} (r : Except Fs.IoError α) : Only Looks (mapErr ofIo r).run := by
  cases r <;> trivial

theorem only_readRecords (names : List Name) :
    ∀ entries : List Json, Only Looks (store.readRecords lib entries names).run := by
  induction names with
  | nil => exact fun _ => trivial
  | cons name names ih =>
    intro entries
    rw [WorkspaceStore.readRecords]
    split
    · refine Prog.only_run_bind (Prog.only_run_bind (only_looks (by trivial)) fun _ => trivial) fun input => ?_
      exact Prog.only_run_bind (only_mapErr _) fun text => Prog.only_run_bind (only_except _) fun value => ih _
    · exact ih entries

theorem only_runnerEntriesJson : Only Looks (store.runnerEntriesJson lib).run := by
  refine Prog.only_run_bind (Prog.only_run_bind (only_looks (by trivial)) fun there => ?_) fun _ => ?_
  · split <;> trivial
  refine Prog.only_run_bind (only_looks (by trivial)) fun there => ?_
  simp only
  split
  · refine Prog.only_run_bind (only_looks (by trivial)) fun names => Prog.only_run_bind (only_mapErr _) fun names => ?_
    exact Prog.only_run_bind (only_readRecords names []) fun entries => trivial
  · trivial

theorem sound_sharing (hp : Prepared store id first) (hids : ∀ stats ∈ records, stats.id = id) :
    Sound store lib id records first (sharing store lib records first) where
  run := by
    show Safe _ _ _ (ExceptT.run do store.writeRunnerSnapshots lib records; return "") first
    rw [Prog.safe_run_bind]
    refine (safe_writeRunnerSnapshots hp hids records first (fun _ h => h) ⟨hp.around, .inl rfl⟩).mono fun r s h => ?_
    cases r <;> exact h
  watcher := only_runnerEntriesJson

namespace Sound

theorem around (h : Sound store lib id records first pool) : Around store id first pool.state := by
  have hrun := h.run
  cases hrest : pool.rest .run with
  | done r =>
    rw [hrest] at hrun
    exact hrun.1
  | ask op k =>
    rw [hrest] at hrun
    exact hrun.1.around

theorem whole (h : Sound store lib id records first pool) (hu : ¬unfinished (pool.rest .run)) :
    Whole store lib id records first pool.state := by
  have hrun := h.run
  cases hrest : pool.rest .run with
  | done r =>
    rw [hrest] at hrun
    exact hrun.2
  | ask op k =>
    rw [hrest] at hrun hu
    refine hrun.1.whole fun fd bytes hop => ?_
    subst hop
    exact hu rfl

/-- No step takes a name away. -/
theorem step (h : Sound store lib id records first pool) {action : Party × Fs.Choice}
    (hs : pool.step performed action = some pool') : Sound store lib id records first pool' ∧
      ∀ p, (pool.state.look p).isSome → (pool'.state.look p).isSome := by
  obtain ⟨i, c⟩ := action
  obtain ⟨op, k, ans, s, hrest, hans, rfl⟩ := Pool.step_cases hs
  have hw := world_of_performed hans
  cases i with
  | run =>
    have hrun := h.run
    rw [hrest] at hrun
    exact ⟨⟨hrun.2 ans s hw, h.watcher⟩, look_of_adds hrun.1.adds hw⟩
  | watcher =>
    have hwatcher := h.watcher
    rw [hrest, Prog.only_ask] at hwatcher
    obtain rfl := state_of_looks hwatcher.1 hw
    exact ⟨⟨h.run, hwatcher.2 ans⟩, fun _ hp => hp⟩

theorem behind (h : Sound store lib id records first pool) (hr : Behind store id pool pool') :
    Sound store lib id records first pool' ∧ ∀ p, (pool.state.look p).isSome → (pool'.state.look p).isSome := by
  refine hr.inv (I := fun q => Sound store lib id records first q ∧
    ∀ p, (pool.state.look p).isSome → (q.state.look p).isSome) ⟨h, fun _ hp => hp⟩ fun q a t hq _ hs => ?_
  obtain ⟨hsound, hkept⟩ := hq.1.step hs
  exact ⟨hsound, fun p hp => hkept p (hq.2 p hp)⟩

/-- What the watcher sees: the state at some time behind, with a whole record if it is read. -/
theorem seen (h : Sound store lib id records first pool) {op : Fs.Op} {ans : Fs.Ans op} (hop : Looks op)
    (hs : Pool.seen performed (WholeRead store id) .watcher pool op ans pool') :
    ∃ mid, Behind store id pool mid ∧ Behind store id mid pool' ∧ pool'.state = mid.state ∧
      Fs.world false mid.state op ans mid.state ∧
      (op = .read (store.recordPath id) → Whole store lib id records first mid.state) := by
  obtain ⟨mid, k, c, s, hothers, hrest, hC, hans, rfl⟩ := hs
  have hw := world_of_performed hans
  obtain rfl := state_of_looks hop hw
  have hstep : mid.step performed (.watcher, c) = some ⟨update mid.rest .watcher (k ans), mid.state⟩ := by
    simp only [Pool.step, hrest, hans, Option.map_some]
  have hsound := (h.behind hothers.reach).1
  refine ⟨mid, hothers.reach, (Lts.Reach.refl mid).tail hC hstep, rfl, hw, fun hread => hsound.whole ?_⟩
  refine hC rfl ?_
  subst hread
  rw [hrest]
  exact decide_eq_true rfl

end Sound

end

/-! ## The listing -/

/-- The value of the record at `path`. -/
def storedRecord (lib : RecordJson) (s : Fs) (path : UnixPath) : Except WireSurgeError Json := do
  let input ← (textAt s path).mapError ofIo
  parseStoredJson lib input

/-- The entry is the record of a runner. -/
def isRecord (store : WorkspaceStore) (name : Name) : Bool :=
  extension (join store.runnersDir name) = some (ofText "json")

/-- The names of the other records. -/
def otherNames (store : WorkspaceStore) (id : String) (s : Fs) : List Name :=
  (s.entries store.runnersDir).filter fun name => isRecord store name ∧ name ≠ recordName id

/-- What can be read: the record of the run, if it is whole, and those of the others. -/
structure Readable (store : WorkspaceStore) (lib : RecordJson) (id : String) (records : List RunnerStats) (first : Fs) :
    Prop where
  before : first.look (store.recordPath id) = none ∨ ∃ value, storedRecord lib first (store.recordPath id) = .ok value
  written : ∀ stats ∈ records, ∃ text value, lib.toJson stats = .ok text ∧ lib.fromStr text = .ok value
  others : ∀ name ∈ otherNames store id first, ∃ value, storedRecord lib first (join store.runnersDir name) = .ok value

/-- The value has been the whole record at some time. -/
def Shown (store : WorkspaceStore) (lib : RecordJson) (id : String) (records : List RunnerStats) (first : Fs)
    (begun pool : Sharing) (value : Json) : Prop :=
  ∃ mid, Behind store id begun mid ∧ Behind store id mid pool ∧ Whole store lib id records first mid.state ∧
    storedRecord lib mid.state (store.recordPath id) = .ok value

/-- An entry that the list has for a name. -/
def Listed (store : WorkspaceStore) (lib : RecordJson) (id : String) (records : List RunnerStats) (first : Fs)
    (begun pool : Sharing) (name : Name) (value : Json) : Prop :=
  name ≠ recordName id ∧ storedRecord lib first (join store.runnersDir name) = .ok value ∨
    name = recordName id ∧ Shown store lib id records first begun pool value

section

variable {store : WorkspaceStore} {lib : RecordJson} {id : String} {records : List RunnerStats} {first : Fs}
variable {begun pool pool' : Sharing} {name : Name} {value : Json}

theorem storedRecord_congr {s s' : Fs} {path : UnixPath} (h : s.look path = s'.look path) :
    storedRecord lib s path = storedRecord lib s' path := by
  simp only [storedRecord, textAt, Fs.read, h]

theorem Listed.mono (h : Listed store lib id records first begun pool name value) (hr : Behind store id pool pool') :
    Listed store lib id records first begun pool' name value :=
  h.imp_right fun ⟨hname, mid, hbegun, hmid, hwhole⟩ => ⟨hname, mid, hbegun, hmid.trans hr, hwhole⟩

/-- A record that is there and whole has a value. -/
theorem Whole.stored (hr : Readable store lib id records first) {s : Fs} (h : Whole store lib id records first s)
    (hs : (s.look (store.recordPath id)).isSome) : ∃ value, storedRecord lib s (store.recordPath id) = .ok value := by
  rcases h with hsame | ⟨stats, hmem, text, htext, hlook⟩
  · rcases hr.before with hnone | ⟨value, hvalue⟩
    · rw [hsame, hnone] at hs
      cases hs
    · exact ⟨value, (storedRecord_congr hsame).trans hvalue⟩
  · obtain ⟨text', value, htext', hvalue⟩ := hr.written stats hmem
    cases htext.symm.trans htext'
    refine ⟨value, ?_⟩
    rw [storedRecord, textAt_of_file hlook, String.ofList_toList]
    simp only [Except.mapError, bind, Except.bind, parseStoredJson, hvalue]

/-- One record is read. -/
theorem read_record (hp : Prepared store id first) (hr : Readable store lib id records first)
    (hs : Sound store lib id records first pool) (hb : Behind store id begun pool) (hname : separator ∉ name)
    (hrecord : isRecord store name) (hthere : (pool.state.look (join store.runnersDir name)).isSome)
    {content : Except Fs.IoError Bytes}
    (hseen : Pool.seen performed (WholeRead store id) .watcher pool (.read (join store.runnersDir name)) content
      pool') :
    Behind store id pool pool' ∧ ∃ value, (do
      let input ← (textOf content).mapError ofIo
      parseStoredJson lib input) = .ok value ∧ Listed store lib id records first begun pool' name value := by
  obtain ⟨mid, hmid, hpool', -, hw, hwhole⟩ := hs.seen (by trivial) hseen
  obtain ⟨hsound, hkept⟩ := hs.behind hmid
  obtain ⟨-, rfl⟩ := Fs.world_read hw
  refine ⟨hmid.trans hpool', ?_⟩
  by_cases hown : name = recordName id
  · subst hown
    have hw' := hwhole rfl
    obtain ⟨value, hvalue⟩ := hw'.stored hr (hkept _ hthere)
    exact ⟨value, hvalue, .inr ⟨rfl, mid, hb.trans hmid, hpool', hw', hvalue⟩⟩
  · have hsame : mid.state.look (join store.runnersDir name) = first.look (join store.runnersDir name) := by
      rw [join_runnersDir hname]
      refine hsound.around.same _ (fun h => hown ?_) UnixPath.child_ne_self
      rw [recordPath_eq hp.plain] at h
      exact UnixPath.child_injective h
    have hmem : name ∈ otherNames store id first := by
      rw [otherNames, List.mem_filter, Fs.mem_entries, ← join_runnersDir hname, ← hsame]
      exact ⟨⟨hname, hkept _ hthere⟩, by simp [hrecord, hown]⟩
    obtain ⟨value, hvalue⟩ := hr.others name hmem
    exact ⟨value, (storedRecord_congr hsame).trans hvalue, .inl ⟨hown, hvalue⟩⟩

/-- The loop over names that are there. -/
theorem safe_readRecords (hp : Prepared store id first) (hr : Readable store lib id records first) :
    ∀ (names : List Name) (entries : List Json) (pool : Sharing), Sound store lib id records first pool →
      Behind store id begun pool →
      (∀ name ∈ names, separator ∉ name ∧ (pool.state.look (join store.runnersDir name)).isSome) →
      Safe (Pool.seen performed (WholeRead store id) .watcher) (fun _ _ => True)
        (fun r last => ∃ values, r = .ok (entries ++ values) ∧ Behind store id pool last ∧
          List.Forall₂ (Listed store lib id records first begun last) (names.filter (isRecord store)) values)
        (store.readRecords lib entries names).run pool := by
  intro names
  induction names with
  | nil => exact fun entries pool hs hb _ => ⟨[], by rw [List.append_nil], Lts.Reach.refl pool, .nil⟩
  | cons name names ih =>
    intro entries pool hs hb hnames
    obtain ⟨⟨hname, hthere⟩, hrest⟩ := List.forall_mem_cons.mp hnames
    rw [WorkspaceStore.readRecords]
    by_cases hrecord : isRecord store name
    · rw [if_pos (by simpa [isRecord] using hrecord), Prog.safe_run_bind, readToString, Prog.safe_run_bind, safe_ask]
      refine ⟨trivial, fun content pool' hseen => ?_⟩
      obtain ⟨hbehind, value, hvalue, hlisted⟩ := read_record hp hr hs hb hname hrecord hthere hseen
      have hnames' : ∀ n ∈ names, separator ∉ n ∧ (pool'.state.look (join store.runnersDir n)).isSome := fun n hn =>
        ⟨(hrest n hn).1, (hs.behind hbehind).2 _ (hrest n hn).2⟩
      simp only [Prog.onOk, Prog.safe_run_pure, Prog.safe_run_bind, safe_mapErr]
      cases htext : (textOf content).mapError ofIo with
      | error error =>
        rw [htext] at hvalue
        cases hvalue
      | ok input =>
        rw [htext] at hvalue
        have hvalue : parseStoredJson lib input = .ok value := hvalue
        simp only [safe_liftExcept, hvalue]
        refine (ih (entries ++ [value]) pool' (hs.behind hbehind).1 (hb.trans hbehind) hnames').mono fun r last h => ?_
        obtain ⟨values, rfl, hlast, hall⟩ := h
        refine ⟨value :: values, by rw [List.append_assoc, List.singleton_append], hbehind.trans hlast, ?_⟩
        rw [List.filter_cons_of_pos hrecord]
        exact .cons (hlisted.mono hlast) hall
    · rw [if_neg (by simpa [isRecord] using hrecord), List.filter_cons_of_neg hrecord]
      exact ih entries pool hs hb hrest

/-- The names of the records at a time: those of the others, and that of the run if it is there. -/
theorem perm_records (hp : Prepared store id first) {s : Fs} (ha : Around store id first s) {names : List Name}
    (hperm : names.Perm (s.entries store.runnersDir)) : (names.filter (isRecord store)).Perm
      (if (s.look (store.recordPath id)).isSome then recordName id :: otherNames store id first
        else otherNames store id first) := by
  have hmem (n : Name) : n ∈ names.filter (isRecord store) ↔
      separator ∉ n ∧ (s.look (child store.runnersDir n)).isSome ∧ isRecord store n := by
    rw [List.mem_filter, hperm.mem_iff, Fs.mem_entries, and_assoc]
  have hother (n : Name) : n ∈ otherNames store id first ↔
      separator ∉ n ∧ (s.look (child store.runnersDir n)).isSome ∧ isRecord store n ∧ n ≠ recordName id := by
    simp only [otherNames, List.mem_filter, Fs.mem_entries, decide_eq_true_eq, and_assoc]
    by_cases hn : n = recordName id
    · simp [hn]
    · rw [ha.same (child store.runnersDir n) (fun h => hn ?_) UnixPath.child_ne_self]
      rw [recordPath_eq hp.plain] at h
      exact UnixPath.child_injective h
  have hnodup : (otherNames store id first).Nodup := (Fs.nodup_entries _ _).filter _
  have hrecord : isRecord store (recordName id) := decide_eq_true (extension_recordName hp.plain)
  have hnodup' : (names.filter (isRecord store)).Nodup := (hperm.nodup_iff.mpr (Fs.nodup_entries _ _)).filter _
  rw [recordPath_eq hp.plain]
  split
  · rename_i hthere
    refine (List.perm_ext_iff_of_nodup hnodup' (List.nodup_cons.mpr ⟨fun h => ((hother _).mp h).2.2.2 rfl, hnodup⟩)).mpr
      fun n => ?_
    rw [List.mem_cons, hmem, hother]
    by_cases hn : n = recordName id
    · subst hn
      simp [hp.plain.recordName, hthere, hrecord]
    · simp [hn]
  · rename_i hthere
    refine (List.perm_ext_iff_of_nodup hnodup' hnodup).mpr fun n => ?_
    rw [hmem, hother]
    by_cases hn : n = recordName id
    · subst hn
      simp [hthere]
    · simp [hn]

/-- What the list is to be: the records of the others as they are, and a whole one of the
run, or none if there was none. -/
def IsListing (store : WorkspaceStore) (lib : RecordJson) (id : String) (records : List RunnerStats) (first : Fs)
    (begun pool : Sharing) (r : Except WireSurgeError String) : Prop :=
  ∃ (entries others : List Json) (shown : Option Json),
    r = .ok (lib.toString (.array (WorkspaceStore.sortEntries lib entries))) ∧
    entries.Perm (shown.toList ++ others) ∧
    (otherNames store id first).map (fun name => storedRecord lib first (join store.runnersDir name)) = others.map .ok ∧
    (shown = none → begun.state.look (store.recordPath id) = none) ∧
    ∀ value ∈ shown, Shown store lib id records first begun pool value

theorem map_stored_others {others : List Json}
    (h : List.Forall₂ (Listed store lib id records first begun pool) (otherNames store id first) others) :
    (otherNames store id first).map (fun name => storedRecord lib first (join store.runnersDir name)) =
      others.map .ok := by
  have hne : ∀ name ∈ otherNames store id first, name ≠ recordName id := fun name hname => by
    have := (List.mem_filter.mp hname).2
    simp only [decide_eq_true_eq] at this
    exact this.2
  rw [← List.forall₂_eq_eq_eq, List.forall₂_map_left_iff, List.forall₂_map_right_iff]
  refine ((List.forall₂_and_left (otherNames store id first) others).mpr ⟨hne, h⟩).imp fun name value hlisted => ?_
  rcases hlisted with ⟨hother, ⟨-, hstored⟩ | ⟨hname, -⟩⟩
  · exact hstored
  · exact absurd hname hother

/-- The list that the loop comes to. -/
theorem isListing (hp : Prepared store id first) {s : Fs} (ha : Around store id first s) {names : List Name}
    (hperm : names.Perm (s.entries store.runnersDir)) {values : List Json}
    (hbegun : (begun.state.look (store.recordPath id)).isSome → (s.look (store.recordPath id)).isSome)
    (h : List.Forall₂ (Listed store lib id records first begun pool) (names.filter (isRecord store)) values) :
    IsListing store lib id records first begun pool
      (.ok (lib.toString (.array (WorkspaceStore.sortEntries lib values)))) := by
  obtain ⟨sorted, hall, hsorted⟩ := List.perm_comp_forall₂ (perm_records hp ha hperm).symm h
  split at hall
  · rename_i hthere
    cases hall with
    | @cons _ value _ others hvalue hothers =>
      refine ⟨values, others, some value, rfl, hsorted.symm, map_stored_others hothers, nofun, fun v hv => ?_⟩
      cases hv
      rcases hvalue with ⟨hne, -⟩ | ⟨-, hshown⟩
      · exact absurd rfl hne
      · exact hshown
  · rename_i hthere
    refine ⟨values, sorted, none, rfl, hsorted.symm, map_stored_others hall, fun _ => ?_, nofun⟩
    by_contra hne
    exact hthere (hbegun (Option.isSome_iff_ne_none.mpr hne))

/-- The listing, of a directory that is there. -/
theorem safe_listRecords (hp : Prepared store id first) (hr : Readable store lib id records first)
    (hs : Sound store lib id records first begun) (hb : Behind store id begun pool)
    (hthere : (pool.state.look store.runnersDir).isSome) :
    Safe (Pool.seen performed (WholeRead store id) .watcher) (fun _ _ => True)
      (fun r last => Behind store id begun last ∧ IsListing store lib id records first begun last r)
      (ExceptT.run do
        let names ← mapErr ofIo (← ask (.readDir store.runnersDir))
        let entries ← store.readRecords lib [] names
        return lib.toString (.array (WorkspaceStore.sortEntries lib entries))) pool := by
  rw [Prog.safe_run_bind]
  refine safe_ask.mpr ⟨trivial, fun ans pool' hseen => ?_⟩
  obtain ⟨mid, hmid, hpool', hstate, hw, -⟩ := (hs.behind hb).1.seen (by trivial) hseen
  obtain ⟨hsmid, hkept⟩ := hs.behind (hb.trans hmid)
  have hb' : Behind store id begun pool' := (hb.trans hmid).trans hpool'
  obtain ⟨-, names, hperm, rfl⟩ := Fs.world_readDir hw
  have hdir : mid.state.look store.runnersDir = some .dir := by
    rcases hsmid.around.place with hdir | ⟨hnone, -⟩
    · exact hdir
    · have hthere' := ((hs.behind hb).1.behind hmid).2 _ hthere
      rw [hnone] at hthere'
      cases hthere'
  have hread : mid.state.readDir store.runnersDir names = .ok names := by rw [Fs.readDir, hdir]
  have hnames : ∀ name ∈ names, separator ∉ name ∧ (pool'.state.look (join store.runnersDir name)).isSome := by
    intro name hname
    obtain ⟨hplain, hthere⟩ := Fs.mem_entries.mp (hperm.mem_iff.mp hname)
    rw [join_runnersDir hplain, hstate]
    exact ⟨hplain, hthere⟩
  simp only [Prog.onOk, Prog.safe_run_bind, safe_mapErr, hread, Except.mapError]
  refine (safe_readRecords hp hr names [] pool' (hs.behind hb').1 hb' hnames).mono fun r last h => ?_
  obtain ⟨values, rfl, hlast, hall⟩ := h
  exact ⟨hb'.trans hlast, isListing hp hsmid.around hperm (hkept _) hall⟩

/-- The listing, where there is no directory for records. -/
theorem isListing_nil (hp : Prepared store id first) (hs : Sound store lib id records first begun)
    (hfirst : ∀ p, (first.look p).isSome → (begun.state.look p).isSome) (hb : Behind store id begun pool)
    (hnone : pool.state.look store.runnersDir = none) :
    IsListing store lib id records first begun pool'
      (.ok (lib.toString (.array (WorkspaceStore.sortEntries lib [])))) := by
  obtain ⟨hsound, hkept⟩ := hs.behind hb
  have hempty : first.entries store.runnersDir = [] := by
    rcases hp.place with hdir | ⟨-, hempty⟩
    · have hthere := hkept _ (hfirst store.runnersDir (by rw [hdir]; rfl))
      rw [hnone] at hthere
      cases hthere
    · exact hempty
  have habsent : pool.state.look (store.recordPath id) = none := by
    rcases hsound.around.place with hdir | ⟨-, habsent⟩
    · rw [hnone] at hdir
      cases hdir
    · exact habsent
  refine ⟨[], [], none, rfl, .nil, by rw [otherNames, hempty]; rfl, fun _ => ?_, nofun⟩
  by_contra hne
  have hthere := hkept _ (Option.isSome_iff_ne_none.mpr hne)
  rw [habsent] at hthere
  cases hthere

theorem safe_runnerEntriesJson (hp : Prepared store id first) (hr : Readable store lib id records first)
    (hs : Sound store lib id records first begun) (hfirst : ∀ p, (first.look p).isSome → (begun.state.look p).isSome) :
    Safe (Pool.seen performed (WholeRead store id) .watcher) (fun _ _ => True)
      (fun r last => Behind store id begun last ∧ IsListing store lib id records first begun last r)
      (store.runnerEntriesJson lib).run begun := by
  rw [WorkspaceStore.runnerEntriesJson, Prog.safe_run_bind, WorkspaceStore.ensureWorkspace, Prog.safe_run_bind]
  refine safe_ask.mpr ⟨trivial, fun ans pool₁ hseen => ?_⟩
  obtain ⟨mid, hmid, hpool, -, hw, -⟩ := hs.seen (by trivial) hseen
  have htrue : ans = true := by
    rw [(Fs.world_exists hw).2.2 rfl]
    exact (hs.behind hmid).1.around.workspace hp
  have hb : Behind store id begun pool₁ := hmid.trans hpool
  simp only [htrue, Prog.onOk, if_true, Prog.safe_run_pure, Prog.safe_run_bind]
  refine safe_ask.mpr ⟨trivial, fun ans pool₂ hseen => ?_⟩
  obtain ⟨mid, hmid, hpool, hstate, hw, -⟩ := (hs.behind hb).1.seen (by trivial) hseen
  have hans : ans = (mid.state.look store.runnersDir).isSome := (Fs.world_exists hw).2.2 rfl
  have hb' : Behind store id begun pool₂ := (hb.trans hmid).trans hpool
  cases ans with
  | false =>
    have hnone : mid.state.look store.runnersDir = none := by
      rw [← Option.not_isSome_iff_eq_none, ← hans]
      exact Bool.false_ne_true
    exact ⟨hb', isListing_nil hp hs hfirst (hb.trans hmid) hnone⟩
  | true => exact safe_listRecords hp hr hs hb' (by rw [hstate, ← hans])

/-- In every run in which the watcher does not read the run's record while a write of
it is unfinished, a listing that has come to its end is a listing of all records, those
of the others as they are, and of the run one that has been whole, between the
beginning of the listing and its end; or none, if there was none when it began. -/
theorem listing_of_wholeRead (hids : ∀ stats ∈ records, stats.id = id) (hp : Prepared store id first)
    (hr : Readable store lib id records first) (hb : Behind store id (sharing store lib records first) begun)
    (hbegun : begun.rest .watcher = (store.runnerEntriesJson lib).run) (h : Behind store id begun pool)
    {r : Except WireSurgeError String} (hdone : pool.rest .watcher = .done r) :
    IsListing store lib id records first begun pool r := by
  obtain ⟨hs, hfirst⟩ := (sound_sharing hp hids).behind hb
  have hsafe := safe_runnerEntriesJson hp hr hs hfirst
  rw [← hbegun] at hsafe
  obtain ⟨last, ⟨-, entries, others, shown, hresult, hperm, hothers, hnone, hshown⟩, hlast⟩ :=
    Pool.done_of_safe hsafe h hdone
  refine ⟨entries, others, shown, hresult, hperm, hothers, hnone, fun value hvalue => ?_⟩
  obtain ⟨mid, hmid, hmid', hwhole⟩ := hshown value hvalue
  exact ⟨mid, hmid, hmid'.trans hlast.reach, hwhole⟩

end

/-! ## A run with one record -/

/-- The record of a runner at its start. -/
def activeRecord : RunnerStats :=
  { RunnerStats.localRunner ⟨7, "0.1.0"⟩ 1 (some "run-1") 1 with workers := [] }

/-- What is written of it. -/
def activeText : String :=
  "\x7b\"id\":\"local-7\",\"name\":\"local-cli\",\"source\":\"cli\",\"status\":\"active\",\"pid\":7," ++
    "\"version\":\"0.1.0\",\"started_at\":1,\"last_heartbeat\":1,\"active_run_id\":\"run-1\",\"workers\":[]," ++
    "\"qps\":0.0,\"rps\":0.0,\"p50_ms\":0.0,\"p95_ms\":0.0,\"p99_ms\":0.0,\"error_rate\":0.0," ++
    "\"timeout_rate\":0.0,\"open_connections\":0,\"cpu_pct\":0.0,\"memory_bytes\":0\x7d"

/-- Its value, with the fields sorted by their names, and how that is written. -/
def activeValue : Json :=
  let zero (name : String) : String × Json := (name, .number (.float 0))
  let count (name : String) (n : UInt64) : String × Json := (name, .number (.posInt n))
  .object [("active_run_id", .string "run-1"), zero "cpu_pct", zero "error_rate", ("id", .string "local-7"),
    count "last_heartbeat" 1, count "memory_bytes" 0, ("name", .string "local-cli"), count "open_connections" 0,
    zero "p50_ms", zero "p95_ms", zero "p99_ms", count "pid" 7, zero "qps", zero "rps", ("source", .string "cli"),
    count "started_at" 1, ("status", .string "active"), zero "timeout_rate", ("version", .string "0.1.0"),
    ("workers", .array [])]

/-- Its text, the keys in their order. -/
def activeSorted : String :=
  "\x7b\"active_run_id\":\"run-1\",\"cpu_pct\":0.0,\"error_rate\":0.0,\"id\":\"local-7\",\"last_heartbeat\":1," ++
    "\"memory_bytes\":0,\"name\":\"local-cli\",\"open_connections\":0,\"p50_ms\":0.0,\"p95_ms\":0.0," ++
    "\"p99_ms\":0.0,\"pid\":7,\"qps\":0.0,\"rps\":0.0,\"source\":\"cli\",\"started_at\":1," ++
    "\"status\":\"active\",\"timeout_rate\":0.0,\"version\":\"0.1.0\",\"workers\":[]\x7d"

/-- The library on this record, and on the empty text. -/
def sampleJson : RecordJson where
  ofStats _ := .ok activeText
  fromStr text :=
    if text = activeText then .ok activeValue else .error ⟨"EOF while parsing a value at line 1 column 0", 1, 0⟩
  toString
    | .array [] => "[]"
    | .array _ => "[" ++ activeSorted ++ "]"
    | _ => activeSorted

/-- The run that writes it, with nothing written yet. -/
def oneRecord : Sharing := sharing sampleStore sampleJson [activeRecord] sampleStore.fresh

theorem prepared_fresh : Prepared sampleStore "local-7" sampleStore.fresh where
  plain := ⟨by decide, by decide⟩
  workspace := by decide +kernel
  metadata := by decide +kernel
  place := .inr ⟨by decide +kernel, by decide +kernel⟩

theorem readable_fresh : Readable sampleStore sampleJson "local-7" [activeRecord] sampleStore.fresh where
  before := .inl (by decide +kernel)
  written _ _ := ⟨activeText, activeValue, rfl, by simp only [sampleJson, if_true]⟩
  others name hname := by
    have hnone : otherNames sampleStore "local-7" sampleStore.fresh = [] := by decide +kernel
    rw [hnone] at hname
    cases hname

/-- The run writes its record, and then the listing comes to its end. -/
theorem listing_of_wholeRead_one : ∃ begun pool r, Behind sampleStore "local-7" oneRecord begun ∧
    (begun.rest .run).next = none ∧ Behind sampleStore "local-7" begun pool ∧ pool.rest .watcher = .done r ∧
    IsListing sampleStore sampleJson "local-7" [activeRecord] sampleStore.fresh begun pool r := by
  have hw (s : Fs) (op : Fs.Op) : ∃ c ans s', performed s op c = some (ans, s') := ⟨.plain, _, _, rfl⟩
  have hstart : oneRecord.rest .watcher = (sampleStore.runnerEntriesJson sampleJson).run := rfl
  obtain ⟨begun, result, hbegun, hwatcher, hrun⟩ := Pool.finishes (C := WholeRead sampleStore "local-7") (i := .run)
    (P := fun pool => pool.rest .watcher = (sampleStore.runnerEntriesJson sampleJson).run) hw (fun _ _ _ h => h)
    (fun _ _ _ => nofun) hstart
  obtain ⟨pool, r, hpool, -, hdone⟩ := Pool.finishes (C := WholeRead sampleStore "local-7") (i := .watcher)
    (P := fun pool => pool.rest .run = .done result) hw (fun _ _ _ h => h)
    (fun _ _ h _ _ => by rw [h]; exact Bool.false_ne_true) hrun
  refine ⟨begun, pool, r, hbegun, by rw [hrun]; rfl, hpool, hdone, ?_⟩
  exact listing_of_wholeRead (by decide +kernel) prepared_fresh readable_fresh hbegun hwatcher hpool hdone

/-- The list has failed with the error `code`. -/
def failedWith (code : String) : Listing → Bool
  | .done (.error error) => error.code = code
  | _ => false

/-- A listing that reads the record between its opening and its writing. -/
theorem listing_torn : ¬ ∀ (store : WorkspaceStore) (lib : RecordJson) (id : String) (records : List RunnerStats)
    (first : Fs), (∀ stats ∈ records, stats.id = id) → Prepared store id first → Readable store lib id records first →
    ∀ pool, Lts.Reach (Pool.step performed) Lts.Any (sharing store lib records first) pool →
      ∀ r, pool.rest .watcher = .done r → ∃ text, r = .ok text := by
  intro h
  have hrun : ∃ pool ∈ Lts.run (Pool.step performed) oneRecord
      ([.run, .run, .run, .watcher, .watcher, .watcher, .watcher].map fun party => (party, .plain)),
      failedWith "invalid_stored_json" (pool.rest .watcher) := by
    decide +kernel
  obtain ⟨pool, hpool, hfailed⟩ := hrun
  cases hrest : pool.rest .watcher with
  | ask op k =>
    rw [hrest] at hfailed
    cases hfailed
  | done r =>
    obtain ⟨text, rfl⟩ := h sampleStore sampleJson "local-7" [activeRecord] sampleStore.fresh (by decide +kernel)
      prepared_fresh readable_fresh pool (.of_run hpool) r hrest
    rw [hrest] at hfailed
    cases hfailed

end WireSurge.Storage
