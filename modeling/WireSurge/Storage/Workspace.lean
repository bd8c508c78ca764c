import WireSurge.Storage.Shelves

/-!
# A workspace is three maps

The calls on a workspace (`WorkspaceCall`) against the same calls on maps from ids to
requests, to the texts of records and to those of reports (`WorkspaceCall.onShelves`). A
report is also written to a directory of its own, anywhere outside the workspace
(`Separate`). A call on a workspace that shows some maps (`Shelved`) answers as the call
on the maps does, and the workspace shows the maps after it (`safe_workspaceCall`); so do
any calls, and they change nothing but the workspace and the report directories
(`calls_refine`).

Paths are compared as bytes, in a file system without links: that two paths lead to one
place is left out.
-/

namespace WireSurge.Storage

open WireSurge.Core (BTreeMap Json RequestSpec WireSurgeError validateId)
open Fs (Bytes DirsMade Makeable)
open Function (update)
open Metrics (ReportSummary RunnerStats)
open Prog (Runs Safe)
open UnixPath (IsText Name child join ofText parent separator)

/-! ## On maps -/

/-- What a workspace is to those who call it: three maps from ids. -/
structure Shelves where
  requests : BTreeMap RequestSpec
  runners : BTreeMap String
  reports : BTreeMap String

/-- A call of the store. -/
inductive WorkspaceCall
  | init
  | request (call : StoreCall)
  | snapshot (stats : RunnerStats)
  | runners
  | report (dir canonical : UnixPath) (summary : ReportSummary) (details : String)
  | reports
  | loadReport (id : String)

/-- What a call returns. -/
inductive Reply
  | request (answer : Answer)
  | done (r : Except WireSurgeError Unit)
  | text (r : Except WireSurgeError String)
  deriving DecidableEq

section

variable (lib : ReportJson) (shelves : Shelves)

/-- A text that could be made is put somewhere. -/
def stocked (text : Except WireSurgeError String) (put : String → Shelves) : Reply × Shelves :=
  match text with
  | .ok text => (.done (.ok ()), put text)
  | .error error => (.done (.error error), shelves)

/-- What a call returns, and the maps after it. -/
def WorkspaceCall.onShelves : WorkspaceCall → Reply × Shelves
  | init => (.done (.ok ()), shelves)
  | request call =>
    (.request (call.onMap shelves.requests).1, { shelves with requests := (call.onMap shelves.requests).2 })
  | snapshot stats => stocked shelves (lib.toJson stats) fun text =>
      { shelves with runners := shelves.runners.insert stats.id text }
  | runners => (.text (lib.listing shelves.runners), shelves)
  | report _ _ summary _ => stocked shelves (lib.summaryJson summary) fun text =>
      { shelves with reports := shelves.reports.insert summary.id text }
  | reports => (.text (lib.listing shelves.reports), shelves)
  | loadReport id => (.text (do validateId id; Core.okOr shelves.reports[id]? (reportNotFound id)), shelves)

/-- What calls reply one after the other, and what the maps are then. -/
def callsOnShelves : List WorkspaceCall → Shelves → List Reply × Shelves
  | [], shelves => ([], shelves)
  | call :: calls, shelves =>
    let next := callsOnShelves calls (call.onShelves lib shelves).2
    ((call.onShelves lib shelves).1 :: next.1, next.2)

end

/-! ## On a file system -/

section

variable (store : WorkspaceStore) (yaml : Yaml) (lib : ReportJson)

/-- The call on the store. -/
def WorkspaceCall.run : WorkspaceCall → Prog Fs.Op Fs.Ans Reply
  | init => Reply.done <$> store.init.run
  | request call => Reply.request <$> call.run store yaml
  | snapshot stats => Reply.done <$> (store.writeRunnerSnapshot lib.toRecordJson stats).run
  | runners => Reply.text <$> (store.runnerEntriesJson lib.toRecordJson).run
  | report dir canonical summary details => Reply.done <$> (store.writeReport lib dir canonical summary details).run
  | reports => Reply.text <$> (store.reportEntriesJson lib).run
  | loadReport id => Reply.text <$> (store.loadReportSummary id).run

/-- Calls, one after the other. -/
def workspaceCalls : List WorkspaceCall → Prog Fs.Op Fs.Ans (List Reply)
  | [] => pure []
  | call :: calls => do
    let reply ← call.run store yaml lib
    return reply :: (← workspaceCalls calls)

/-- Below the metadata directory. -/
def Within (p : UnixPath) : Prop := store.metadataDir ++ [separator] <+: p

/-- The files of a report. -/
def reportNames : List Name := [ofText "summary.json", ofText "details.json", ofText "index.html"]

/-- Directories for reports: they are outside the workspace, and none of their files is
on the way to one of them. -/
structure Separate (dirs : List UnixPath) : Prop where
  ne_nil {d : UnixPath} : d ∈ dirs → d ≠ []
  plain {d : UnixPath} : d ∈ dirs → d.getLast? ≠ some separator
  outside {d : UnixPath} : d ∈ dirs → d ≠ store.metadataDir ∧ ¬Within store d
  apart {d d' : UnixPath} {name : Name} : d ∈ dirs → d' ∈ dirs → name ∈ reportNames → ¬child d name <+: d'

/-- The ids are file names, as those that runs make are (`plainId_localRunner`,
`plainId_generateId`), and reports go to the directories for them. -/
def WorkspaceCall.Obtained (dirs : List UnixPath) : WorkspaceCall → Prop
  | request call => call.Obtained
  | snapshot stats => PlainId stats.id
  | report dir _ summary _ => dir ∈ dirs ∧ PlainId summary.id
  | init | runners | reports | loadReport _ => True

/-- There are the directories, or there is a place for them, and for the files. -/
def Places (dirs : List UnixPath) (s : Fs) : Prop :=
  ∀ d ∈ dirs, Makeable s d ∧ ∀ name ∈ reportNames, s.look (child d name) ≠ some .dir

/-- The workspace shows the maps. -/
structure Shelved (shelves : Shelves) (s : Fs) : Prop where
  complete : Complete store s
  requests : Represents store yaml shelves.requests s
  runners : Shelf store.runnersDir shelves.runners (fun _ => False) s
  reports : Shelf store.reportsDir shelves.reports IsPathName s
  runnersRead : Readables lib shelves.runners
  reportsRead : Readables lib shelves.reports

/-- Nothing has changed outside the workspace and the report directories. -/
def Untouched (dirs : List UnixPath) (s s' : Fs) : Prop :=
  ∀ q, ¬Within store q → (∀ d ∈ dirs, ¬q <+: d ∧ ∀ name ∈ reportNames, q ≠ child d name) → s'.look q = s.look q

/-- Where calls stand. -/
structure Standing (dirs : List UnixPath) (shelves : Shelves) (first s : Fs) : Prop where
  shelved : Shelved store yaml lib shelves s
  places : Places dirs s
  untouched : Untouched store dirs first s

end

/-! ## What stays as it is -/

section

variable {store : WorkspaceStore} {yaml : Yaml} {lib : ReportJson} {shelves : Shelves} {dirs : List UnixPath}
variable {first s s' : Fs} {d d' q : UnixPath} {name : Name} {id text : String}

theorem reportsDir_eq : store.reportsDir = child store.metadataDir (ofText "reports") :=
  store.join_metadataDir (by decide)

theorem join_reportsDir (h : separator ∉ name) : join store.reportsDir name = child store.reportsDir name :=
  UnixPath.join_eq_child (UnixPath.join_ne_nil _ (by decide))
    (by rw [WorkspaceStore.reportsDir, UnixPath.getLast?_join _ (by decide)]; decide) h

theorem within_child (name : Name) : Within store (child store.metadataDir name) := ⟨name, by simp [child]⟩

theorem Within.mono (h : Within store q) (hq : q <+: d) : Within store d := h.trans hq

theorem within_directory (hd : d ∈ store.directories) : Within store d := by
  obtain ⟨name, -, rfl⟩ := mem_directories hd
  exact within_child name

theorem within_entry (hd : d ∈ store.directories) (name : Name) : Within store (child d name) :=
  (within_directory hd).mono (List.prefix_append _ _)

theorem within_workspaceFile : Within store store.workspaceFile := by
  rw [WorkspaceStore.workspaceFile_eq]
  exact within_child _

/-- An entry of a directory is in the workspace with it, but for the workspace itself. -/
theorem of_within_child (hname : separator ∉ name) (h : Within store (child d name)) :
    d = store.metadataDir ∨ Within store d := by
  obtain ⟨rest, hrest⟩ := h
  rw [List.append_assoc, child] at hrest
  rcases List.append_eq_append_iff.mp hrest with ⟨t, hd, ht⟩ | ⟨t, hm, ht⟩
  · cases t with
    | nil => exact .inl (by rw [hd, List.append_nil])
    | cons c t =>
      obtain ⟨rfl, -⟩ := List.cons_eq_cons.mp ht
      exact .inr ⟨t, by rw [hd, List.append_assoc]; rfl⟩
  · cases t with
    | nil => exact .inl (by rw [hm, List.append_nil])
    | cons c t =>
      obtain ⟨-, hname'⟩ := List.cons_eq_cons.mp ht
      exact absurd (hname' ▸ List.mem_append_right t List.mem_cons_self) hname

theorem reportNames_plain (hname : name ∈ reportNames) : separator ∉ name := by
  have hplain : ∀ name ∈ reportNames, separator ∉ name := by decide
  exact hplain name hname

namespace Separate

variable (h : Separate store dirs)

include h in
theorem above (hd : d ∈ dirs) (hq : q <+: d) : ¬Within store q := fun hw => (h.outside hd).2 (hw.mono hq)

include h in
theorem file (hd : d ∈ dirs) (hname : name ∈ reportNames) : ¬Within store (child d name) := fun hw =>
  (of_within_child (reportNames_plain hname) hw).elim (h.outside hd).1 (h.outside hd).2

include h in
theorem join (hd : d ∈ dirs) (hname : name ∈ reportNames) : join d name = child d name :=
  UnixPath.join_eq_child (h.ne_nil hd) (h.plain hd) (reportNames_plain hname)

end Separate

namespace Places

/-- What happens in the workspace leaves the places. -/
theorem inside (h : Places dirs s) (hsep : Separate store dirs) (hs : ∀ q, ¬Within store q → s'.look q = s.look q) :
    Places dirs s' := by
  intro d hd
  obtain ⟨hmake, hfiles⟩ := h d hd
  refine ⟨hmake.later fun q hq => .inl (hs q (hsep.above hd hq)), fun name hname => ?_⟩
  rw [hs _ (hsep.file hd hname)]
  exact hfiles name hname

/-- The directories on the way to one are made. -/
theorem made (h : Places dirs s) (hsep : Separate store dirs) (hd : d ∈ dirs) (hs : DirsMade d s s') :
    Places dirs s' := by
  intro d' hd'
  obtain ⟨hmake, hfiles⟩ := h d' hd'
  refine ⟨hmake.later fun q _ => (hs q).imp_right And.right, fun name hname => ?_⟩
  rcases hs (child d' name) with hsame | ⟨hpath, -⟩
  · rw [hsame]
    exact hfiles name hname
  · exact absurd hpath (hsep.apart hd' hd hname)

/-- A file of a report is written. -/
theorem file (h : Places dirs s) (hsep : Separate store dirs) (hd : d ∈ dirs) (hname : name ∈ reportNames)
    {content : Bytes} (hlook : s'.look = update s.look (child d name) (some (.file content))) : Places dirs s' := by
  intro d' hd'
  obtain ⟨hmake, hfiles⟩ := h d' hd'
  refine ⟨hmake.later fun q hq => .inl ?_, fun name' hname' => ?_⟩
  · rw [hlook, Function.update_of_ne]
    rintro rfl
    exact hsep.apart hd hd' hname hq
  · rw [hlook, Function.update_apply]
    split
    · exact nofun
    · exact hfiles name' hname'

end Places

theorem Represents.frame {m : BTreeMap RequestSpec} (h : Represents store yaml m s)
    (hfile : s'.look store.workspaceFile = s.look store.workspaceFile)
    (hplace : s'.look store.requestsDir = s.look store.requestsDir) (hsame : SameIn store.requestsDir s s') :
    Represents store yaml m s' where
  workspace := hfile ▸ h.workspace
  place := hplace.trans h.place
  normal := h.normal
  file {id r} hid := by
    have hv := h.valid hid
    rw [requestPath_eq hv, hsame _ (noSeparator_of_valid hv), ← requestPath_eq hv]
    exact h.file hid
  only hname hs := h.only hname (by rwa [← hsame _ hname])

/-- Nothing has changed in the workspace but entries of `d`. -/
structure Beside (store : WorkspaceStore) (d : UnixPath) (s s' : Fs) : Prop where
  directories : ∀ d' ∈ store.directories, s'.look d' = s.look d'
  file : s'.look store.workspaceFile = s.look store.workspaceFile
  entries : ∀ d' ∈ store.directories, d' ≠ d → SameIn d' s s'

theorem Beside.of_update {entry : Option Fs.Entry} (hd : d ∈ store.directories) (hname : separator ∉ name)
    (hlook : s'.look = update s.look (child d name) entry) : Beside store d s s' where
  directories d' hd' := by rw [hlook, Function.update_of_ne ((entry_ne hd hname).1 d' hd').symm]
  file := by rw [hlook, Function.update_of_ne (entry_ne hd hname).2.symm]
  entries _ _ hne := .of_update hne.symm hname hlook

theorem Beside.complete (hs : Beside store d s s') (h : Complete store s) : Complete store s' where
  directories d' hd' := (hs.directories d' hd').trans (h.directories d' hd')
  workspace := hs.file ▸ h.workspace

theorem requestsDir_mem : store.requestsDir ∈ store.directories := List.mem_cons_self

theorem reportsDir_mem : store.reportsDir ∈ store.directories := List.mem_cons_of_mem _ List.mem_cons_self

theorem runnersDir_mem : store.runnersDir ∈ store.directories :=
  List.mem_cons_of_mem _ (List.mem_cons_of_mem _ List.mem_cons_self)

theorem requestsDir_ne_runnersDir : store.requestsDir ≠ store.runnersDir := by
  rw [WorkspaceStore.requestsDir_eq, runnersDir_eq]
  exact fun h => absurd (UnixPath.child_injective h) (by decide)

theorem requestsDir_ne_reportsDir : store.requestsDir ≠ store.reportsDir := by
  rw [WorkspaceStore.requestsDir_eq, reportsDir_eq]
  exact fun h => absurd (UnixPath.child_injective h) (by decide)

theorem runnersDir_ne_reportsDir : store.runnersDir ≠ store.reportsDir := by
  rw [runnersDir_eq, reportsDir_eq]
  exact fun h => absurd (UnixPath.child_injective h) (by decide)

namespace Shelved

theorem ensured (h : Shelved store yaml lib shelves s) : ensured store s = .ok () := if_pos h.complete.workspace

/-- What happens outside the workspace leaves the maps. -/
theorem elsewhere (h : Shelved store yaml lib shelves s) (hs : ∀ q, Within store q → s'.look q = s.look q) :
    Shelved store yaml lib shelves s' := by
  have hdir {d : UnixPath} (hd : d ∈ store.directories) : s'.look d = s.look d := hs d (within_directory hd)
  have hentries {d : UnixPath} (hd : d ∈ store.directories) : SameIn d s s' := fun name _ => hs _ (within_entry hd name)
  exact {
    complete := {
      directories := fun d hd => (hdir hd).trans (h.complete.directories d hd)
      workspace := hs _ within_workspaceFile ▸ h.complete.workspace }
    requests := h.requests.frame (hs _ within_workspaceFile) (hdir requestsDir_mem) (hentries requestsDir_mem)
    runners := h.runners.frame (hdir runnersDir_mem) (hentries runnersDir_mem)
    reports := h.reports.frame (hdir reportsDir_mem) (hentries reportsDir_mem)
    runnersRead := h.runnersRead
    reportsRead := h.reportsRead }

/-- The requests are others. -/
theorem withRequests (h : Shelved store yaml lib shelves s) {m : BTreeMap RequestSpec}
    (hs : Beside store store.requestsDir s s') (hm : Represents store yaml m s') :
    Shelved store yaml lib { shelves with requests := m } s' where
  complete := hs.complete h.complete
  requests := hm
  runners := h.runners.frame (hs.directories _ runnersDir_mem)
    (hs.entries _ runnersDir_mem requestsDir_ne_runnersDir.symm)
  reports := h.reports.frame (hs.directories _ reportsDir_mem)
    (hs.entries _ reportsDir_mem requestsDir_ne_reportsDir.symm)
  runnersRead := h.runnersRead
  reportsRead := h.reportsRead

/-- The records are others. -/
theorem withRunners (h : Shelved store yaml lib shelves s) {texts : BTreeMap String}
    (hs : Beside store store.runnersDir s s') (ht : Shelf store.runnersDir texts (fun _ => False) s')
    (hread : Readables lib texts) : Shelved store yaml lib { shelves with runners := texts } s' where
  complete := hs.complete h.complete
  requests := h.requests.frame hs.file (hs.directories _ requestsDir_mem)
    (hs.entries _ requestsDir_mem requestsDir_ne_runnersDir)
  runners := ht
  reports := h.reports.frame (hs.directories _ reportsDir_mem)
    (hs.entries _ reportsDir_mem runnersDir_ne_reportsDir.symm)
  runnersRead := hread
  reportsRead := h.reportsRead

/-- The reports are others. -/
theorem withReports (h : Shelved store yaml lib shelves s) {texts : BTreeMap String}
    (hs : Beside store store.reportsDir s s') (ht : Shelf store.reportsDir texts IsPathName s')
    (hread : Readables lib texts) : Shelved store yaml lib { shelves with reports := texts } s' where
  complete := hs.complete h.complete
  requests := h.requests.frame hs.file (hs.directories _ requestsDir_mem)
    (hs.entries _ requestsDir_mem requestsDir_ne_reportsDir)
  runners := h.runners.frame (hs.directories _ runnersDir_mem) (hs.entries _ runnersDir_mem runnersDir_ne_reportsDir)
  reports := ht
  runnersRead := h.runnersRead
  reportsRead := hread

end Shelved

theorem Readables.insert {texts : BTreeMap String} (h : Readables lib texts)
    (htext : ∃ value, lib.fromStr text = .ok value) : Readables lib (texts.insert id text) := by
  intro id' text' h'
  rw [Std.ExtTreeMap.getElem?_insert] at h'
  split at h'
  · cases h'
    exact htext
  · exact h id' text' h'

/-- Where calls stand, after a change of the workspace. -/
theorem Standing.within {shelves' : Shelves} (h : Standing store yaml lib dirs shelves first s)
    (hsep : Separate store dirs) (hs : ∀ q, ¬Within store q → s'.look q = s.look q)
    (hshelved : Shelved store yaml lib shelves' s') : Standing store yaml lib dirs shelves' first s' where
  shelved := hshelved
  places := h.places.inside hsep hs
  untouched q hq hout := (hs q hq).trans (h.untouched q hq hout)

/-- After a change of an entry of one of its directories. -/
theorem Standing.entry {shelves' : Shelves} (h : Standing store yaml lib dirs shelves first s)
    (hsep : Separate store dirs) (hd : d ∈ store.directories) {entry : Option Fs.Entry}
    (hlook : s'.look = update s.look (child d name) entry)
    (hshelved : Shelved store yaml lib shelves' s') : Standing store yaml lib dirs shelves' first s' := by
  refine h.within hsep (fun q hq => ?_) hshelved
  rw [hlook, Function.update_of_ne]
  rintro rfl
  exact hq (within_entry hd name)

end

/-! ## One call -/

section

variable {store : WorkspaceStore} {yaml : Yaml} {lib : ReportJson} {shelves : Shelves} {dirs : List UnixPath}
variable {first s s' : Fs} {d q : UnixPath} {name : Name} {id text : String}

/-- An operation on direct children of the requests directory changes nothing else. -/
theorem Confined.same {op : Fs.Op} {ans : Fs.Ans op} (h : Confined store s op) (hw : Fs.world false s op ans s')
    (hq : ¬InRequests store q) : s'.look q = s.look q := by
  have hupdate {p : UnixPath} {entry : Option Fs.Entry} (hp : InRequests store p)
      (hlook : s'.look = update s.look p entry) : s'.look q = s.look q := by
    rw [hlook, Function.update_of_ne]
    rintro rfl
    exact hq hp
  cases op with
  | exists_ p => rw [(Fs.world_exists hw).1]
  | isDir p => rw [(Fs.world_isDir hw).1]
  | sync fd => rw [(Fs.world_sync hw).1]
  | read p => rw [(Fs.world_read hw).1]
  | readDir d => rw [(Fs.world_readDir hw).1]
  | mkdir p =>
    rcases Fs.world_mkdir hw with ⟨-, -, rfl, -⟩ | ⟨-, -, hlook⟩
    · rfl
    · exact hupdate h hlook
  | createNew p =>
    rcases Fs.world_createNew hw with ⟨-, -, rfl, -⟩ | ⟨-, -, -, -, -, hlook⟩
    · rfl
    · exact hupdate h hlook
  | create p =>
    rcases Fs.world_create hw with ⟨-, -, rfl, -⟩ | ⟨-, -, -, -, hlook⟩
    · rfl
    · exact hupdate h hlook
  | write fd bytes =>
    obtain ⟨p, written, hp, hwriting⟩ := h
    obtain ⟨n, -, -, hlook, -⟩ := Fs.world_write hwriting hw
    exact hupdate hp hlook
  | rename p p' =>
    rcases Fs.world_rename hw with ⟨-, -, rfl, -⟩ | ⟨-, content, -, hlook⟩
    · rfl
    · rw [hlook, Function.update_of_ne, Function.update_of_ne]
      · rintro rfl
        exact hq h.1
      · rintro rfl
        exact hq h.2
  | remove p =>
    have hs : s' = (s.remove p).2 := congrArg Prod.snd (Fs.world_remove hw)
    rcases Fs.remove_cases s p with hsame | ⟨-, hlook⟩
    · rw [hs, hsame]
    · exact hupdate h (hs ▸ hlook)

theorem inRequests_within (h : InRequests store q) : Within store q := by
  obtain ⟨name, -, rfl⟩ := h
  exact within_entry requestsDir_mem name

theorem beside_requests (hs : ∀ q, ¬InRequests store q → s'.look q = s.look q) :
    Beside store store.requestsDir s s' where
  directories d hd := hs d fun ⟨name, hname, he⟩ => (entry_ne requestsDir_mem hname.noSeparator).1 d hd he.symm
  file := hs _ fun ⟨name, hname, he⟩ => (entry_ne requestsDir_mem hname.noSeparator).2 he.symm
  entries d _ hne name hn := hs _ fun ⟨name', hname', he⟩ => hne (by
    rw [← UnixPath.parent_child (d := d) hn, he, UnixPath.parent_child hname'.noSeparator])

/-- The call has replied as on the maps, and stands where it should. -/
def Replies (store : WorkspaceStore) (yaml : Yaml) (lib : ReportJson) (dirs : List UnixPath) (first : Fs)
    (result : Reply × Shelves) (reply : Reply) (s : Fs) : Prop :=
  reply = result.1 ∧ Standing store yaml lib dirs result.2 first s

theorem safe_requestCall (hback : yaml.ReadsBack) (hroot : IsText store.root) (hsep : Separate store dirs)
    (h : Standing store yaml lib dirs shelves first s) {call : StoreCall} (hcall : call.Obtained) :
    Safe (Fs.world false) (fun _ _ => True)
      (Replies store yaml lib dirs first ((WorkspaceCall.request call).onShelves lib shelves))
      ((WorkspaceCall.request call).run store yaml lib) s := by
  rw [WorkspaceCall.run, Prog.safe_map]
  refine ((safe_call hback h.shelved.requests hcall (.inl hroot)).keeping
    (P := fun s' => ∀ q, ¬InRequests store q → s'.look q = s.look q) (fun s₁ op ans s₂ hop hw hs q hq => ?_)
    fun _ _ => rfl).imp (fun _ _ _ => trivial) ?_
  · exact (hop.same hw hq).trans (hs q hq)
  · rintro answer s' ⟨⟨rfl, hm⟩, hs⟩
    refine ⟨rfl, h.within hsep (fun q hq => hs q fun hin => hq (inRequests_within hin)) ?_⟩
    exact h.shelved.withRequests (beside_requests hs) hm

/-- A text is written on a shelf. -/
theorem safe_putEntry {content : Bytes} {Q : Except WireSurgeError Unit → Fs → Prop} (hcan : s.CanCreate (child d name))
    (hQ : ∀ s', s'.look = update s.look (child d name) (some (.file content)) → Q (.ok ()) s') :
    Safe (Fs.world false) (fun _ _ => True) Q (fsWrite (child d name) content).run s :=
  safe_putFile trivial (fun _ _ _ _ _ _ _ => trivial) (fun s' _ hlook => hQ s' hlook)
    (fun _ hcant => absurd hcan (hcant rfl)) fun hf => absurd hf Bool.false_ne_true

theorem safe_snapshot (hwrites : lib.Writes) (hsep : Separate store dirs)
    (h : Standing store yaml lib dirs shelves first s) {stats : RunnerStats} (hid : PlainId stats.id) :
    Safe (Fs.world false) (fun _ _ => True)
      (Replies store yaml lib dirs first ((WorkspaceCall.snapshot stats).onShelves lib shelves))
      ((WorkspaceCall.snapshot stats).run store yaml lib) s := by
  rw [WorkspaceCall.run, Prog.safe_map, WorkspaceStore.writeRunnerSnapshot, Prog.safe_run_bind,
    reads_ensureWorkspace store s _ _ fun _ _ => trivial, h.shelved.ensured]
  simp only [Prog.onOk, Prog.safe_run_bind]
  refine safe_makeDirs_there (fun _ => trivial) h.shelved.runners.place (directory_ne_nil runnersDir_mem) ?_
  simp only [Prog.onOk, safe_liftExcept]
  cases htext : lib.toJson stats with
  | error error =>
    rw [WorkspaceCall.onShelves, htext]
    exact ⟨rfl, h⟩
  | ok text =>
    have hread : ∃ value, lib.fromStr text = .ok value := hwrites.stats (Checked.mapError_eq_ok htext)
    simp only [recordPath_eq hid]
    refine safe_putEntry (h.shelved.runners.canCreate hid id) fun s' hlook => ?_
    rw [WorkspaceCall.onShelves, htext]
    refine ⟨rfl, h.entry hsep runnersDir_mem hlook ?_⟩
    exact h.shelved.withRunners (.of_update runnersDir_mem hid.recordName hlook) (h.shelved.runners.insert hid hlook)
      (h.shelved.runnersRead.insert hread)

/-- The directory of a report is made. -/
theorem safe_reportDir {Q : Except WireSurgeError Unit → Fs → Prop} (hsep : Separate store dirs) (hd : d ∈ dirs)
    (h : Standing store yaml lib dirs shelves first s)
    (hQ : ∀ s', Standing store yaml lib dirs shelves first s' → s'.look d = some .dir → Q (.ok ()) s') :
    Safe (Fs.world false) (fun _ _ => True) Q (createDirAll d).run s := by
  refine safe_makeDirs (fun _ _ _ _ => ⟨trivial, trivial⟩) (fun s' hmade hdir => ?_) fun e s' _ hno =>
    absurd (h.places d hd).1 (hno rfl)
  refine hQ s' ⟨h.shelved.elsewhere fun q hq => ?_, h.places.made hsep hd hmade, fun q hq hout => ?_⟩
    (hdir.resolve_left (hsep.ne_nil hd))
  · exact (hmade q).resolve_right fun ⟨hpath, _⟩ => hsep.above hd hpath hq
  · rw [← h.untouched q hq hout]
    exact (hmade q).resolve_right fun ⟨hpath, _⟩ => (hout d hd).1 hpath

/-- A file is written in it. -/
theorem safe_reportFile {content : Bytes} {Q : Except WireSurgeError Unit → Fs → Prop} (hsep : Separate store dirs)
    (hd : d ∈ dirs) (hname : name ∈ reportNames) (h : Standing store yaml lib dirs shelves first s)
    (hdir : s.look d = some .dir)
    (hQ : ∀ s', Standing store yaml lib dirs shelves first s' → s'.look d = some .dir → Q (.ok ()) s') :
    Safe (Fs.world false) (fun _ _ => True) Q (fsWrite (join d name) content).run s := by
  have hcan : s.CanCreate (child d name) :=
    ⟨(h.places d hd).2 name hname, fun _ => by rw [UnixPath.parent_child (reportNames_plain hname), hdir]⟩
  rw [hsep.join hd hname]
  refine safe_putEntry hcan fun s' hlook => ?_
  have hsame (q : UnixPath) (hq : q ≠ child d name) : s'.look q = s.look q := by rw [hlook, Function.update_of_ne hq]
  refine hQ s' ⟨h.shelved.elsewhere fun q hq => hsame q ?_, h.places.file hsep hd hname hlook, fun q hq hout => ?_⟩ ?_
  · rintro rfl
    exact hsep.file hd hname hq
  · rw [hsame q ((hout d hd).2 name hname), h.untouched q hq hout]
  · rw [hsame d UnixPath.child_ne_self.symm, hdir]

theorem safe_report (hwrites : lib.Writes) (hsep : Separate store dirs)
    (h : Standing store yaml lib dirs shelves first s) {canonical : UnixPath} {summary : ReportSummary}
    {details : String} (hd : d ∈ dirs) (hid : PlainId summary.id) :
    Safe (Fs.world false) (fun _ _ => True)
      (Replies store yaml lib dirs first ((WorkspaceCall.report d canonical summary details).onShelves lib shelves))
      ((WorkspaceCall.report d canonical summary details).run store yaml lib) s := by
  rw [WorkspaceCall.run, Prog.safe_map, WorkspaceStore.writeReport, Prog.safe_run_bind,
    reads_ensureWorkspace store s _ _ fun _ _ => trivial, h.shelved.ensured]
  simp only [Prog.onOk, Prog.safe_run_bind]
  refine safe_reportDir hsep hd h fun s₁ h₁ hdir₁ => ?_
  simp only [Prog.onOk, safe_liftExcept]
  cases htext : lib.summaryJson summary with
  | error error =>
    rw [WorkspaceCall.onShelves, htext]
    exact ⟨rfl, h₁⟩
  | ok text =>
    have hread : ∃ value, lib.fromStr text = .ok value := hwrites.summary (Checked.mapError_eq_ok htext)
    simp only
    refine safe_reportFile hsep hd (by decide) h₁ hdir₁ fun s₂ h₂ hdir₂ => ?_
    refine safe_reportFile hsep hd (by decide) h₂ hdir₂ fun s₃ h₃ hdir₃ => ?_
    refine safe_reportFile hsep hd (by decide) h₃ hdir₃ fun s₄ h₄ _ => ?_
    simp only [Prog.onOk]
    refine safe_makeDirs_there (fun _ => trivial) h₄.shelved.reports.place (directory_ne_nil reportsDir_mem) ?_
    simp only [Prog.onOk]
    -- the summary is on the shelf, and then the path to the report beside it
    have hpath : IsPathName (ofText (summary.id ++ ".path")) := ⟨_, hid, rfl⟩
    have hrecord : join store.reportsDir (ofText (summary.id ++ ".json")) =
        child store.reportsDir (recordName summary.id) := join_reportsDir hid.recordName
    rw [hrecord, join_reportsDir hpath.noSeparator]
    refine safe_putEntry (h₄.shelved.reports.canCreate hid (recordName_not_path _)) fun s₅ hlook => ?_
    have h₅ := h₄.entry hsep reportsDir_mem hlook (h₄.shelved.withReports
      (.of_update reportsDir_mem hid.recordName hlook) (h₄.shelved.reports.insert hid hlook)
      (h₄.shelved.reportsRead.insert hread))
    refine safe_putEntry (h₅.shelved.reports.canPut hpath.noSeparator hpath) fun s₆ hlook' => ?_
    rw [WorkspaceCall.onShelves, htext]
    refine ⟨rfl, h₅.entry hsep reportsDir_mem hlook' ?_⟩
    exact h₅.shelved.withReports (.of_update reportsDir_mem hpath.noSeparator hlook')
      (h₅.shelved.reports.put hpath (fun id he => recordName_not_path id (he ▸ hpath)) hlook') h₅.shelved.reportsRead

theorem lists_runners : Lists store.runnersDir fun _ => False where
  join := join_runnersDir
  other := False.elim

theorem lists_reports : Lists store.reportsDir IsPathName where
  join := join_reportsDir
  other := IsPathName.extension

/-- One call replies as on the maps. -/
theorem safe_workspaceCall (hback : yaml.ReadsBack) (hwrites : lib.Writes) (hroot : IsText store.root)
    (hsep : Separate store dirs) (h : Standing store yaml lib dirs shelves first s) {call : WorkspaceCall}
    (hcall : call.Obtained dirs) :
    Safe (Fs.world false) (fun _ _ => True) (Replies store yaml lib dirs first (call.onShelves lib shelves))
      (call.run store yaml lib) s := by
  cases call with
  | init =>
    rw [WorkspaceCall.run, Prog.safe_map]
    refine (safe_init_complete h.shelved.complete).mono fun r s' hr => ?_
    obtain ⟨rfl, rfl⟩ := hr
    exact ⟨rfl, h⟩
  | request call => exact safe_requestCall hback hroot hsep h hcall
  | snapshot stats => exact safe_snapshot hwrites hsep h hcall
  | runners =>
    rw [WorkspaceCall.run, Prog.safe_map, WorkspaceStore.runnerEntriesJson_eq]
    exact h.shelved.runners.safe_entriesJson lists_runners h.shelved.runnersRead hwrites h.shelved.ensured
      (fun _ _ => trivial) ⟨rfl, h⟩
  | report d canonical summary details => exact safe_report hwrites hsep h hcall.1 hcall.2
  | reports =>
    rw [WorkspaceCall.run, Prog.safe_map]
    exact h.shelved.reports.safe_entriesJson lists_reports h.shelved.reportsRead hwrites h.shelved.ensured
      (fun _ _ => trivial) ⟨rfl, h⟩
  | loadReport id =>
    rw [WorkspaceCall.run, Prog.safe_map,
      reads_loadReportSummary h.shelved.reports lists_reports h.shelved.ensured _ _ fun _ _ => trivial]
    exact ⟨rfl, h⟩

/-- So do calls one after the other. -/
theorem safe_workspaceCalls (hback : yaml.ReadsBack) (hwrites : lib.Writes) (hroot : IsText store.root)
    (hsep : Separate store dirs) {calls : List WorkspaceCall} (hcalls : ∀ call ∈ calls, call.Obtained dirs)
    (h : Standing store yaml lib dirs shelves first s) :
    Safe (Fs.world false) (fun _ _ => True)
      (fun replies s' => replies = (callsOnShelves lib calls shelves).1 ∧
        Standing store yaml lib dirs (callsOnShelves lib calls shelves).2 first s')
      (workspaceCalls store yaml lib calls) s := by
  induction calls generalizing shelves s with
  | nil => exact ⟨rfl, h⟩
  | cons call calls ih =>
    obtain ⟨hcall, hrest⟩ := List.forall_mem_cons.mp hcalls
    rw [workspaceCalls, Prog.safe_bind]
    refine (safe_workspaceCall hback hwrites hroot hsep h hcall).mono fun reply s₁ hreply => ?_
    obtain ⟨rfl, h₁⟩ := hreply
    rw [Prog.safe_bind]
    refine (ih hrest h₁).mono fun replies s' hreplies => ?_
    exact ⟨congrArg (_ :: ·) hreplies.1, hreplies.2⟩

end

/-- A workspace that `init` has made where nothing was shows empty maps. -/
theorem Built.shelved {store : WorkspaceStore} {yaml : Yaml} {lib : ReportJson} {s s' : Fs} (h : Built store s s')
    (hall : Complete store s')
    (hempty : ∀ d ∈ store.directories, ∀ name, separator ∉ name → s.look (child d name) = none) :
    Shelved store yaml lib ⟨∅, ∅, ∅⟩ s' := by
  have hnone {d : UnixPath} (hd : d ∈ store.directories) {name : Name} (hname : separator ∉ name) :
      s'.look (child d name) = none := (h.entries hd hname).trans (hempty d hd name hname)
  have hshelf {d : UnixPath} (hd : d ∈ store.directories) (other : Name → Prop) : Shelf d ∅ other s' := {
    place := hall.directories d hd
    plain := nofun
    file := nofun
    only := fun hname hs => by
      rw [hnone hd hname] at hs
      cases hs
    others := fun hname _ => by
      rw [hnone hd hname]
      exact nofun }
  have hfresh : Fresh store s' :=
    ⟨hall.workspace, hall.directories _ requestsDir_mem, fun name hname => hnone requestsDir_mem hname⟩
  exact {
    complete := hall
    requests := hfresh.represents
    runners := hshelf runnersDir_mem _
    reports := hshelf reportsDir_mem _
    runnersRead := nofun
    reportsRead := nofun }

/-- Any calls on a workspace with a UTF-8 path that shows some maps reply, without faults,
as the calls on the maps, whatever the order in which directories are listed. They come to an end, the
workspace shows the maps after them, and nothing has changed outside it and the report
directories. -/
theorem calls_refine (store : WorkspaceStore) (yaml : Yaml) (lib : ReportJson) (hback : yaml.ReadsBack)
    (hwrites : lib.Writes) (hroot : IsText store.root) {dirs : List UnixPath} (hsep : Separate store dirs)
    {shelves : Shelves} {s : Fs}
    (hshelved : Shelved store yaml lib shelves s) (hplaces : Places dirs s) {calls : List WorkspaceCall}
    (hcalls : ∀ call ∈ calls, call.Obtained dirs) :
    (∃ replies s', Runs (Fs.world false) (workspaceCalls store yaml lib calls, s) (.done replies, s')) ∧
    ∀ replies s', Runs (Fs.world false) (workspaceCalls store yaml lib calls, s) (.done replies, s') →
      replies = (callsOnShelves lib calls shelves).1 ∧
      Shelved store yaml lib (callsOnShelves lib calls shelves).2 s' ∧ Untouched store dirs s s' := by
  have hstart : Standing store yaml lib dirs shelves s s := ⟨hshelved, hplaces, fun _ _ _ => rfl⟩
  have hsafe := safe_workspaceCalls hback hwrites hroot hsep hcalls hstart
  refine ⟨Prog.exists_done (fun s op => ⟨_, _, Fs.world_apply s op false⟩) _ s, fun replies s' hr => ?_⟩
  obtain ⟨hreplies, hend⟩ := hsafe.done hr
  exact ⟨hreplies, hend.shelved, hend.untouched⟩

/-! ## A record and a report -/

/-- The summary of a run that has passed. -/
def sampleSummary : ReportSummary := .singleRequest "run-1" 1 0 true

/-- What is written of it. -/
def summaryText : String :=
  "\x7b\"id\":\"run-1\",\"started_at\":1,\"duration_ms\":0.0,\"scenario_hash\":\"single-request\"," ++
    "\"git_commit\":null,\"status\":\"passed\",\"total_requests\":1,\"total_errors\":0," ++
    "\"latency_percentiles\":\x7b\"p50_ms\":0.0,\"p95_ms\":0.0,\"p99_ms\":0.0\x7d," ++
    "\"error_summary\":\"none\",\"redaction_status\":\"redacted\"\x7d"

/-- Its value, with the fields sorted by their names, and how that is written. -/
def summaryValue : Json :=
  let zero (name : String) : String × Json := (name, .number (.float 0))
  let count (name : String) (n : UInt64) : String × Json := (name, .number (.posInt n))
  .object [zero "duration_ms", ("error_summary", .string "none"), ("git_commit", .null), ("id", .string "run-1"),
    ("latency_percentiles", .object [zero "p50_ms", zero "p95_ms", zero "p99_ms"]),
    ("redaction_status", .string "redacted"), ("scenario_hash", .string "single-request"), count "started_at" 1,
    ("status", .string "passed"), count "total_errors" 0, count "total_requests" 1]

/-- Its text, the keys in their order. -/
def summarySorted : String :=
  "\x7b\"duration_ms\":0.0,\"error_summary\":\"none\",\"git_commit\":null,\"id\":\"run-1\"," ++
    "\"latency_percentiles\":\x7b\"p50_ms\":0.0,\"p95_ms\":0.0,\"p99_ms\":0.0\x7d," ++
    "\"redaction_status\":\"redacted\",\"scenario_hash\":\"single-request\",\"started_at\":1," ++
    "\"status\":\"passed\",\"total_errors\":0,\"total_requests\":1\x7d"

mutual

/-- How the two values are written, and lists of them. -/
def sampleWritten : Json → String
  | .array items => "[" ++ sampleItems items ++ "]"
  | .object (("active_run_id", _) :: _) => activeSorted
  | .object _ => summarySorted
  | _ => "null"

def sampleItems : List Json → String
  | [] => ""
  | [item] => sampleWritten item
  | item :: items => sampleWritten item ++ "," ++ sampleItems items

end

/-- The library on the record and the report. -/
def sampleReports : ReportJson where
  ofStats _ := .ok activeText
  ofSummary _ := .ok summaryText
  fromStr text :=
    if text = activeText then .ok activeValue
    else if text = summaryText then .ok summaryValue
    else .error ⟨"EOF while parsing a value at line 1 column 0", 1, 0⟩
  toString := sampleWritten

theorem sampleItems_congr {left right : List Json} (h : left.map sampleWritten = right.map sampleWritten) :
    sampleItems left = sampleItems right := by
  induction left generalizing right with
  | nil => rw [List.map_eq_nil_iff.mp h.symm]
  | cons item items ih =>
    cases right with
    | nil => cases h
    | cons item' items' =>
      obtain ⟨hitem, hitems⟩ := List.cons_eq_cons.mp h
      cases items with
      | nil =>
        rw [List.map_eq_nil_iff.mp hitems.symm]
        exact hitem
      | cons next rest =>
        cases items' with
        | nil => cases hitems
        | cons next' rest' =>
          have hrest := ih hitems
          simp only [sampleItems, hitem] at hrest ⊢
          rw [hrest]

theorem sampleReports_writes : sampleReports.Writes where
  stats h := by
    cases h
    exact ⟨activeValue, by simp only [sampleReports, if_true]⟩
  summary h := by
    cases h
    have hne : summaryText ≠ activeText := by decide +kernel
    exact ⟨summaryValue, by simp only [sampleReports, hne, if_false, if_true]⟩
  array h := congrArg (fun text => "[" ++ text ++ "]") (sampleItems_congr h)

/-- Calls of each kind. -/
def sampleWork : List WorkspaceCall :=
  [.init, .snapshot activeRecord, .runners, .report (ofText "/r") (ofText "/r") sampleSummary "\x7b\x7d",
    .loadReport "run-1", .reports, .request (.load "run-1")]


theorem separate_sample : Separate sampleStore [ofText "/r"] where
  ne_nil := by decide
  plain := by decide
  outside hd := by
    rw [List.mem_singleton.mp hd]
    exact ⟨by decide, by rw [Within]; decide⟩
  apart {d d' name} hd hd' hname := by
    have hnames : ∀ name ∈ reportNames, ¬child (ofText "/r") name <+: ofText "/r" := by decide
    rw [List.mem_singleton.mp hd, List.mem_singleton.mp hd']
    exact hnames name hname

theorem calls_refine_sample : ∃ s, Complete sampleStore s ∧ ∃ replies s',
    Runs (Fs.world false) (workspaceCalls sampleStore sampleYaml sampleReports sampleWork, s) (.done replies, s') ∧
    replies = [.done (.ok ()), .done (.ok ()), .text (.ok ("[" ++ activeSorted ++ "]")), .done (.ok ()),
      .text (.ok summaryText), .text (.ok ("[" ++ summarySorted ++ "]")),
      .request (.request (.error (requestNotFound "run-1")))] := by
  obtain ⟨r, s, hr⟩ := Prog.exists_done (fun s op => ⟨_, _, Fs.world_apply s op false⟩) sampleStore.init.run samplePlace
  obtain ⟨hbuilt, hcomplete, hok⟩ := (safe_init rooted_samplePlace).done hr
  have hall := hcomplete (hok rfl makeable_samplePlace)
  have hempty (d : UnixPath) (hd : d ∈ sampleStore.directories) (name : Name) (_ : separator ∉ name) :
      samplePlace.look (child d name) = none := by
    obtain ⟨n, -, rfl⟩ := mem_directories hd
    refine look_samplePlace_child ?_ name
    rw [child, List.length_append]
    exact Nat.le_add_right_of_le (by decide)
  have hroot : s.look [] = some .dir := by
    rcases hbuilt [] with hsame | ⟨-, hnone, -⟩ | ⟨hfile, -⟩
    · rw [hsame, look_samplePlace, if_pos (.inl rfl)]
    · rw [look_samplePlace, if_pos (.inl rfl)] at hnone
      cases hnone
    · cases hfile
  have hapart (rest p : Name) : ¬ofText "/r" ++ rest <+: ofText "/w" ++ p := by
    intro h
    have hbytes : [separator, 0x72] ++ rest <+: [separator, 0x77] ++ p := h
    simp at hbytes
  have hmetadata : sampleStore.metadataDir = ofText "/w" ++ ofText "/.wiresurge" := by decide
  have hnone (rest : Name) : s.look (ofText "/r" ++ rest) = none := by
    rcases hbuilt (ofText "/r" ++ rest) with hsame | ⟨⟨d, hd, hpath⟩, -⟩ | ⟨hfile, -⟩
    · rw [hsame, look_samplePlace, if_neg]
      rintro (hnil | hw)
      · exact absurd (List.append_eq_nil_iff.mp hnil).1 (by decide)
      · refine hapart rest [] ?_
        rw [hw, List.append_nil]
    · obtain ⟨n, -, rfl⟩ := mem_directories hd
      rw [child, hmetadata, List.append_assoc] at hpath
      exact absurd hpath (hapart _ _)
    · rw [WorkspaceStore.workspaceFile_eq, child, hmetadata, List.append_assoc] at hfile
      exact absurd ⟨[], by rw [List.append_nil, hfile]⟩ (hapart rest _)
  have hplaces : Places [ofText "/r"] s := by
    intro d hd
    rw [List.mem_singleton.mp hd]
    refine ⟨.under (by decide) (hnone []) (.there hroot), fun name _ => ?_⟩
    rw [child, hnone]
    exact (Option.some_ne_none _).symm
  have hobtained : ∀ call ∈ sampleWork, call.Obtained [ofText "/r"] := by
    simp only [sampleWork, List.forall_mem_cons, List.not_mem_nil, false_implies, implies_true, and_true]
    exact ⟨trivial, ⟨by decide, by decide⟩, trivial, ⟨List.mem_singleton_self _, by decide, by decide⟩, trivial,
      trivial, trivial⟩
  obtain ⟨⟨replies, s', hr'⟩, hrefines⟩ := calls_refine sampleStore sampleYaml sampleReports sampleYaml_readsBack
    sampleReports_writes (by decide +kernel) separate_sample (hbuilt.shelved hall hempty) hplaces hobtained
  exact ⟨s, hall, replies, s', hr', (hrefines replies s' hr').1.trans (by decide +kernel)⟩

end WireSurge.Storage
