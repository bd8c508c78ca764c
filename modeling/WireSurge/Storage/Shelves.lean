import WireSurge.Lib.Form
import WireSurge.Storage.Init
import WireSurge.Storage.Report

/-!
# Records and reports on their shelves

The runner records and the report summaries of a workspace are each the files of one
directory, a text under each id (`Shelf`). What is listed of such a directory depends on
the texts alone: not on the order in which the file system names the entries, nor on the
other files in it (`Shelf.safe_entriesJson`). A text that is written is put under its id
(`Shelf.insert`), and what happens in other directories leaves a shelf as it is
(`Shelf.frame`).
-/

namespace WireSurge.Storage

open WireSurge.Core (BTreeMap Json WireSurgeError validateId)
open Fs (Bytes)
open Function (update)
open Metrics (ReportSummary RunnerStats)
open Prog (Runs Safe)
open UnixPath (Name child extension join ofText parent separator)

/-! ## Programs -/

/-- `serde_json`, for reports too. -/
structure ReportJson extends RecordJson where
  ofSummary : ReportSummary → Except String String

/-- `ReportSummary::to_json`. -/
def ReportJson.summaryJson (lib : ReportJson) (summary : ReportSummary) : Except WireSurgeError String :=
  (lib.ofSummary summary).mapError (WireSurgeError.new "json_encode_failed")

def reportNotFound (id : String) : WireSurgeError :=
  (WireSurgeError.new "report_not_found" ("report '" ++ id ++ "' was not found")).atPath "id"

namespace WorkspaceStore

variable (store : WorkspaceStore) (lib : ReportJson)

/-- `write_report`; what `canonicalize` gives for the directory, or the directory where it
fails, is an argument. -/
def writeReport (dir canonical : UnixPath) (summary : ReportSummary) (detailsJson : String) : FsM Unit := do
  store.ensureWorkspace
  createDirAll dir
  let summaryJson ← liftExcept (lib.summaryJson summary)
  fsWrite (join dir (ofText "summary.json")) (Str.encode summaryJson.toList)
  fsWrite (join dir (ofText "details.json")) (Str.encode detailsJson.toList)
  fsWrite (join dir (ofText "index.html")) (Str.encode (reportHtml summary summaryJson.toList detailsJson.toList))
  createDirAll store.reportsDir
  fsWrite (join store.reportsDir (ofText (summary.id ++ ".json"))) (Str.encode summaryJson.toList)
  fsWrite (join store.reportsDir (ofText (summary.id ++ ".path"))) (Str.encode (UnixPath.display canonical))

/-- The loop over the entries of a directory with stored values. -/
def readStored (dir : UnixPath) (entries : List Json) : List Name → FsM (List Json)
  | [] => pure entries
  | name :: names => do
    let path := join dir name
    if extension path = some (ofText "json") then
      let input ← mapErr ofIo (← readToString path)
      let value ← liftExcept (parseStoredJson lib.toRecordJson input)
      readStored dir (entries ++ [value]) names
    else readStored dir entries names

/-- `report_entries_json`, and `runner_entries_json` with its directory. -/
def entriesJson (dir : UnixPath) : FsM String := do
  store.ensureWorkspace
  let entries ← if ← ask (.exists_ dir) then do
      let names ← mapErr ofIo (← ask (.readDir dir))
      readStored lib dir [] names
    else pure []
  return lib.toString (.array (sortEntries lib.toRecordJson entries))

def reportEntriesJson : FsM String := store.entriesJson lib store.reportsDir

def loadReportSummary (id : String) : FsM String := do
  store.ensureWorkspace
  liftExcept (validateId id)
  mapErr (fun error => if error.kind = .notFound then reportNotFound id else ofIo error)
    (← readToString (join store.reportsDir (ofText (id ++ ".json"))))

/-- The runners are listed as the reports are. -/
theorem runnerEntriesJson_eq : store.runnerEntriesJson lib.toRecordJson = store.entriesJson lib store.runnersDir := by
  have hloop (names : List Name) (entries : List Json) :
      store.readRecords lib.toRecordJson entries names = readStored lib store.runnersDir entries names := by
    induction names generalizing entries with
    | nil => rfl
    | cons name names ih => simp only [readRecords, readStored, ih]
  simp only [runnerEntriesJson, entriesJson, hloop]

end WorkspaceStore

/-! ## What is listed -/

/-- What is relied on: what is written is JSON, and the text of a list is made of the texts
of its elements. -/
structure ReportJson.Writes (lib : ReportJson) : Prop where
  stats {stats : RunnerStats} {text : String} : lib.ofStats stats = .ok text → ∃ value, lib.fromStr text = .ok value
  summary {summary : ReportSummary} {text : String} :
    lib.ofSummary summary = .ok text → ∃ value, lib.fromStr text = .ok value
  array {left right : List Json} :
    left.map lib.toString = right.map lib.toString → lib.toString (.array left) = lib.toString (.array right)

section

variable (lib : ReportJson)

/-- The value of a stored text. -/
def ReportJson.valueOf (text : String) : Json :=
  match lib.fromStr text with
  | .ok value => value
  | .error _ => .null

/-- Every text is that of a value. -/
def Readables (texts : BTreeMap String) : Prop :=
  ∀ id text : String, texts[id]? = some text → ∃ value, lib.fromStr text = .ok value

/-- The list of some texts. -/
def ReportJson.listing (texts : BTreeMap String) : Except WireSurgeError String := do
  let values ← texts.toList.mapM fun entry => parseStoredJson lib.toRecordJson entry.2
  return lib.toString (.array (WorkspaceStore.sortEntries lib.toRecordJson values))

/-- The values of some entries. -/
def storedValues (s : Fs) (dir : UnixPath) : List Name → Except WireSurgeError (List Json)
  | [] => .ok []
  | name :: names =>
    let path := join dir name
    if extension path = some (ofText "json") then do
      let value ← storedRecord lib.toRecordJson s path
      return value :: (← storedValues s dir names)
    else storedValues s dir names

end

section

variable {lib : ReportJson} {s : Fs} {dir : UnixPath} {texts : BTreeMap String}

/-- Texts in order do not depend on the order in which they came. -/
theorem map_sortEntries {left right : List Json} (hperm : left.Perm right) :
    (WorkspaceStore.sortEntries lib.toRecordJson left).map lib.toString =
      (WorkspaceStore.sortEntries lib.toRecordJson right).map lib.toString := by
  have hsorted (values : List Json) : ((WorkspaceStore.sortEntries lib.toRecordJson values).map lib.toString).Pairwise
      fun a b => (compare a b).isLE := by
    rw [List.pairwise_map]
    refine List.pairwise_mergeSort (fun _ _ _ => Std.TransCmp.isLE_trans) (fun a b => ?_) values
    have hswap : compare (lib.toString a) (lib.toString b) = (compare (lib.toString b) (lib.toString a)).swap :=
      Std.OrientedCmp.eq_swap
    rw [hswap]
    cases compare (lib.toString b) (lib.toString a) <;> rfl
  refine List.Perm.eq_of_pairwise (fun a b _ _ hab hba => ?_) (hsorted left) (hsorted right) (List.Perm.map _ ?_)
  · exact Std.LawfulEqCmp.eq_of_compare (Std.OrientedCmp.isLE_antisymm hab hba)
  · exact (List.mergeSort_perm left _).trans (hperm.trans (List.mergeSort_perm right _).symm)

theorem parseStoredJson_eq {text : String} (h : ∃ value, lib.fromStr text = .ok value) :
    parseStoredJson lib.toRecordJson text = .ok (lib.valueOf text) := by
  obtain ⟨value, hvalue⟩ := h
  rw [parseStoredJson, ReportJson.valueOf, hvalue]
  rfl

theorem listing_eq (h : Readables lib texts) : lib.listing texts =
    .ok (lib.toString (.array (WorkspaceStore.sortEntries lib.toRecordJson
      (texts.toList.map fun entry => lib.valueOf entry.2)))) := by
  have hall (entries : List (String × String))
      (hentries : ∀ entry ∈ entries, ∃ value, lib.fromStr entry.2 = .ok value) :
      entries.mapM (fun entry => parseStoredJson lib.toRecordJson entry.2) =
        .ok (entries.map fun entry => lib.valueOf entry.2) := by
    induction entries with
    | nil => rfl
    | cons entry entries ih =>
      rw [List.forall_mem_cons] at hentries
      rw [List.mapM_cons, parseStoredJson_eq hentries.1, ih hentries.2]
      rfl
  rw [ReportJson.listing, hall _ fun entry hentry => h entry.1 entry.2
    (Std.ExtTreeMap.mem_toList_iff_getElem?_eq_some.mp hentry)]
  rfl

theorem reads_readStored (names : List Name) (entries : List Json) :
    Reads s (WorkspaceStore.readStored lib dir entries names)
      ((storedValues lib s dir names).map (entries ++ ·)) := by
  induction names generalizing entries with
  | nil =>
    have hnil : (storedValues lib s dir []).map (entries ++ ·) = .ok entries := by
      rw [storedValues, Except.map, List.append_nil]
    rw [hnil]
    exact Reads.value entries
  | cons name names ih =>
    have hcons : (storedValues lib s dir (name :: names)).map (entries ++ ·) =
        if extension (join dir name) = some (ofText "json") then do
          let input ← (textAt s (join dir name)).mapError ofIo
          let value ← parseStoredJson lib.toRecordJson input
          (storedValues lib s dir names).map ((entries ++ [value]) ++ ·)
        else (storedValues lib s dir names).map (entries ++ ·) := by
      rw [storedValues]
      split
      · rw [storedRecord]
        cases (textAt s (join dir name)).mapError ofIo with
        | error => rfl
        | ok input =>
          simp only [bind, Except.bind]
          cases parseStoredJson lib.toRecordJson input with
          | error => rfl
          | ok value =>
            cases storedValues lib s dir names with
            | error => rfl
            | ok values => simp [Except.map, pure, Except.pure]
      · rfl
    rw [hcons]
    refine Reads.ite ?_ (ih entries)
    refine (reads_readToString s _).bind fun _ => (Reads.mapped _ _).bind fun _ => (Reads.lift _).bind fun value => ?_
    exact ih (entries ++ [value])

end

/-! ## A shelf -/

/-- The files of a directory: one for each text, under its id, and some others. -/
structure Shelf (dir : UnixPath) (texts : BTreeMap String) (other : Name → Prop) (s : Fs) : Prop where
  place : s.look dir = some .dir
  plain {id text : String} : texts[id]? = some text → PlainId id
  file {id text : String} : texts[id]? = some text →
    s.look (child dir (recordName id)) = some (.file (Str.encode text.toList))
  only {name : Name} : separator ∉ name → (s.look (child dir name)).isSome →
    (∃ id ∈ texts, name = recordName id) ∨ other name
  others {name : Name} : separator ∉ name → other name → s.look (child dir name) ≠ some .dir

/-- What is in the directory shows what it did. -/
def SameIn (dir : UnixPath) (s s' : Fs) : Prop :=
  ∀ name, separator ∉ name → s'.look (child dir name) = s.look (child dir name)

/-- The file names that are not listed: those of the paths of reports. -/
def IsPathName (name : Name) : Prop := ∃ id : String, PlainId id ∧ name = ofText (id ++ ".path")

section

variable {store : WorkspaceStore} {lib : ReportJson} {dir dir' : UnixPath} {texts : BTreeMap String}
variable {other : Name → Prop} {s s' : Fs} {id text : String} {name : Name}

theorem recordName_injective {id' : String} (h : recordName id = recordName id') : id = id' :=
  UnixPath.eq_of_ofText_append h

theorem recordName_not_path (id : String) : ¬IsPathName (recordName id) := by
  rintro ⟨id', -, h⟩
  have hlast := congrArg List.getLast? h
  rw [recordName, UnixPath.ofText_append, UnixPath.ofText_append, List.getLast?_append_of_ne_nil _ (by decide),
    List.getLast?_append_of_ne_nil _ (by decide)] at hlast
  exact absurd hlast (by decide)

/-- A change in another directory. -/
theorem SameIn.of_update {entry : Option Fs.Entry} (hne : dir' ≠ dir) (hname : separator ∉ name)
    (hlook : s'.look = update s.look (child dir' name) entry) : SameIn dir s s' := by
  intro n hn
  rw [hlook, Function.update_of_ne]
  intro h
  have hparent := congrArg parent h
  rw [UnixPath.parent_child hn, UnixPath.parent_child hname] at hparent
  exact hne hparent.symm

namespace Shelf

theorem frame (h : Shelf dir texts other s) (hplace : s'.look dir = s.look dir) (hsame : SameIn dir s s') :
    Shelf dir texts other s' where
  place := hplace.trans h.place
  plain := h.plain
  file hid := (hsame _ (h.plain hid).recordName).trans (h.file hid)
  only hname hs := h.only hname (by rwa [← hsame _ hname])
  others hname hother := hsame _ hname ▸ h.others hname hother

/-- A text is put under its id. -/
theorem insert (h : Shelf dir texts other s) (hid : PlainId id)
    (hlook : s'.look = update s.look (child dir (recordName id)) (some (.file (Str.encode text.toList)))) :
    Shelf dir (texts.insert id text) other s' where
  place := by
    rw [hlook, Function.update_of_ne UnixPath.child_ne_self.symm]
    exact h.place
  plain {id' text'} h' := by
    rw [Std.ExtTreeMap.getElem?_insert] at h'
    split at h'
    · rename_i he
      exact Std.LawfulEqCmp.eq_of_compare he ▸ hid
    · exact h.plain h'
  file {id' text'} h' := by
    by_cases he : id = id'
    · subst he
      rw [Std.ExtTreeMap.getElem?_insert_self, Option.some.injEq] at h'
      rw [hlook, Function.update_self, h']
    · rw [Std.ExtTreeMap.getElem?_insert, if_neg (by simpa using he)] at h'
      rw [hlook, Function.update_of_ne fun hp => he (recordName_injective (UnixPath.child_injective hp)).symm]
      exact h.file h'
  only {name} hn hs := by
    by_cases he : name = recordName id
    · exact .inl ⟨id, Std.ExtTreeMap.mem_insert_self, he⟩
    · rw [hlook, Function.update_of_ne fun hp => he (UnixPath.child_injective hp)] at hs
      refine (h.only hn hs).imp_left fun ⟨id', hid', hname⟩ => ?_
      exact ⟨id', Std.ExtTreeMap.mem_insert.mpr (.inr hid'), hname⟩
  others {name} hn hother := by
    rw [hlook, Function.update_apply]
    split
    · exact nofun
    · exact h.others hn hother

/-- Another file is written. -/
theorem put (h : Shelf dir texts other s) {content : Bytes} (hother : other name)
    (hno : ∀ id, name ≠ recordName id) (hlook : s'.look = update s.look (child dir name) (some (.file content))) :
    Shelf dir texts other s' where
  place := by
    rw [hlook, Function.update_of_ne UnixPath.child_ne_self.symm]
    exact h.place
  plain := h.plain
  file hid := by
    rw [hlook, Function.update_of_ne fun hp => hno _ (UnixPath.child_injective hp).symm]
    exact h.file hid
  only {name'} hn hs := by
    by_cases he : name' = name
    · exact .inr (he ▸ hother)
    · rw [hlook, Function.update_of_ne fun hp => he (UnixPath.child_injective hp)] at hs
      exact h.only hn hs
  others {name'} hn hother := by
    rw [hlook, Function.update_apply]
    split
    · exact nofun
    · exact h.others hn hother

/-- There is a place for it. -/
theorem canPut (h : Shelf dir texts other s) (hname : separator ∉ name) (hother : other name) :
    s.CanCreate (child dir name) :=
  ⟨h.others hname hother, fun _ => by rw [UnixPath.parent_child hname, h.place]⟩

/-- There is a place for the file of an id. -/
theorem canCreate (h : Shelf dir texts other s) (hid : PlainId id) (hno : ¬other (recordName id)) :
    s.CanCreate (child dir (recordName id)) := by
  refine ⟨fun hdir => ?_, fun _ => by rw [UnixPath.parent_child hid.recordName, h.place]⟩
  rcases h.only hid.recordName (by rw [hdir]; rfl) with ⟨id', hid', hname⟩ | hother
  · obtain ⟨text, htext⟩ := Option.isSome_iff_exists.mp (Std.ExtTreeMap.mem_iff_isSome_getElem?.mp hid')
    rw [hname, h.file htext] at hdir
    cases hdir
  · exact hno hother

/-- What is under an id. -/
theorem look_eq (h : Shelf dir texts other s) (hid : PlainId id) (hno : ¬other (recordName id)) :
    s.look (child dir (recordName id)) = texts[id]?.map fun text => .file (Str.encode text.toList) := by
  cases htext : texts[id]? with
  | some text => exact h.file htext
  | none =>
    rw [Option.map_none, ← Option.not_isSome_iff_eq_none]
    intro hs
    rcases h.only hid.recordName hs with ⟨id', hid', hname⟩ | hother
    · rw [← recordName_injective hname, Std.ExtTreeMap.mem_iff_isSome_getElem?, htext] at hid'
      cases hid'
    · exact hno hother

end Shelf

/-! ## Reading a shelf -/

theorem plainId_of_valid (hv : validateId id = .ok ()) : PlainId id where
  ne_nil := ne_nil_of_valid hv
  noSeparator := slash_notMem_of_valid hv

theorem noSeparator_toLower {c : Char} (hc : c.isAlphanum) : c.toLower ≠ '/' := by
  intro h
  rcases Form.eq_or_of_toLower h with rfl | rfl
  · exact absurd hc (by decide)
  · exact absurd hc (by decide)

theorem noSeparator_slugify (input : String) : '/' ∉ (Core.slugify input).toList := by
  have hslug : '/' ∉ input.toList.foldl (fun output c =>
      if c.isAlphanum then output ++ [c.toLower]
      else if output.getLast? = some '-' then output
      else output ++ ['-']) [] := by
    refine List.foldlRecOn (motive := fun output => '/' ∉ output) input.toList _ List.not_mem_nil
      fun output houtput c _ => ?_
    split
    · rename_i hc
      rw [List.mem_append, List.mem_singleton, not_or]
      exact ⟨houtput, (noSeparator_toLower hc).symm⟩
    · split
      · exact houtput
      · rw [List.mem_append, not_or]
        exact ⟨houtput, by decide⟩
  rw [Core.slugify, String.toList_ofList]
  exact fun hmem => hslug ((List.dropWhile_suffix _).subset ((List.rdropWhile_prefix _ _).subset hmem))

/-- The id of a report is one. -/
theorem plainId_generateId (millis : Nat) (name : String) : PlainId (Core.generateId millis "report" name) where
  ne_nil := by simp [Core.generateId]
  noSeparator hmem := by
    simp only [Core.generateId, String.toList_append, List.mem_append] at hmem
    rcases hmem with (((hstart | hdash) | hslug) | hdash) | hdigits
    · exact absurd hstart (by decide)
    · exact absurd hdash (by decide)
    · exact noSeparator_slugify name hslug
    · exact absurd hdash (by decide)
    · rw [Nat.toString_eq_repr, Nat.toList_repr] at hdigits
      have hdigit : '/'.isDigit := Nat.isDigit_of_mem_toDigits (by decide) (by decide) hdigits
      exact absurd hdigit (by decide)

theorem extension_record (hid : PlainId id) : extension (child dir (recordName id)) = some (ofText "json") :=
  UnixPath.extension_ofText hid.recordName hid.ne_nil rfl (by decide) (by decide)

theorem IsPathName.noSeparator (h : IsPathName name) : separator ∉ name := by
  obtain ⟨id, hid, rfl⟩ := h
  exact UnixPath.noSeparator_append hid.noSeparator (by decide)

theorem IsPathName.extension (h : IsPathName name) : extension (child dir name) ≠ some (ofText "json") := by
  have hsep := h.noSeparator
  obtain ⟨id, hid, rfl⟩ := h
  have hpath : UnixPath.extension (child dir (ofText (id ++ ".path"))) = some (ofText "path") :=
    UnixPath.extension_ofText hsep hid.ne_nil rfl (by decide) (by decide)
  rw [hpath]
  decide

/-- A shelf whose other files are not listed. -/
structure Lists (dir : UnixPath) (other : Name → Prop) : Prop where
  join {name : Name} : separator ∉ name → join dir name = child dir name
  other {name : Name} : other name → extension (child dir name) ≠ some (ofText "json")

namespace Shelf

/-- The entries that are listed are texts of the shelf. -/
theorem stored (h : Shelf dir texts other s) (hlists : Lists dir other) (hread : Readables lib texts)
    {names : List Name} (hnames : ∀ name ∈ names, separator ∉ name ∧ (s.look (child dir name)).isSome) :
    ∃ entries : List (String × String),
      storedValues lib s dir names = .ok (entries.map fun entry => lib.valueOf entry.2) ∧
      (entries.map fun entry => recordName entry.1).Sublist names ∧
      ∀ entry, entry ∈ entries ↔ texts[entry.1]? = some entry.2 ∧ recordName entry.1 ∈ names := by
  induction names with
  | nil => exact ⟨[], rfl, .slnil, fun entry => by simp⟩
  | cons name names ih =>
    obtain ⟨hname, hrest⟩ := List.forall_mem_cons.mp hnames
    obtain ⟨entries, hvalues, hsub, hmem⟩ := ih hrest
    rw [storedValues, hlists.join hname.1]
    rcases h.only hname.1 hname.2 with ⟨id, hid, rfl⟩ | hother
    · obtain ⟨text, htext⟩ := Option.isSome_iff_exists.mp (Std.ExtTreeMap.mem_iff_isSome_getElem?.mp hid)
      refine ⟨(id, text) :: entries, ?_, hsub.cons_cons _, fun entry => ?_⟩
      · rw [if_pos (extension_record (h.plain htext)), storedRecord, textAt_of_file (h.file htext),
          String.ofList_toList, hvalues]
        simp only [Except.mapError, bind, Except.bind, parseStoredJson_eq (hread id text htext)]
        rfl
      · rw [List.mem_cons, List.mem_cons, hmem]
        constructor
        · rintro (rfl | ⟨hentry, hin⟩)
          · exact ⟨htext, .inl rfl⟩
          · exact ⟨hentry, .inr hin⟩
        · rintro ⟨hentry, heq | hin⟩
          · have hid := recordName_injective heq
            rw [hid, htext, Option.some.injEq] at hentry
            exact .inl (Prod.ext hid hentry.symm)
          · exact .inr ⟨hentry, hin⟩
    · refine ⟨entries, by rw [if_neg (hlists.other hother), hvalues], hsub.cons _, fun entry => ?_⟩
      rw [List.mem_cons, hmem]
      refine and_congr_right fun hentry => ⟨.inr, fun hin => hin.resolve_left ?_⟩
      rintro rfl
      exact hlists.other hother (extension_record (h.plain hentry))

/-- All of them are, in some order. -/
theorem values (h : Shelf dir texts other s) (hlists : Lists dir other) (hread : Readables lib texts)
    {names : List Name} (hperm : names.Perm (s.entries dir)) : ∃ values, storedValues lib s dir names = .ok values ∧
      values.Perm (texts.toList.map fun entry => lib.valueOf entry.2) := by
  have hnames : ∀ name ∈ names, separator ∉ name ∧ (s.look (child dir name)).isSome := fun name hn =>
    Fs.mem_entries.mp (hperm.mem_iff.mp hn)
  obtain ⟨entries, hvalues, hsub, hmem⟩ := h.stored hlists hread hnames
  refine ⟨_, hvalues, List.Perm.map _ ((List.perm_ext_iff_of_nodup ?_ ?_).mpr fun entry => ?_)⟩
  · exact List.Nodup.of_map _ (hsub.nodup (hperm.nodup_iff.mpr (Fs.nodup_entries s dir)))
  · refine Std.ExtTreeMap.ordered_keys_toList.imp fun {a b} hlt he => ?_
    cases hlt.symm.trans (Std.ReflCmp.cmp_eq_of_eq (congrArg Prod.fst he))
  · rw [hmem, Std.ExtTreeMap.mem_toList_iff_getElem?_eq_some, and_iff_left_iff_imp]
    intro hentry
    have hid := h.plain hentry
    exact hperm.mem_iff.mpr (Fs.mem_entries.mpr ⟨hid.recordName, by rw [h.file hentry]; rfl⟩)

/-- Whatever the order of the entries, the list is that of the texts. -/
theorem safe_entriesJson {I : Fs → Fs.Op → Prop} {Q : Except WireSurgeError String → Fs → Prop}
    (h : Shelf dir texts other s) (hlists : Lists dir other) (hread : Readables lib texts) (hwrites : lib.Writes)
    (hens : ensured store s = .ok ()) (hI : ∀ op, Looks op → I s op) (hQ : Q (lib.listing texts) s) :
    Safe (Fs.world false) I Q (store.entriesJson lib dir).run s := by
  rw [WorkspaceStore.entriesJson, Prog.safe_run_bind, reads_ensureWorkspace store s I _ hI, hens]
  simp only [Prog.onOk, Prog.safe_run_bind, Reads.exists_ dir I _ hI, h.place, Option.isSome_some, if_true]
  rw [safe_ask]
  refine ⟨hI _ trivial, fun ans s' hw => ?_⟩
  obtain ⟨rfl, names, hperm, rfl⟩ := Fs.world_readDir hw
  obtain ⟨values, hvalues, hsorted⟩ := h.values hlists hread hperm
  simp only [Prog.onOk, Fs.readDir, h.place, safe_mapErr, Except.mapError]
  rw [reads_readStored names [] I _ hI, hvalues]
  rw [listing_eq hread] at hQ
  rw [← hwrites.array (map_sortEntries hsorted)] at hQ
  exact hQ

end Shelf

/-- What `load_report_summary` gives. -/
theorem reads_loadReportSummary (h : Shelf store.reportsDir texts IsPathName s)
    (hlists : Lists store.reportsDir IsPathName) (hens : ensured store s = .ok ()) :
    Reads s (store.loadReportSummary id) (do validateId id; Core.okOr texts[id]? (reportNotFound id)) := by
  have hload : Reads s (store.loadReportSummary id) (do
      ensured store s
      validateId id
      (textAt s (join store.reportsDir (ofText (id ++ ".json")))).mapError fun error =>
        if error.kind = .notFound then reportNotFound id else ofIo error) := by
    refine (reads_ensureWorkspace store s).bind fun _ => (Reads.lift _).bind fun _ => ?_
    exact (reads_readToString s _).bind fun _ => Reads.mapped _ _
  rw [hens] at hload
  cases hv : validateId id with
  | error error => rwa [hv] at hload
  | ok =>
    rw [hv] at hload
    have hid := plainId_of_valid hv
    have hlook : s.look (join store.reportsDir (ofText (id ++ ".json"))) = _ :=
      (congrArg s.look (hlists.join hid.recordName)).trans (h.look_eq hid (recordName_not_path id))
    have htext : ((textAt s (join store.reportsDir (ofText (id ++ ".json")))).mapError fun error =>
        if error.kind = .notFound then reportNotFound id else ofIo error) =
          Core.okOr texts[id]? (reportNotFound id) := by
      cases hid' : texts[id]? with
      | some text =>
        rw [hid'] at hlook
        rw [textAt_of_file hlook, String.ofList_toList]
        rfl
      | none =>
        rw [hid'] at hlook
        rw [textAt, textOf, Fs.read, hlook]
        rfl
    rwa [htext] at hload

end

end WireSurge.Storage
