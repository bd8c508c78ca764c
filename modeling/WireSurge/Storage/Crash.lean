import Mathlib.Data.Set.Insert
import WireSurge.Storage.Rules

/-!
# Writes that stop

What is seen of the requests, `view`: their ids, and what `load_request` and
`list_requests` may return. It is made by the files of the requests directory
with the extension `yaml` (`view_eq`), so a temporary file is not seen.

A call writes all or nothing when, wherever it stops and whatever operations
fail, what is seen is as before the call or as after its success, and as before
when it returns an error (`AllOrNothing`). An update does; a call that creates a
request does just when it comes to no file at all (`allOrNothing_iff`): the file
is there under its name before its text is in it. All this is without links (`Fs.Proper`):
a temporary file that is a link to another request would be emptied with it.
-/

namespace WireSurge.Storage

open WireSurge.Core (RequestSpec WireSurgeError validateId)
open Function (update)
open Prog (Runs Safe)
open UnixPath (Name child extension join ofText parent separator)
open WorkspaceStore (join_requestsDir)

/-! ## What is seen -/

/-- What a call may return, without faults. -/
def results {α : Type} (p : FsM α) (s : Fs) : Set (Except WireSurgeError α) :=
  {r | ∃ s', Runs (Fs.world false) (p.run, s) (.done r, s')}

structure View where
  ids : Set String
  load : String → Set (Except WireSurgeError RequestSpec)
  list : Set (Except WireSurgeError (List RequestSpec))

def view (store : WorkspaceStore) (yaml : Yaml) (s : Fs) : View where
  ids := {id | validateId id = .ok () ∧ (s.look (store.requestPath id)).isSome}
  load id := results (store.loadRequest yaml id) s
  list := results (store.listRequests yaml) s

section

variable {α : Type} {p : FsM α} {s : Fs} {r x : Except WireSurgeError α}

theorem mem_results : r ∈ results p s ↔ ¬Safe (Fs.world false) (fun _ _ => True) (fun a _ => a ≠ r) p.run s := by
  rw [Prog.safe_iff_runs]
  constructor
  · rintro ⟨s', hr⟩ h
    exact h _ _ hr rfl
  · intro h
    by_contra hno
    exact h fun a s' hr ha => hno ⟨s', ha ▸ hr⟩

theorem results_of_reads (h : Reads s p x) : results p s = {x} := by
  ext r
  rw [mem_results, h _ _ fun _ _ => trivial, not_not, Set.mem_singleton_iff, eq_comm]

end

/-- Both show the same workspace and the same request files. -/
structure SameRequests (store : WorkspaceStore) (s s' : Fs) : Prop where
  workspace : s'.look store.workspaceFile = s.look store.workspaceFile
  dir : s'.look store.requestsDir = s.look store.requestsDir
  files : ∀ name, separator ∉ name → extension (child store.requestsDir name) = some (ofText "yaml") →
    s'.look (child store.requestsDir name) = s.look (child store.requestsDir name)

section

variable {store : WorkspaceStore} {yaml : Yaml} {s s' : Fs} {id : String}

theorem SameRequests.symm (h : SameRequests store s s') : SameRequests store s' s :=
  ⟨h.workspace.symm, h.dir.symm, fun name hn he => (h.files name hn he).symm⟩

theorem SameRequests.of_look (h : s'.look = s.look) : SameRequests store s s' :=
  ⟨by rw [h], by rw [h], fun _ _ _ => by rw [h]⟩

/-- A temporary file does not matter. -/
theorem SameRequests.of_sameBut (hid : validateId id = .ok ()) (h : SameBut (tmpPath (store.requestPath id)) s s') :
    SameRequests store s s' := by
  refine ⟨h _ (tmpPath_ne_workspaceFile hid).symm, h _ (tmpPath_ne_requestsDir hid).symm, fun name hn he => h _ ?_⟩
  intro hp
  rw [hp, extension_tmpPath hid] at he
  exact absurd he (by decide)

theorem textAt_eq {path : UnixPath} (h : s'.look path = s.look path) : textAt s' path = textAt s path := by
  rw [textAt, textAt, Fs.read, Fs.read, h]

namespace SameRequests

theorem look_requestPath (h : SameRequests store s s') (hid : validateId id = .ok ()) :
    s'.look (store.requestPath id) = s.look (store.requestPath id) := by
  have he : extension (store.requestPath id) = some (ofText "yaml") := extension_requestPath hid
  rw [requestPath_eq hid] at he ⊢
  exact h.files _ (noSeparator_of_valid hid) he

theorem ensured_eq (h : SameRequests store s s') : ensured store s' = ensured store s := by
  rw [ensured, ensured, h.workspace]

theorem loadResult_eq (h : SameRequests store s s') : loadResult store yaml s' id = loadResult store yaml s id := by
  rw [loadResult, loadResult, h.ensured_eq]
  cases hv : validateId id with
  | error error => rfl
  | ok => rw [textAt_eq (h.look_requestPath hv)]

end SameRequests

/-! ## Listing -/

/-- The entry is a request file. -/
def isRequestFile (store : WorkspaceStore) (name : Name) : Bool :=
  extension (join store.requestsDir name) = some (ofText "yaml")

/-- Only request files are read. -/
theorem entriesResult_filter (names : List Name) :
    entriesResult store yaml s names = entriesResult store yaml s (names.filter (isRequestFile store)) := by
  induction names with
  | nil => rfl
  | cons name names ih =>
    by_cases he : extension (join store.requestsDir name) = some (ofText "yaml")
    · rw [List.filter_cons_of_pos (by simpa [isRequestFile] using he), entriesResult, entriesResult, ih]
    · rw [List.filter_cons_of_neg (by simpa [isRequestFile] using he), entriesResult, if_neg he, ih]

theorem SameRequests.entriesResult_eq (h : SameRequests store s s') {names : List Name}
    (hsep : ∀ name ∈ names, separator ∉ name) :
    entriesResult store yaml s' names = entriesResult store yaml s names := by
  induction names with
  | nil => rfl
  | cons name names ih =>
    have ih' := ih fun n hn => hsep n (List.mem_cons_of_mem _ hn)
    have hn := hsep name List.mem_cons_self
    rw [entriesResult, entriesResult, ih', join_requestsDir hn]
    by_cases he : extension (child store.requestsDir name) = some (ofText "yaml")
    · rw [if_pos he, if_pos he, textAt_eq (h.files name hn he)]
    · rw [if_neg he, if_neg he]

/-- The entries that are request files are the same. -/
theorem SameRequests.entries_perm (h : SameRequests store s s') :
    ((s.entries store.requestsDir).filter (isRequestFile store)).Perm
      ((s'.entries store.requestsDir).filter (isRequestFile store)) := by
  refine (List.perm_ext_iff_of_nodup ((Fs.nodup_entries s _).filter _) ((Fs.nodup_entries s' _).filter _)).mpr
    fun name => ?_
  simp only [List.mem_filter, Fs.mem_entries]
  refine ⟨fun ⟨⟨hn, hs⟩, he⟩ => ⟨⟨hn, ?_⟩, he⟩, fun ⟨⟨hn, hs⟩, he⟩ => ⟨⟨hn, ?_⟩, he⟩⟩ <;>
    have hf := h.files name hn (by rwa [isRequestFile, decide_eq_true_eq, join_requestsDir hn] at he)
  · rwa [hf]
  · rwa [← hf]

theorem mem_results_list {r : Except WireSurgeError (List RequestSpec)} : r ∈ results (store.listRequests yaml) s ↔
    ∃ names, names.Perm (s.entries store.requestsDir) ∧ listResult store yaml s names = r := by
  rw [mem_results, safe_listRequests fun _ _ => trivial]
  simp only [not_forall, not_not, exists_prop]

theorem SameRequests.list_subset (h : SameRequests store s s') :
    results (store.listRequests yaml) s ⊆ results (store.listRequests yaml) s' := by
  intro r hr
  obtain ⟨names, hperm, rfl⟩ := mem_results_list.mp hr
  -- the request files in their order, and behind them the rest
  let rest := (s'.entries store.requestsDir).filter fun name => !isRequestFile store name
  refine mem_results_list.mpr ⟨names.filter (isRequestFile store) ++ rest, ?_, ?_⟩
  · refine (((hperm.filter _).trans h.entries_perm).append_right rest).trans ?_
    exact List.filter_append_perm _ _
  · have hsep : ∀ name ∈ names.filter (isRequestFile store), separator ∉ name := fun name hn =>
      (Fs.mem_entries.mp (hperm.mem_iff.mp (List.mem_filter.mp hn).1)).1
    have hrest : rest.filter (isRequestFile store) = [] := by
      simp [rest, List.filter_filter]
    have hentries : entriesResult store yaml s' (names.filter (isRequestFile store) ++ rest) =
        entriesResult store yaml s names := by
      rw [entriesResult_filter, List.filter_append, hrest, List.append_nil]
      simp only [List.filter_filter, Bool.and_self]
      rw [h.entriesResult_eq hsep, ← entriesResult_filter]
    rw [listResult, listResult, h.ensured_eq, h.dir, Fs.readDir, Fs.readDir, h.dir]
    cases s.look store.requestsDir with
    | none => rfl
    | some entry =>
      cases entry with
      | file content => rfl
      | dir =>
        simp only [Except.mapError, bind, Except.bind, hentries]

theorem view_eq (h : SameRequests store s s') : view store yaml s' = view store yaml s := by
  have hids (id : String) : validateId id = .ok () ∧ (s'.look (store.requestPath id)).isSome ↔
      validateId id = .ok () ∧ (s.look (store.requestPath id)).isSome :=
    and_congr_right fun hid => by rw [h.look_requestPath hid]
  have hload (id : String) : results (store.loadRequest yaml id) s' = results (store.loadRequest yaml id) s := by
    rw [results_of_reads (reads_loadRequest store yaml s' id), results_of_reads (reads_loadRequest store yaml s id),
      h.loadResult_eq]
  have hlist : results (store.listRequests yaml) s' = results (store.listRequests yaml) s :=
    Set.Subset.antisymm h.symm.list_subset h.list_subset
  simp only [view, hids, hload, hlist]

end

/-! ## All or nothing -/

/-- The calls that write a request. -/
inductive Call
  | create (request : RequestSpec)
  | update (id : String) (request : RequestSpec)

namespace Call

variable (store : WorkspaceStore) (yaml : Yaml) (s : Fs)

def run : Call → FsM Unit
  | create request => store.createRequest yaml request
  | update id request => store.updateRequest yaml id request

/-- What is seen after the call, when it succeeds. -/
def Success (call : Call) (v : View) : Prop :=
  ∃ s', Runs (Fs.world false) ((call.run store yaml).run, s) (.done (.ok ()), s') ∧ v = view store yaml s'

/-- The call comes to a file that it creates under the name of a request. -/
def Opens : Call → Prop
  | create request => ∃ text, Creates store yaml s request text
  | update _ _ => False

end Call

/-- Wherever the call stops (`p`, the rest of it, is not run), with any operations
failed before. -/
def AllOrNothing (store : WorkspaceStore) (yaml : Yaml) (s : Fs) (call : Call) : Prop :=
  ∀ p s', Runs (Fs.world true) ((call.run store yaml).run, s) (p, s') →
    (view store yaml s' = view store yaml s ∨ call.Success store yaml s (view store yaml s')) ∧
    ∀ error, p = .done (.error error) → view store yaml s' = view store yaml s

section

variable {store : WorkspaceStore} {yaml : Yaml} {s s' : Fs} {id : String} {request : RequestSpec} {text : String}

/-- A call comes to its end. -/
theorem exists_result {α : Type} (p : FsM α) (s : Fs) : ∃ r s', Runs (Fs.world false) (p.run, s) (.done r, s') :=
  Prog.exists_done (fun s op => ⟨_, _, Fs.world_apply s op false⟩) p.run s

theorem allOrNothing_of_safe {call : Call}
    (h : Safe (Fs.world true)
      (fun s' _ => view store yaml s' = view store yaml s ∨ call.Success store yaml s (view store yaml s'))
      (fun r s' => (view store yaml s' = view store yaml s ∨ call.Success store yaml s (view store yaml s')) ∧
        ∀ error, r = .error error → view store yaml s' = view store yaml s) (call.run store yaml).run s) :
    AllOrNothing store yaml s call := by
  intro p s' hr
  have hs := h.always hr
  exact ⟨hs.1, fun error he => hs.2 _ he error rfl⟩

/-- An update writes all or nothing. -/
theorem allOrNothing_update : AllOrNothing store yaml s (.update id request) := by
  refine allOrNothing_of_safe (safe_updateRequest (fun _ _ => .inl rfl)
    (fun _ s' _ ht _ hs => .inl (view_eq (.of_sameBut (updateText_valid ht) hs))) (fun text s' ht hcan hs => ?_)
    (fun _ _ => ⟨.inl rfl, fun _ _ => rfl⟩) fun _ _ s' ht _ hs => ?_)
  · obtain ⟨r, s₁, hr⟩ := exists_result (store.updateRequest yaml id request) s
    obtain ⟨rfl, hs₁⟩ := updateRequest_done ht hcan hr
    exact ⟨.inr ⟨s₁, hr, view_eq (.of_look (hs.trans hs₁.symm))⟩, nofun⟩
  · have hview : view store yaml s' = view store yaml s := view_eq (.of_sameBut (updateText_valid ht) hs)
    exact ⟨.inl hview, fun _ _ => hview⟩

/-- A call that does not come to its file leaves everything as it is. -/
theorem allOrNothing_create (h : ¬(Call.create request).Opens store yaml s) :
    AllOrNothing store yaml s (.create request) := by
  have hno {p : Prop} {text : String} (hc : Creates store yaml s request text) : p := absurd ⟨text, hc⟩ h
  refine allOrNothing_of_safe (safe_createRequest (fun _ _ => .inl rfl) (.inl rfl) (fun _ _ _ _ _ hc => hno hc)
    (fun _ _ hc => hno hc) (fun _ _ => ⟨.inl rfl, fun _ _ => rfl⟩) fun _ _ _ _ _ _ hc => hno hc)

/-! ## The file that is created -/

/-- A file without text is not what the file of a request is. -/
theorem fromYaml_empty_ne (hback : yaml.ReadsBack) (hempty : yaml.EmptyUnnamed)
    (ht : yaml.toYaml request = .ok text) : yaml.fromYaml "" ≠ yaml.fromYaml text := by
  rw [Yaml.fromYaml_of_read (hback.read ht)]
  have herror {e : WireSurgeError} (he : e.code ≠ "invalid_request" ∨ e.message = "request YAML missing name") :
      Except.error e ≠ request.normalized.validate.map fun _ => request.normalized := by
    intro h
    cases hv : request.normalized.validate with
    | ok => rw [hv] at h; cases h
    | error error =>
      rw [hv] at h
      cases h
      have := RequestSpec.validate_error hv
      exact he.elim (· this.1) this.2
  cases hr : yaml.read "" with
  | error error =>
    rw [Yaml.fromYaml, RequestSpec.fromYaml, hr]
    refine herror (.inl ?_)
    unfold Core.deserializationError
    split <;> simp [WireSurgeError.new, WireSurgeError.atPath]
  | ok input =>
    rw [Yaml.fromYaml, RequestSpec.fromYaml, hr]
    simp only [Core.RequestSpecInput.intoRequest, hempty input hr]
    exact herror (.inr rfl)

/-- Between the creation of the file and the write of its text, the id is there
and what is loaded is neither an absent request nor the request. -/
theorem not_allOrNothing_create (hback : yaml.ReadsBack) (hempty : yaml.EmptyUnnamed)
    (hc : Creates store yaml s request text) : ¬AllOrNothing store yaml s (.create request) := by
  intro h
  obtain ⟨hens, hv, ht⟩ := createText_eq_ok.mp hc.text
  have hsafe := (Prog.safe_of_always fun p' s' hr => (h p' s' hr).1).fewer fun _ _ _ _ => Fs.world_of_false
  rw [Call.run, WorkspaceStore.createRequest, Prog.safe_run_bind,
    reads_ensureWorkspace store s _ _ fun _ _ => .inl rfl, hens] at hsafe
  simp only [Prog.onOk, Prog.safe_run_bind, safe_liftExcept, hv, ht, atomicWrite, if_true] at hsafe
  obtain ⟨s₁, hs₁, -, hlook⟩ := Fs.createNew_of_none hc.absent hc.place
  have hfile : s₁.look (store.requestPath request.id) = some (.file (Str.encode [])) := by
    rw [hlook, Function.update_self]
    rfl
  rcases (hsafe.2 _ s₁ ⟨.plain, nofun, congrArg some hs₁⟩).now with hview | ⟨s₂, hr, hview⟩
  · have hid : request.id ∈ (view store yaml s₁).ids := ⟨hv, by rw [hfile]; rfl⟩
    rw [hview] at hid
    have habsent := hid.2
    rw [hc.absent] at habsent
    cases habsent
  · have hens' {s' : Fs} {content : Fs.Entry}
        (hs : s'.look = update s.look (store.requestPath request.id) (some content)) : ensured store s' = .ok () := by
      rw [← hens, ensured, ensured, hs, Function.update_of_ne (requestPath_ne_workspaceFile hv).symm]
    obtain ⟨-, hs₂⟩ := createRequest_done hc hr
    have hload := congrFun (congrArg View.load hview) request.id
    simp only [view, results_of_reads (reads_loadRequest store yaml _ _)] at hload
    rw [loadResult_of_file (hens' hlook) hv hfile,
      loadResult_of_file (hens' hs₂) hv (by rw [hs₂, Function.update_self]), Set.singleton_eq_singleton_iff] at hload
    exact fromYaml_empty_ne hback hempty ht (by simpa using hload)

/-- A call writes all or nothing just when it does not come to create a file. -/
theorem allOrNothing_iff (store : WorkspaceStore) (yaml : Yaml) (hback : yaml.ReadsBack) (hempty : yaml.EmptyUnnamed)
    (s : Fs) (call : Call) : AllOrNothing store yaml s call ↔ ¬call.Opens store yaml s := by
  refine ⟨fun h hopens => ?_, fun h => ?_⟩
  · cases call with
    | create request =>
      obtain ⟨text, hc⟩ := hopens
      exact not_allOrNothing_create hback hempty hc h
    | update id request => exact hopens
  · cases call with
    | create request => exact allOrNothing_create h
    | update id request => exact allOrNothing_update

theorem allOrNothing_sample : AllOrNothing sampleStore sampleYaml sampleStore.fresh (.update "req-a" sampleRequest) :=
  (allOrNothing_iff sampleStore sampleYaml sampleYaml_readsBack sampleYaml_emptyUnnamed _ _).mpr id

/-- In a fresh workspace the file of a request that is created is seen before its text. -/
theorem create_not_allOrNothing : ¬AllOrNothing sampleStore sampleYaml sampleStore.fresh (.create sampleRequest) :=
  not_allOrNothing_create sampleYaml_readsBack sampleYaml_emptyUnnamed
    ⟨rfl, by decide +kernel, by decide +kernel⟩

end

end WireSurge.Storage
