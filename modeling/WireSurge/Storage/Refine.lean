import WireSurge.Storage.Rules

/-!
# The store is a map

The calls on requests (`StoreCall`) against the same calls on a map from ids to
requests (`StoreCall.onMap`). The file system shows a map (`Represents`) when the
requests directory has one file for each request, under the name of its id, and
nothing else. A call on it returns what the call on the map returns, the file
system shows the map after it, and no operation changes anything but a direct
child of the requests directory (`safe_call`), provided that its temporary file has its
place there: that is so where the path of the store is UTF-8, or the call replaces
nothing. So does any sequence of calls on a fresh workspace (`session_refines_iff`).
-/

namespace WireSurge.Storage

open WireSurge.Core (BTreeMap RequestSpec WireSurgeError validateId)
open Function (update)
open Prog (Runs Safe)
open UnixPath (IsName IsText Name child extension join ofText parent separator)
open WorkspaceStore (fileNameOf join_requestsDir tmpNameOf)

/-- A call on the requests of a store. -/
inductive StoreCall
  | create (request : RequestSpec)
  | update (id : String) (request : RequestSpec)
  | delete (id : String)
  | load (id : String)
  | list

/-- What a call returns. -/
inductive Answer
  | done (r : Except WireSurgeError Unit)
  | request (r : Except WireSurgeError RequestSpec)
  | requests (r : Except WireSurgeError (List RequestSpec))
  deriving DecidableEq

/-! ## On a map -/

section

variable (m : BTreeMap RequestSpec) (id : String)

/-- The id is valid, and there is no request under it. -/
def vacant : Except WireSurgeError Unit := do
  validateId id
  if id ∈ m then .error requestAlreadyExists else .ok ()

/-- There is one. -/
def present : Except WireSurgeError Unit := do
  validateId id
  if id ∈ m then .ok () else .error (requestNotFound id)

/-- What passes the check makes another map of it. -/
def changed (check : Except WireSurgeError Unit) (m' : BTreeMap RequestSpec) : Answer × BTreeMap RequestSpec :=
  match check with
  | .ok () => (.done (.ok ()), m')
  | .error error => (.done (.error error), m)

/-- What the call returns on a map, and the map after it. -/
def StoreCall.onMap : StoreCall → Answer × BTreeMap RequestSpec
  | create request => changed m (vacant m request.id) (m.insert request.id request)
  | update id request => changed m (present m id) (m.insert id { request with id })
  | delete id => changed m (present m id) (m.erase id)
  | load id => (.request (do validateId id; Core.okOr m[id]? (requestNotFound id)), m)
  | list => (.requests (.ok (m.toList.map Prod.snd)), m)

/-- The call comes to replace a request. -/
def StoreCall.replaces : StoreCall → Bool
  | update id _ => present m id = .ok ()
  | create _ | delete _ | load _ | list => false

/-- One of the calls, one after the other, does. -/
def anyReplaces : List StoreCall → BTreeMap RequestSpec → Bool
  | [], _ => false
  | call :: calls, m => call.replaces m || anyReplaces calls (call.onMap m).2

/-- What calls answer one after the other. -/
def sessionOnMap : List StoreCall → BTreeMap RequestSpec → List Answer
  | [], _ => []
  | call :: calls, m => (call.onMap m).1 :: sessionOnMap calls (call.onMap m).2

end

/-! ## On a file system -/

section

variable (store : WorkspaceStore) (yaml : Yaml)

/-- The call on the store. -/
def StoreCall.run : StoreCall → Prog Fs.Op Fs.Ans Answer
  | create request => Answer.done <$> (store.createRequest yaml request).run
  | update id request => Answer.done <$> (store.updateRequest yaml id request).run
  | delete id => Answer.done <$> (store.deleteRequest id).run
  | load id => Answer.request <$> (store.loadRequest yaml id).run
  | list => Answer.requests <$> (store.listRequests yaml).run

/-- Calls, one after the other. -/
def session : List StoreCall → Prog Fs.Op Fs.Ans (List Answer)
  | [] => pure []
  | call :: calls => do
    let answer ← call.run store yaml
    return answer :: (← session calls)

/-- A direct child of the requests directory. -/
def InRequests (p : UnixPath) : Prop := ∃ name, IsName name ∧ p = child store.requestsDir name

/-- What the operation creates, writes, renames or removes is one. -/
def Confined (s : Fs) : Fs.Op → Prop
  | .mkdir p | .createNew p | .create p | .remove p => InRequests store p
  | .write fd _ => ∃ p written, InRequests store p ∧ s.Writing fd p written
  | .rename p q => InRequests store p ∧ InRequests store q
  | .exists_ _ | .isDir _ | .sync _ | .read _ | .readDir _ => True

/-- The requests that a call brings come from where requests come from. -/
def StoreCall.Obtained : StoreCall → Prop
  | create request | update _ request => request.Obtained
  | delete _ | load _ | list => True

/-- A workspace without requests. -/
structure Fresh (s : Fs) : Prop where
  workspace : (s.look store.workspaceFile).isSome
  place : s.look store.requestsDir = some .dir
  empty : ∀ name, separator ∉ name → s.look (child store.requestsDir name) = none

/-- The file system shows the map. -/
structure Represents (m : BTreeMap RequestSpec) (s : Fs) : Prop where
  workspace : (s.look store.workspaceFile).isSome
  place : s.look store.requestsDir = some .dir
  normal {id : String} {r : RequestSpec} : m[id]? = some r → r.Normal ∧ r.id = id
  file {id : String} {r : RequestSpec} : m[id]? = some r → ∃ text, yaml.toYaml r = .ok text ∧
    s.look (store.requestPath id) = some (.file (Str.encode text.toList))
  only {name : Name} : separator ∉ name → (s.look (child store.requestsDir name)).isSome →
    ∃ id ∈ m, name = fileNameOf id

end

section

variable {store : WorkspaceStore} {yaml : Yaml} {m : BTreeMap RequestSpec} {s s' : Fs} {id text : String}
variable {request r : RequestSpec}

theorem exists_of_mem (hid : id ∈ m) : ∃ r, m[id]? = some r :=
  Option.isSome_iff_exists.mp (Std.ExtTreeMap.mem_iff_isSome_getElem?.mp hid)

theorem Fresh.represents (h : Fresh store s) : Represents store yaml ∅ s where
  workspace := h.workspace
  place := h.place
  normal hr := by cases hr
  file hr := by cases hr
  only hn hs := by
    rw [h.empty _ hn] at hs
    cases hs

theorem isName_fileNameOf (hv : validateId id = .ok ()) : IsName (fileNameOf id) := by
  have hlen : 5 ≤ (fileNameOf id).length := by
    rw [fileNameOf, UnixPath.length_ofText_append]
    exact Nat.le_add_left 5 _
  refine ⟨fun h => ?_, noSeparator_of_valid hv, fun h => ?_, fun h => ?_⟩ <;> simp [h] at hlen

theorem isName_tmpNameOf (hv : validateId id = .ok ()) : IsName (tmpNameOf id) := by
  have hlen : 4 ≤ (tmpNameOf id).length := by
    rw [tmpNameOf, UnixPath.length_ofText_append]
    exact Nat.le_add_left 4 _
  refine ⟨fun h => ?_, noSeparator_tmp hv, fun h => ?_, fun h => ?_⟩ <;> simp [h] at hlen

theorem inRequests_requestPath (hv : validateId id = .ok ()) : InRequests store (store.requestPath id) :=
  ⟨_, isName_fileNameOf hv, requestPath_eq hv⟩

/-- The temporary file of a request is next to it only where the path of the store is
UTF-8. -/
theorem inRequests_tmpPath_iff (hv : validateId id = .ok ()) :
    InRequests store (tmpPath (store.requestPath id)) ↔ IsText store.root := by
  refine ⟨?_, fun hroot => ⟨_, isName_tmpNameOf hv, tmpPath_eq hroot hv⟩⟩
  rintro ⟨name, hname, heq⟩
  have hparent : parent (tmpPath (store.requestPath id)) = store.shownDir := parent_tmpPath hv
  rw [heq, UnixPath.parent_child hname.noSeparator] at hparent
  exact isText_requestsDir.mp hparent.symm

namespace Represents

theorem ensured (h : Represents store yaml m s) : ensured store s = .ok () := if_pos h.workspace

theorem valid (h : Represents store yaml m s) (hid : m[id]? = some r) : validateId id = .ok () := by
  obtain ⟨hr, rfl⟩ := h.normal hid
  exact hr.validId

/-- There is a file for the requests that there are. -/
theorem look_isSome (h : Represents store yaml m s) (hv : validateId id = .ok ()) :
    (s.look (store.requestPath id)).isSome ↔ id ∈ m := by
  constructor
  · intro hs
    rw [requestPath_eq hv] at hs
    obtain ⟨id', hid', hname⟩ := h.only (noSeparator_of_valid hv) hs
    rwa [UnixPath.eq_of_ofText_append hname]
  · intro hid
    obtain ⟨r, hr⟩ := exists_of_mem hid
    obtain ⟨text, -, hfile⟩ := h.file hr
    rw [hfile]
    rfl

theorem look_tmpPath (h : Represents store yaml m s) (hroot : IsText store.root) (hv : validateId id = .ok ()) :
    s.look (tmpPath (store.requestPath id)) = none := by
  rw [← Option.not_isSome_iff_eq_none]
  intro hs
  have hext : extension (tmpPath (store.requestPath id)) = some (ofText "tmp") := extension_tmpPath hv
  rw [tmpPath_eq hroot hv] at hs hext
  obtain ⟨id', hid', hname⟩ := h.only (noSeparator_tmp hv) hs
  obtain ⟨r, hr⟩ := exists_of_mem hid'
  rw [hname, ← requestPath_eq (h.valid hr), extension_requestPath (h.valid hr)] at hext
  exact absurd hext (by decide)

theorem canReplace (h : Represents store yaml m s) (hroot : IsText store.root) (hid : m[id]? = some r) :
    CanReplace s (store.requestPath id) := by
  have hv := h.valid hid
  obtain ⟨text, -, hfile⟩ := h.file hid
  refine ⟨⟨?_, fun _ => ?_⟩, ?_, ?_⟩
  · rw [h.look_tmpPath hroot hv]
    exact nofun
  · rw [tmpPath_eq hroot hv, UnixPath.parent_child (noSeparator_tmp hv)]
    exact h.place
  · rw [hfile]
    exact nofun
  · rw [parent_requestPath hv]
    exact h.place

/-- A request is written under its id. -/
theorem insert (h : Represents store yaml m s) (hv : validateId id = .ok ()) (hr : r.Normal) (hid : r.id = id)
    (ht : yaml.toYaml r = .ok text)
    (hlook : s'.look = update s.look (store.requestPath id) (some (.file (Str.encode text.toList)))) :
    Represents store yaml (m.insert id r) s' where
  workspace := by
    rw [hlook, Function.update_of_ne (requestPath_ne_workspaceFile hv).symm]
    exact h.workspace
  place := by
    rw [hlook, Function.update_of_ne (requestPath_ne_requestsDir hv).symm]
    exact h.place
  normal {id' r'} h' := by
    by_cases he : id = id'
    · subst he
      rw [Std.ExtTreeMap.getElem?_insert_self, Option.some.injEq] at h'
      exact h' ▸ ⟨hr, hid⟩
    · rw [Std.ExtTreeMap.getElem?_insert, if_neg (by simpa using he)] at h'
      exact h.normal h'
  file {id' r'} h' := by
    by_cases he : id = id'
    · subst he
      rw [Std.ExtTreeMap.getElem?_insert_self, Option.some.injEq] at h'
      subst h'
      exact ⟨text, ht, by rw [hlook, Function.update_self]⟩
    · rw [Std.ExtTreeMap.getElem?_insert, if_neg (by simpa using he)] at h'
      rw [hlook, Function.update_of_ne fun hp => he (requestPath_injective (h.valid h') hv hp).symm]
      exact h.file h'
  only {name} hn hs := by
    by_cases he : name = fileNameOf id
    · exact ⟨id, Std.ExtTreeMap.mem_insert_self, he⟩
    · rw [hlook, requestPath_eq hv, Function.update_of_ne fun hp => he (UnixPath.child_injective hp)] at hs
      obtain ⟨id', hid', hname⟩ := h.only hn hs
      exact ⟨id', Std.ExtTreeMap.mem_insert.mpr (.inr hid'), hname⟩

/-- The file of a request is gone. -/
theorem erase (h : Represents store yaml m s) (hv : validateId id = .ok ())
    (hlook : s'.look = update s.look (store.requestPath id) none) : Represents store yaml (m.erase id) s' where
  workspace := by
    rw [hlook, Function.update_of_ne (requestPath_ne_workspaceFile hv).symm]
    exact h.workspace
  place := by
    rw [hlook, Function.update_of_ne (requestPath_ne_requestsDir hv).symm]
    exact h.place
  normal {id' r'} h' := by
    rw [Std.ExtTreeMap.getElem?_erase] at h'
    split at h'
    · cases h'
    · exact h.normal h'
  file {id' r'} h' := by
    rw [Std.ExtTreeMap.getElem?_erase] at h'
    split at h'
    · cases h'
    · rename_i he
      rw [hlook, Function.update_of_ne fun hp => he ?_]
      · exact h.file h'
      · exact Std.ReflCmp.cmp_eq_of_eq (requestPath_injective (h.valid h') hv hp).symm
  only {name} hn hs := by
    rw [hlook, requestPath_eq hv] at hs
    by_cases he : name = fileNameOf id
    · rw [he, Function.update_self] at hs
      cases hs
    · rw [Function.update_of_ne fun hp => he (UnixPath.child_injective hp)] at hs
      obtain ⟨id', hid', hname⟩ := h.only hn hs
      refine ⟨id', Std.ExtTreeMap.mem_erase.mpr ⟨fun hc => he ?_, hid'⟩, hname⟩
      rw [hname, Std.LawfulEqCmp.eq_of_compare hc]

end Represents

/-! ## One call -/

variable (store yaml) in
/-- The call has answered as on the map, and the file system shows the map after it. -/
def Shows (result : Answer × BTreeMap RequestSpec) (answer : Answer) (s' : Fs) : Prop :=
  answer = result.1 ∧ Represents store yaml result.2 s'

theorem confined_of_looks {op : Fs.Op} (h : Looks op) : Confined store s op := by
  cases op <;> trivial

theorem vacant_eq (hv : validateId id = .ok ()) :
    vacant m id = if id ∈ m then .error requestAlreadyExists else .ok () := by
  rw [vacant, hv]
  rfl

theorem present_eq_ok : present m id = .ok () ↔ validateId id = .ok () ∧ id ∈ m := by
  rw [present, Core.bind_eq_ok, ite_eq_left_iff]
  simp only [reduceCtorEq, imp_false, not_not]

theorem toYaml_ok (hback : yaml.ReadsBack) (r : RequestSpec) : ∃ text, yaml.toYaml r = .ok text := by
  obtain ⟨text, hw, -⟩ := hback r
  exact ⟨text, by rw [Yaml.toYaml, hw]; rfl⟩

theorem safe_create (hback : yaml.ReadsBack) (h : Represents store yaml m s) (hr : request.Normal) :
    Safe (Fs.world false) (Confined store) (Shows store yaml ((StoreCall.create request).onMap m))
      ((StoreCall.create request).run store yaml) s := by
  have hv := hr.validId
  have hmem := h.look_isSome hv
  rw [StoreCall.run, Prog.safe_map, StoreCall.onMap, vacant_eq hv]
  refine safe_createRequest (fun _ => confined_of_looks) (inRequests_requestPath hv)
    (fun _ fd w _ s' _ hs => ⟨_, w, inRequests_requestPath hv, hs.writing⟩) (fun text s' hc hlook => ?_)
    (fun error hcause => ?_) fun hf => absurd hf Bool.false_ne_true
  · have hno : request.id ∉ m := fun hid => by simpa [hc.absent] using hmem.mpr hid
    rw [if_neg hno]
    exact ⟨rfl, h.insert hv hr rfl (createText_eq_ok.mp hc.text).2.2 hlook⟩
  · rcases hcause rfl with he | ⟨e, he, rfl⟩
    · obtain ⟨text, ht⟩ := toYaml_ok hback request
      cases he.symm.trans (createText_eq_ok.mpr ⟨h.ensured, hv, ht⟩)
    · have hsome : s.look (store.requestPath request.id) ≠ none := fun hnone => by
        obtain ⟨s', hs', -⟩ := Fs.createNew_of_none hnone (by rw [parent_requestPath hv]; exact h.place)
        cases he.symm.trans hs'
      cases (Fs.createNew_of_some hsome).symm.trans he
      rw [if_pos (hmem.mp (Option.isSome_iff_ne_none.mpr hsome))]
      exact ⟨rfl, h⟩

/-- The text of an update, where there is a request. -/
theorem Represents.updateText_eq (h : Represents store yaml m s) :
    updateText store yaml s id request = present m id >>= fun _ => yaml.toYaml { request with id } := by
  rw [updateText, present, h.ensured]
  cases hv : validateId id with
  | error error => rfl
  | ok =>
    have hmem := h.look_isSome hv
    by_cases hid : id ∈ m
    · simp only [hmem.mpr hid, hid, if_true]
      rfl
    · simp only [Bool.eq_false_iff.mpr (mt hmem.mp hid), hid, if_false, Bool.false_eq_true]
      rfl

theorem safe_update (hback : yaml.ReadsBack) (h : Represents store yaml m s) (hr : request.Normal)
    (hplace : IsText store.root ∨ (StoreCall.update id request).replaces m = false) :
    Safe (Fs.world false) (Confined store) (Shows store yaml ((StoreCall.update id request).onMap m))
      ((StoreCall.update id request).run store yaml) s := by
  obtain ⟨written, ht'⟩ := toYaml_ok hback { request with id }
  have hroot {text : String} (ht : updateText store yaml s id request = .ok text) : IsText store.root := by
    rw [h.updateText_eq, Core.bind_eq_ok] at ht
    exact hplace.resolve_right fun hno => of_decide_eq_false hno ht.1
  rw [StoreCall.run, Prog.safe_map, StoreCall.onMap]
  refine safe_updateRequest (fun _ => confined_of_looks) (fun text s' op ht hop _ => ?_)
    (fun text s' ht hcan hlook => ?_) (fun error he => ?_) fun text error s' ht hcant hs => ?_
  · have htmp := (inRequests_tmpPath_iff (updateText_valid ht)).mpr (hroot ht)
    cases op with
    | create p => exact hop ▸ htmp
    | write fd bytes =>
      obtain ⟨written, hw⟩ := hop
      exact ⟨_, written, htmp, hw⟩
    | rename p q => exact ⟨hop.1 ▸ htmp, hop.2 ▸ inRequests_requestPath (updateText_valid ht)⟩
    | sync fd => trivial
    | _ => exact hop.elim
  · have hv := updateText_valid ht
    have hnone := h.look_tmpPath (hroot ht) hv
    rw [h.updateText_eq, Core.bind_eq_ok] at ht
    rw [ht.1]
    refine ⟨rfl, h.insert hv (hr.withId hv) rfl ht.2 ?_⟩
    rw [hlook, replaced, ← hnone, Function.update_eq_self]
  · have he := he rfl
    rw [h.updateText_eq, Core.bind_eq_error, ht'] at he
    rw [he.resolve_right fun h => by cases h.2]
    exact ⟨rfl, h⟩
  · have htext := hroot ht
    rw [h.updateText_eq, Core.bind_eq_ok] at ht
    obtain ⟨r, hr⟩ := exists_of_mem (present_eq_ok.mp ht.1).2
    exact absurd (h.canReplace htext hr) (hcant rfl)

/-- A call that comes to replace a request creates its temporary file. -/
theorem isText_of_replaces (hback : yaml.ReadsBack) (h : Represents store yaml m s) {call : StoreCall}
    {Q : Answer → Fs → Prop} (hreplaces : call.replaces m = true)
    (hsafe : Safe (Fs.world false) (Confined store) Q (call.run store yaml) s) : IsText store.root := by
  cases call with
  | update id request =>
    obtain ⟨hv, hid⟩ := present_eq_ok.mp (of_decide_eq_true hreplaces)
    obtain ⟨text, ht⟩ := toYaml_ok hback { request with id }
    rw [StoreCall.run, Prog.safe_map, WorkspaceStore.updateRequest, Prog.safe_run_bind,
      reads_ensureWorkspace store s _ _ fun _ => confined_of_looks, h.ensured] at hsafe
    simp only [Prog.onOk, Prog.safe_run_bind, safe_liftExcept, hv,
      Reads.exists_ (store.requestPath id) _ _ fun _ => confined_of_looks, (h.look_isSome hv).mpr hid, if_true, ht,
      atomicWrite, Bool.false_eq_true, if_false] at hsafe
    exact (inRequests_tmpPath_iff hv).mp hsafe.1
  | create | delete | load | list => cases hreplaces

theorem safe_delete (h : Represents store yaml m s) :
    Safe (Fs.world false) (Confined store) (Shows store yaml ((StoreCall.delete id).onMap m))
      ((StoreCall.delete id).run store yaml) s := by
  rw [StoreCall.run, Prog.safe_map, StoreCall.onMap, WorkspaceStore.deleteRequest, Prog.safe_run_bind,
    reads_ensureWorkspace store s _ _ fun _ => confined_of_looks, h.ensured]
  simp only [Prog.onOk, Prog.safe_run_bind, safe_liftExcept]
  cases hv : validateId id with
  | error error =>
    have hp : present m id = .error error := by
      rw [present, hv]
      rfl
    rw [hp]
    exact ⟨rfl, h⟩
  | ok =>
    simp only [Reads.exists_ (store.requestPath id) _ _ fun _ => confined_of_looks]
    have hmem := h.look_isSome hv
    by_cases hid : id ∈ m
    · have hp : present m id = .ok () := present_eq_ok.mpr ⟨hv, hid⟩
      rw [hp, hmem.mpr hid]
      refine ⟨inRequests_requestPath hv, fun ans s' hw => ?_⟩
      obtain ⟨r, hr⟩ := exists_of_mem hid
      obtain ⟨text, -, hfile⟩ := h.file hr
      obtain ⟨s₁, hs₁, hlook⟩ := Fs.remove_of_file hfile
      cases (Fs.world_remove hw).trans hs₁
      exact ⟨rfl, h.erase hv hlook⟩
    · have hp : present m id = .error (requestNotFound id) := by
        rw [present, hv]
        exact if_neg hid
      rw [hp, Bool.eq_false_iff.mpr (mt hmem.mp hid)]
      exact ⟨rfl, h⟩

/-! ## Reading -/

theorem Represents.loadResult_eq (hback : yaml.ReadsBack) (h : Represents store yaml m s) :
    loadResult store yaml s id = (do validateId id; Core.okOr m[id]? (requestNotFound id)) := by
  cases hv : validateId id with
  | error error =>
    rw [loadResult, h.ensured, hv]
    rfl
  | ok =>
    cases hid : m[id]? with
    | some r =>
      obtain ⟨text, ht, hfile⟩ := h.file hid
      rw [loadResult_of_file h.ensured hv hfile, String.ofList_toList, hback.fromYaml ht (h.normal hid).1]
      rfl
    | none =>
      have hnone : s.look (store.requestPath id) = none := by
        rw [← Option.not_isSome_iff_eq_none, h.look_isSome hv, Std.ExtTreeMap.mem_iff_isSome_getElem?, hid]
        exact Bool.false_ne_true
      rw [loadResult, h.ensured, hv, textAt, Fs.read, hnone]
      rfl

/-- Each entry is the file of a request. -/
theorem Represents.entriesResult_eq (hback : yaml.ReadsBack) (h : Represents store yaml m s) {names : List Name}
    (hnames : ∀ name ∈ names, ∃ id r, m[id]? = some r ∧ name = fileNameOf id) :
    ∃ rs, entriesResult store yaml s names = .ok rs ∧ rs.map (fun r => fileNameOf r.id) = names ∧
      ∀ r ∈ rs, m[r.id]? = some r := by
  induction names with
  | nil => exact ⟨[], rfl, rfl, nofun⟩
  | cons name names ih =>
    obtain ⟨id, r, hr, rfl⟩ := hnames name List.mem_cons_self
    obtain ⟨rs, hrs, hmap, hmem⟩ := ih fun n hn => hnames n (List.mem_cons_of_mem _ hn)
    obtain ⟨hnormal, rfl⟩ := h.normal hr
    obtain ⟨text, ht, hfile⟩ := h.file hr
    refine ⟨r :: rs, ?_, by rw [List.map_cons, hmap], fun r' hr' => ?_⟩
    · have hpath : join store.requestsDir (fileNameOf r.id) = store.requestPath r.id := rfl
      rw [entriesResult, hpath, if_pos (extension_requestPath (h.valid hr)), textAt_of_file hfile,
        String.ofList_toList, hrs]
      simp only [Except.mapError, bind, Except.bind, hback.fromYaml ht hnormal]
      rfl
    · rcases List.mem_cons.mp hr' with rfl | hr'
      · exact hr
      · exact hmem r' hr'

/-- The values of the map are in the order of their ids. -/
theorem Represents.values_sorted (h : Represents store yaml m s) :
    (m.toList.map Prod.snd).Pairwise fun a b => compare a.id b.id = .lt := by
  rw [List.pairwise_map]
  refine Std.ExtTreeMap.ordered_keys_toList.imp_of_mem fun ha hb hlt => ?_
  rw [(h.normal (Std.ExtTreeMap.mem_toList_iff_getElem?_eq_some.mp ha)).2,
    (h.normal (Std.ExtTreeMap.mem_toList_iff_getElem?_eq_some.mp hb)).2]
  exact hlt

theorem Represents.mem_values (h : Represents store yaml m s) : r ∈ m.toList.map Prod.snd ↔ m[r.id]? = some r := by
  simp only [List.mem_map, Prod.exists, exists_eq_right, Std.ExtTreeMap.mem_toList_iff_getElem?_eq_some]
  refine ⟨fun ⟨id, hr⟩ => ?_, fun hr => ⟨_, hr⟩⟩
  rwa [(h.normal hr).2]

theorem Represents.listResult_eq (hback : yaml.ReadsBack) (h : Represents store yaml m s) {names : List Name}
    (hperm : names.Perm (s.entries store.requestsDir)) :
    listResult store yaml s names = .ok (m.toList.map Prod.snd) := by
  have hnames : ∀ name ∈ names, ∃ id r, m[id]? = some r ∧ name = fileNameOf id := fun name hn => by
    obtain ⟨hsep, hs⟩ := Fs.mem_entries.mp (hperm.mem_iff.mp hn)
    obtain ⟨id, hid, hname⟩ := h.only hsep hs
    obtain ⟨r, hr⟩ := exists_of_mem hid
    exact ⟨id, r, hr, hname⟩
  obtain ⟨rs, hrs, hmap, hmem⟩ := h.entriesResult_eq hback hnames
  have hvalues := h.values_sorted
  -- the requests read are those of the map, in another order
  have hrsPerm : rs.Perm (m.toList.map Prod.snd) := by
    refine (List.perm_ext_iff_of_nodup ?_ (hvalues.imp fun hlt he => ?_)).mpr fun r => ?_
    · exact List.Nodup.of_map _ (hmap ▸ hperm.nodup_iff.mpr (Fs.nodup_entries s _))
    · cases hlt.symm.trans (Std.ReflCmp.cmp_eq_of_eq (congrArg RequestSpec.id he))
    · rw [h.mem_values]
      refine ⟨hmem r, fun hr => ?_⟩
      have hv := h.valid hr
      have hname : fileNameOf r.id ∈ names := by
        refine hperm.mem_iff.mpr (Fs.mem_entries.mpr ⟨noSeparator_of_valid hv, ?_⟩)
        obtain ⟨text, -, hfile⟩ := h.file hr
        rw [← requestPath_eq hv, hfile]
        rfl
      rw [← hmap, List.mem_map] at hname
      obtain ⟨r', hr', hname⟩ := hname
      have hid : r'.id = r.id := UnixPath.eq_of_ofText_append hname
      have hr'' := hmem r' hr'
      rw [hid, hr] at hr''
      cases hr''
      exact hr'
  have hsort : rs.mergeSort (fun left right => (compare left.id right.id).isLE) = m.toList.map Prod.snd := by
    refine List.Perm.eq_of_pairwise (fun a b ha hb hab hba => ?_)
      (List.pairwise_mergeSort (fun _ _ _ => Std.TransCmp.isLE_trans) (fun a b => ?_) rs) (hvalues.imp fun hlt => ?_)
      ((List.mergeSort_perm rs _).trans hrsPerm)
    · have hid : a.id = b.id := Std.LawfulEqCmp.eq_of_compare (Std.OrientedCmp.isLE_antisymm hab hba)
      have ha' := hmem a (List.mem_mergeSort.mp ha)
      rw [hid, h.mem_values.mp hb] at ha'
      exact (Option.some.inj ha').symm
    · have hswap : compare a.id b.id = (compare b.id a.id).swap := Std.OrientedCmp.eq_swap
      rw [hswap]
      cases compare b.id a.id <;> rfl
    · rw [hlt]
      rfl
  rw [listResult, h.ensured, h.place, Fs.readDir, h.place]
  simp only [Option.isSome_some, if_true, Except.mapError, bind, Except.bind, hrs, hsort]
  rfl

/-! ## Any calls -/

/-- One call answers as on the map, if its temporary file has its place. -/
theorem safe_call (hback : yaml.ReadsBack) (h : Represents store yaml m s) {call : StoreCall}
    (hcall : call.Obtained) (hplace : IsText store.root ∨ call.replaces m = false) :
    Safe (Fs.world false) (Confined store) (Shows store yaml (call.onMap m)) (call.run store yaml) s := by
  cases call with
  | create request => exact safe_create hback h hcall.normal
  | update id request => exact safe_update hback h hcall.normal hplace
  | delete id => exact safe_delete h
  | load id =>
    rw [StoreCall.run, Prog.safe_map, reads_loadRequest store yaml s id _ _ fun _ => confined_of_looks,
      h.loadResult_eq hback]
    exact ⟨rfl, h⟩
  | list =>
    rw [StoreCall.run, Prog.safe_map, safe_listRequests fun _ => confined_of_looks]
    intro names hperm
    rw [h.listResult_eq hback hperm]
    exact ⟨rfl, h⟩

/-- So do calls one after the other. -/
theorem safe_session (hback : yaml.ReadsBack) {calls : List StoreCall} (hcalls : ∀ call ∈ calls, call.Obtained)
    (h : Represents store yaml m s) (hplace : IsText store.root ∨ anyReplaces calls m = false) :
    Safe (Fs.world false) (Confined store) (fun answers _ => answers = sessionOnMap calls m)
      (session store yaml calls) s := by
  induction calls generalizing m s with
  | nil => exact rfl
  | cons call calls ih =>
    rw [anyReplaces, Bool.or_eq_false_iff] at hplace
    rw [session, Prog.safe_bind]
    refine (safe_call hback h (hcalls call List.mem_cons_self) (hplace.imp_right And.left)).mono
      fun answer s₁ hshows => ?_
    obtain ⟨rfl, h₁⟩ := hshows
    rw [Prog.safe_bind]
    refine (ih (fun c hc => hcalls c (List.mem_cons_of_mem _ hc)) h₁ (hplace.imp_right And.right)).mono
      fun answers s' hanswers => ?_
    rw [hanswers]
    exact rfl

/-- Calls that stay among the requests have places for their temporary files. -/
theorem placed_of_safe (hback : yaml.ReadsBack) {calls : List StoreCall} (hcalls : ∀ call ∈ calls, call.Obtained)
    (h : Represents store yaml m s) {Q : List Answer → Fs → Prop}
    (hsafe : Safe (Fs.world false) (Confined store) Q (session store yaml calls) s) :
    IsText store.root ∨ anyReplaces calls m = false := by
  induction calls generalizing m s Q with
  | nil => exact .inr rfl
  | cons call calls ih =>
    rw [session, Prog.safe_bind] at hsafe
    cases hreplaces : call.replaces m with
    | true => exact .inl (isText_of_replaces hback h hreplaces hsafe)
    | false =>
      -- the call comes to an end, and the others go on from there
      obtain ⟨answer, s₁, hr⟩ :=
        Prog.exists_done (fun s op => ⟨_, _, Fs.world_apply s op false⟩) (call.run store yaml) s
      obtain ⟨-, h₁⟩ := (safe_call hback h (hcalls call List.mem_cons_self) (.inr hreplaces)).done hr
      have hrest := hsafe.done hr
      rw [Prog.safe_bind] at hrest
      refine (ih (fun c hc => hcalls c (List.mem_cons_of_mem _ hc)) h₁ hrest).imp_right fun hno => ?_
      rw [anyReplaces, hreplaces, hno]
      rfl

end

/-- Any calls on a fresh workspace answer, without faults, as the calls on the empty
map, come to an end, and create, write, rename and remove nothing but direct children of
the requests directory, exactly when the path of the store is UTF-8 or none of them
comes to replace a request. -/
theorem session_refines_iff (store : WorkspaceStore) (yaml : Yaml) (hback : yaml.ReadsBack) {s : Fs}
    (hfresh : Fresh store s) {calls : List StoreCall} (hcalls : ∀ call ∈ calls, call.Obtained) :
    ((∃ answers s', Runs (Fs.world false) (session store yaml calls, s) (.done answers, s')) ∧
      (∀ answers s', Runs (Fs.world false) (session store yaml calls, s) (.done answers, s') →
        answers = sessionOnMap calls ∅) ∧
      ∀ op k s', Runs (Fs.world false) (session store yaml calls, s) (.ask op k, s') → Confined store s' op) ↔
    IsText store.root ∨ anyReplaces calls ∅ = false := by
  constructor
  · rintro ⟨-, -, hasks⟩
    exact placed_of_safe hback hcalls hfresh.represents (Prog.safe_of_asks hasks)
  · intro hplace
    have hsafe := safe_session hback hcalls hfresh.represents hplace
    exact ⟨Prog.exists_done (fun s op => ⟨_, _, Fs.world_apply s op false⟩) _ s, fun answers s' hr => hsafe.done hr,
      fun op k s' hr => (hsafe.runs hr).1⟩

theorem fresh_fresh (store : WorkspaceStore) : Fresh store store.fresh where
  workspace := by
    rw [Fs.look_isSome, WorkspaceStore.fresh, AList.lookup_insert]
    rfl
  place := by
    have hne : store.requestsDir ≠ store.workspaceFile := by
      rw [WorkspaceStore.requestsDir_eq, WorkspaceStore.workspaceFile_eq]
      exact fun h => absurd (UnixPath.child_injective h) (by decide)
    rw [Fs.look_eq_dir, WorkspaceStore.fresh, AList.lookup_insert_ne hne, AList.lookup_insert]
  empty name hn := by
    have hne : child store.requestsDir name ≠ store.metadataDir := fun h => by
      have hlen := congrArg List.length h
      rw [WorkspaceStore.requestsDir_eq] at hlen
      simp [child] at hlen
    rw [Fs.look_eq_none, WorkspaceStore.fresh, AList.lookup_insert_ne (WorkspaceStore.child_ne_workspaceFile hn),
      AList.lookup_insert_ne UnixPath.child_ne_self, AList.lookup_insert_ne hne]
    rfl

theorem obtained_sampleRequest : sampleRequest.Obtained :=
  @RequestSpec.Obtained.json sampleRequest
    (fun _ => .ok { inputOf sampleRequest with method := none, body := none }) 0
    "\x7b\"id\":\"req-a\",\"name\":\"A\",\"url\":\"http://localhost\"\x7d" (by decide +kernel)

/-- A request is created twice and replaced, and an id is asked for that leads out of
the directory. -/
def sampleCalls : List StoreCall :=
  [.create sampleRequest, .create sampleRequest, .load "../x", .update "req-a" sampleRequest, .list]

theorem obtained_sampleCalls : ∀ call ∈ sampleCalls, call.Obtained := by
  intro call hcall
  simp only [sampleCalls, List.mem_cons, List.not_mem_nil, or_false] at hcall
  rcases hcall with rfl | rfl | rfl | rfl | rfl
  · exact obtained_sampleRequest
  · exact obtained_sampleRequest
  · trivial
  · exact obtained_sampleRequest
  · trivial

/-- `session_refines_iff` on these calls. -/
theorem session_refines_sample : ∃ answers s',
    Runs (Fs.world false) (session sampleStore sampleYaml sampleCalls, sampleStore.fresh) (.done answers, s') ∧
    answers = [.done (.ok ()), .done (.error requestAlreadyExists),
      .request (.error ((Core.requestError "id must not contain '..'" "id").withHint
        "ids may contain only letters, digits, '.', '-', and '_'.")), .done (.ok ()),
      .requests (.ok [sampleRequest])] := by
  obtain ⟨⟨answers, s', hr⟩, hrefines, -⟩ :=
    (session_refines_iff sampleStore sampleYaml sampleYaml_readsBack (fresh_fresh sampleStore)
      obtained_sampleCalls).mpr (.inl (by decide +kernel))
  exact ⟨answers, s', hr, (hrefines answers s' hr).trans (by decide +kernel)⟩

/-- A root that is not UTF-8: its name is the byte 0xFF. -/
def bytesStore : WorkspaceStore := ⟨[separator, 0xFF]⟩

/-- There the update of a stored request looks for its temporary file in another
directory, which is not there, and fails. -/
theorem update_elsewhere : ¬ ∀ (store : WorkspaceStore) (yaml : Yaml) (s : Fs) (calls : List StoreCall),
    yaml.ReadsBack → Fresh store s → (∀ call ∈ calls, call.Obtained) →
    ∀ answers s', Runs (Fs.world false) (session store yaml calls, s) (.done answers, s') →
      answers = sessionOnMap calls ∅ := by
  intro h
  have hplay : ∃ x ∈ Prog.play (fun s op => some (s.apply op)) (session bytesStore sampleYaml sampleCalls)
      bytesStore.fresh, x.1 ≠ sessionOnMap sampleCalls ∅ := by
    decide +kernel
  obtain ⟨⟨answers, s'⟩, hplay, hne⟩ := hplay
  refine hne (h bytesStore sampleYaml bytesStore.fresh sampleCalls sampleYaml_readsBack (fresh_fresh bytesStore)
    obtained_sampleCalls answers s' (.of_play (fun s op ans s' hans => ?_) hplay))
  exact ⟨.plain, nofun, hans⟩

end WireSurge.Storage
