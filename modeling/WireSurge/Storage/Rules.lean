import WireSurge.Storage.Store

/-!
# Rules for the store

What holds along the steps of which the calls of the store are made, for a file
system without faults and with any (`Fs.world faults`). A file that is written
grows from nothing (`Growing`); a replacement leaves everything but the
temporary file as it was until its rename (`safe_replace`). What is read
depends on what names show alone (`textAt`).
-/

namespace WireSurge.Storage

open WireSurge.Core (RequestSpec WireSurgeError validateId)
open Fs (Bytes)
open Function (update)
open Prog (Safe)
open UnixPath (child display extension join ofText parent)

/-- What `ensure_workspace` gives. -/
def ensured (store : WorkspaceStore) (s : Fs) : Except WireSurgeError Unit :=
  if (s.look store.workspaceFile).isSome then .ok () else .error workspaceNotFound

/-- The operations that only look. -/
def Looks : Fs.Op → Prop
  | .exists_ _ | .isDir _ | .read _ | .readDir _ => True
  | _ => False

section

variable {σ α : Type} {world : Prog.World Fs.Op Fs.Ans σ} {J : σ → Fs.Op → Prop}
variable {R : Except WireSurgeError α → σ → Prop}
variable {t : σ}

@[simp] theorem safe_ask {op : Fs.Op} {R : Except WireSurgeError (Fs.Ans op) → σ → Prop} :
    Safe world J R (ask op).run t ↔ J t op ∧ ∀ ans t', world t op ans t' → R (.ok ans) t' :=
  Prog.safe_run_lift.trans Prog.safe_request

@[simp] theorem safe_liftExcept {x : Except WireSurgeError α} :
    Safe world J R (liftExcept x : FsM α).run t ↔ R x t := by
  cases x <;> exact Iff.rfl

@[simp] theorem safe_mapErr {onError : Fs.IoError → WireSurgeError} {x : Except Fs.IoError α} :
    Safe world J R (mapErr onError x).run t ↔ R (x.mapError onError) t := by
  cases x <;> exact Iff.rfl

end

section

variable {faults : Bool} {I : Fs → Fs.Op → Prop} {α : Type} {Q : Except WireSurgeError α → Fs → Prop} {s : Fs}

theorem safe_ensureWorkspace {store : WorkspaceStore} {Q : Except WireSurgeError Unit → Fs → Prop}
    (hI : I s (.exists_ store.workspaceFile)) (hok : ensured store s = .ok () → Q (.ok ()) s)
    (herr : ∀ error, (faults = false → ensured store s = .error error) → Q (.error error) s) :
    Safe (Fs.world faults) I Q store.ensureWorkspace.run s := by
  rw [WorkspaceStore.ensureWorkspace, Prog.safe_run_bind, safe_ask]
  refine ⟨hI, fun ans s' hw => ?_⟩
  obtain ⟨rfl, htrue, hexact⟩ := Fs.world_exists hw
  cases ans with
  | true => exact hok (if_pos (htrue rfl))
  | false => exact herr _ fun hf => if_neg (by simp [← hexact hf])

/-! ## Writing -/

/-- The file at `path` is being written, holds `written` so far, and all other
names show what they did in `base`. -/
structure Growing (base : UnixPath → Option Fs.Entry) (fd : Nat) (path : UnixPath) (written : Bytes) (s : Fs) :
    Prop where
  writing : s.Writing fd path written
  look : s.look = update base path (some (.file written))

theorem safe_writeRounds {base : UnixPath → Option Fs.Entry} {fd : Nat} {path : UnixPath} {content : Bytes}
    {Q : Except WireSurgeError Unit → Fs → Prop}
    (hI : ∀ w rest s, Growing base fd path w s → w ++ rest = content → I s (.write fd rest))
    (hok : ∀ s, Growing base fd path content s → Q (.ok ()) s)
    (herr : faults = true → ∀ w error s, w <+: content → Growing base fd path w s → Q (.error error) s) :
    ∀ {rounds : Nat} {bytes written : Bytes} {s : Fs}, bytes.length ≤ rounds → written ++ bytes = content →
      Growing base fd path written s → Safe (Fs.world faults) I Q (writeRounds fd rounds bytes).run s := by
  intro rounds
  induction rounds with
  | zero =>
    intro bytes written s hlen hc hs
    obtain rfl := List.length_eq_zero_iff.mp (Nat.le_zero.mp hlen)
    rw [List.append_nil] at hc
    exact hok s (hc ▸ hs)
  | succ rounds ih =>
    intro bytes written s hlen hc hs
    rw [writeRounds]
    split
    · rename_i hnil
      rw [hnil, List.append_nil] at hc
      exact hok s (hc ▸ hs)
    · rename_i hne
      rw [Prog.safe_run_bind, safe_ask]
      refine ⟨hI _ _ _ hs hc, fun ans s' hw => ?_⟩
      obtain ⟨n, hn, hwriting, hlook, hans⟩ := Fs.world_write hs.writing hw
      have hgrow : Growing base fd path (written ++ bytes.take n) s' :=
        ⟨hwriting, by rw [hlook, hs.look, Function.update_idem]⟩
      have hsplit : written ++ bytes.take n ++ bytes.drop n = content := by
        rw [List.append_assoc, List.take_append_drop, hc]
      rcases hans with ⟨rfl, hpos⟩ | ⟨hf, error, rfl⟩
      · have hn0 : n ≠ 0 := (hpos hne).ne'
        simp only [Prog.onOk, Prog.safe_run_bind, safe_mapErr, Except.mapError, hn0, if_false]
        exact ih (by rw [List.length_drop]; omega) hsplit hgrow
      · simp only [Prog.onOk, Prog.safe_run_bind, safe_mapErr, Except.mapError]
        exact herr hf _ _ _ ⟨_, hsplit⟩ hgrow

theorem safe_writeAll {base : UnixPath → Option Fs.Entry} {fd : Nat} {path : UnixPath} {content : Bytes}
    {Q : Except WireSurgeError Unit → Fs → Prop} (hs : Growing base fd path [] s)
    (hI : ∀ w rest s, Growing base fd path w s → w ++ rest = content → I s (.write fd rest))
    (hok : ∀ s, Growing base fd path content s → Q (.ok ()) s)
    (herr : faults = true → ∀ w error s, w <+: content → Growing base fd path w s → Q (.error error) s) :
    Safe (Fs.world faults) I Q (writeAll fd content).run s :=
  safe_writeRounds hI hok herr le_rfl rfl hs

/-- All names but `path` show what they did. -/
def SameBut (path : UnixPath) (s s' : Fs) : Prop := ∀ p ≠ path, s'.look p = s.look p

theorem SameBut.refl (path : UnixPath) (s : Fs) : SameBut path s s := fun _ _ => rfl

theorem Growing.sameBut {fd : Nat} {path : UnixPath} {written : Bytes} {s' : Fs}
    (h : Growing s.look fd path written s') : SameBut path s s' := fun p hp => by
  rw [h.look, Function.update_of_ne hp]

/-- The operations of a replacement of `path`. -/
def Replaces (path : UnixPath) (s : Fs) : Fs.Op → Prop
  | .create p => p = tmpPath path
  | .write fd _ => ∃ written, s.Writing fd (tmpPath path) written
  | .sync _ => True
  | .rename p q => p = tmpPath path ∧ q = path
  | _ => False

/-- What a replacement needs: a place for the temporary file, and for the file. -/
def CanReplace (s : Fs) (path : UnixPath) : Prop :=
  s.CanCreate (tmpPath path) ∧ s.look path ≠ some .dir ∧ s.look (parent path) = some .dir

/-- What it makes. -/
def replaced (s : Fs) (path : UnixPath) (content : Bytes) : UnixPath → Option Fs.Entry :=
  update (update s.look (tmpPath path) none) path (some (.file content))

theorem tmpPath_ne (path : UnixPath) : tmpPath path ≠ path := by
  intro h
  have hshown := congrArg (fun p => (display p).length) h
  simp [tmpPath, display, Str.lossy_encode] at hshown

/-- A replacement changes nothing but its temporary file, and then all at once. -/
theorem safe_replace {path : UnixPath} {content : Bytes} {Q : Except WireSurgeError Unit → Fs → Prop}
    (htmp : parent path ≠ tmpPath path)
    (hI : ∀ s' op, Replaces path s' op → SameBut (tmpPath path) s s' → I s' op)
    (hok : ∀ s', CanReplace s path → s'.look = replaced s path content → Q (.ok ()) s')
    (herr : ∀ error s', (faults = false → ¬CanReplace s path) → SameBut (tmpPath path) s s' → Q (.error error) s') :
    Safe (Fs.world faults) I Q (atomicWrite path content false).run s := by
  rw [atomicWrite, if_neg Bool.false_ne_true, Prog.safe_run_bind, safe_ask]
  refine ⟨hI _ _ rfl (.refl _ s), fun ans s' hw => ?_⟩
  rcases Fs.world_create hw with ⟨error, rfl, rfl, hcant⟩ | ⟨fd, rfl, hcan, hwriting, hlook⟩
  · simp only [Prog.onOk, Prog.safe_run_bind, safe_mapErr, Except.mapError]
    exact herr _ _ (fun hf h => hcant hf h.1) (.refl _ _)
  simp only [Prog.onOk, Prog.safe_run_bind, safe_mapErr, Except.mapError]
  refine safe_writeAll ⟨hwriting, hlook⟩ (fun w rest s' hs _ => hI _ _ ⟨w, hs.writing⟩ hs.sameBut) (fun s' hs => ?_)
    fun hf w error s' _ hs => herr _ _ (fun h => absurd hf (by simp [h])) hs.sameBut
  refine ⟨hI _ _ trivial hs.sameBut, fun ans s'' hw => ?_⟩
  obtain ⟨rfl, hsync⟩ := Fs.world_sync hw
  cases ans with
  | error error => exact herr _ _ (fun hf => by cases hsync hf) hs.sameBut
  | ok =>
    refine ⟨hI _ _ ⟨rfl, rfl⟩ hs.sameBut, fun ans s₁ hw => ?_⟩
    have htmp' : s''.look (tmpPath path) = some (.file content) := by rw [hs.look, Function.update_self]
    have hpath : s''.look path = s.look path := hs.sameBut _ (tmpPath_ne path).symm
    have hparent : s''.look (parent path) = s.look (parent path) := hs.sameBut _ htmp
    rcases Fs.world_rename hw with ⟨error, rfl, rfl, hcant⟩ | ⟨rfl, content', ⟨hfile, hdir, hplace⟩, hlook'⟩
    · refine herr _ _ (fun hf h => hcant hf content ⟨htmp', ?_, ?_⟩) hs.sameBut
      · rw [hpath]
        exact h.2.1
      · rw [hparent]
        exact h.2.2
    · cases htmp'.symm.trans hfile
      refine hok _ ⟨hcan, hpath ▸ hdir, hparent ▸ hplace⟩ ?_
      rw [hlook', hs.look, Function.update_idem, replaced]

end

/-! ## Calls -/

section

variable (store : WorkspaceStore) (yaml : Yaml) (s : Fs) (id : String) (request : RequestSpec)

/-- The text that `create_request` comes to write. -/
def createText : Except WireSurgeError String := do
  ensured store s
  validateId request.id
  yaml.toYaml request

/-- It comes to write it: no file is there, and there is a place for one. -/
structure Creates (text : String) : Prop where
  text : createText store yaml s request = .ok text
  absent : s.look (store.requestPath request.id) = none
  place : s.look (parent (store.requestPath request.id)) = some .dir

/-- The text that `update_request` comes to write. -/
def updateText : Except WireSurgeError String := do
  ensured store s
  validateId id
  if (s.look (store.requestPath id)).isSome then yaml.toYaml { request with id } else .error (requestNotFound id)

variable {store yaml s id request} {faults : Bool} {I : Fs → Fs.Op → Prop}
variable {Q : Except WireSurgeError Unit → Fs → Prop}

/-- A call that creates a request fails before anything is changed, or writes its file. -/
theorem safe_createRequest (hlook : ∀ op, Looks op → I s op)
    (hopen : I s (.createNew (store.requestPath request.id)))
    (hwrite : ∀ text fd w rest s', Creates store yaml s request text →
      Growing s.look fd (store.requestPath request.id) w s' → I s' (.write fd rest))
    (hok : ∀ text s', Creates store yaml s request text →
      s'.look = update s.look (store.requestPath request.id) (some (.file (Str.encode text.toList))) → Q (.ok ()) s')
    (herr : ∀ error, (faults = false → createText store yaml s request = .error error ∨
      ∃ e, s.createNew (store.requestPath request.id) = (.error e, s) ∧ error = createError e) → Q (.error error) s)
    (hpart : faults = true → ∀ text fd w error s', Creates store yaml s request text →
      Growing s.look fd (store.requestPath request.id) w s' → Q (.error error) s') :
    Safe (Fs.world faults) I Q (store.createRequest yaml request).run s := by
  rw [WorkspaceStore.createRequest, Prog.safe_run_bind]
  refine safe_ensureWorkspace (hlook _ trivial) (fun hens => ?_) fun error he => herr error fun hf => .inl ?_
  · simp only [Prog.onOk, Prog.safe_run_bind, safe_liftExcept]
    cases hv : validateId request.id with
    | error error => exact herr error fun _ => .inl (by simp only [createText, hens, hv]; rfl)
    | ok =>
      simp only
      cases ht : yaml.toYaml request with
      | error error => exact herr error fun _ => .inl (by simp only [createText, hens, hv, ht]; rfl)
      | ok text =>
        have htext : createText store yaml s request = .ok text := by simp only [createText, hens, hv, ht]; rfl
        simp only [atomicWrite, if_true, Prog.safe_run_bind]
        refine ⟨hopen, fun ans s' hw => ?_⟩
        rcases Fs.world_createNew hw with ⟨e, rfl, rfl, hcause⟩ | ⟨fd, rfl, habsent, hplace, hwriting, hshow⟩
        · simp only [Prog.onOk, safe_mapErr, Except.mapError]
          exact herr _ fun hf => .inr ⟨e, hcause hf, rfl⟩
        · have hc : Creates store yaml s request text := ⟨htext, habsent, hplace⟩
          simp only [Prog.onOk, safe_mapErr, Except.mapError]
          exact safe_writeAll ⟨hwriting, hshow⟩ (fun w rest s' hs _ => hwrite text fd w rest s' hc hs)
            (fun s' hs => hok text s' hc hs.look) fun hf w error s' _ hs => hpart hf text fd w error s' hc hs
  · simp only [createText, he hf]
    rfl

/-- A call that updates a request fails, or replaces its file. -/
theorem safe_updateRequest (hlook : ∀ op, Looks op → I s op)
    (hI : ∀ text s' op, updateText store yaml s id request = .ok text → Replaces (store.requestPath id) s' op →
      SameBut (tmpPath (store.requestPath id)) s s' → I s' op)
    (hok : ∀ text s', updateText store yaml s id request = .ok text → CanReplace s (store.requestPath id) →
      s'.look = replaced s (store.requestPath id) (Str.encode text.toList) → Q (.ok ()) s')
    (herr : ∀ error, (faults = false → updateText store yaml s id request = .error error) → Q (.error error) s)
    (hfail : ∀ text error s', updateText store yaml s id request = .ok text →
      (faults = false → ¬CanReplace s (store.requestPath id)) → SameBut (tmpPath (store.requestPath id)) s s' →
      Q (.error error) s') :
    Safe (Fs.world faults) I Q (store.updateRequest yaml id request).run s := by
  rw [WorkspaceStore.updateRequest, Prog.safe_run_bind]
  refine safe_ensureWorkspace (hlook _ trivial) (fun hens => ?_) fun error he => herr error fun hf => ?_
  · simp only [Prog.onOk, Prog.safe_run_bind, safe_liftExcept]
    cases hv : validateId id with
    | error error => exact herr error fun _ => by simp only [updateText, hens, hv]; rfl
    | ok =>
      simp only
      refine ⟨hlook _ trivial, fun ans s' hw => ?_⟩
      obtain ⟨rfl, htrue, hexact⟩ := Fs.world_exists hw
      cases ans with
      | false =>
        refine herr _ fun hf => ?_
        simp only [updateText, hens, hv, ← hexact hf]
        rfl
      | true =>
        cases ht : yaml.toYaml { request with id } with
        | error error =>
          refine herr _ fun _ => ?_
          simp only [updateText, hens, hv, htrue rfl, if_true, ht]
          rfl
        | ok text =>
          have htext : updateText store yaml s' id request = .ok text := by
            simp only [updateText, hens, hv, htrue rfl, if_true, ht]
            rfl
          refine safe_replace ?_ (fun s₁ op => hI text s₁ op htext) (fun s₁ => hok text s₁ htext) fun error s₁ =>
            hfail text error s₁ htext
          rw [parent_requestPath hv]
          exact (tmpPath_ne_requestsDir hv).symm
  · simp only [updateText, he hf]
    rfl

theorem createText_eq_ok {text : String} : createText store yaml s request = .ok text ↔
    ensured store s = .ok () ∧ validateId request.id = .ok () ∧ yaml.toYaml request = .ok text := by
  simp only [createText, Core.bind_eq_ok]

theorem updateText_valid {text : String} (h : updateText store yaml s id request = .ok text) :
    validateId id = .ok () := by
  simp only [updateText, Core.bind_eq_ok] at h
  exact h.2.1

/-- What a call that creates a request comes to, without faults. -/
theorem createRequest_done {text : String} {r : Except WireSurgeError Unit} {s' : Fs}
    (hc : Creates store yaml s request text)
    (hr : Prog.Runs (Fs.world false) ((store.createRequest yaml request).run, s) (.done r, s')) :
    r = .ok () ∧ s'.look = update s.look (store.requestPath request.id) (some (.file (Str.encode text.toList))) := by
  suffices hs : Safe (Fs.world false) (fun _ _ => True) (fun r s' => r = .ok () ∧
      s'.look = update s.look (store.requestPath request.id) (some (.file (Str.encode text.toList))))
      (store.createRequest yaml request).run s from hs.done hr
  refine safe_createRequest (fun _ _ => trivial) trivial (fun _ _ _ _ _ _ _ => trivial)
    (fun text' s' hc' hs => ⟨rfl, ?_⟩) (fun error he => ?_) fun hf => absurd hf Bool.false_ne_true
  · cases hc.text.symm.trans hc'.text
    exact hs
  · rcases he rfl with he | ⟨e, he, -⟩
    · cases hc.text.symm.trans he
    · obtain ⟨t, ht, -⟩ := Fs.createNew_of_none hc.absent hc.place
      cases ht.symm.trans he

theorem updateRequest_done {text : String} {r : Except WireSurgeError Unit} {s' : Fs}
    (ht : updateText store yaml s id request = .ok text) (hcan : CanReplace s (store.requestPath id))
    (hr : Prog.Runs (Fs.world false) ((store.updateRequest yaml id request).run, s) (.done r, s')) :
    r = .ok () ∧ s'.look = replaced s (store.requestPath id) (Str.encode text.toList) := by
  suffices hs : Safe (Fs.world false) (fun _ _ => True) (fun r s' => r = .ok () ∧
      s'.look = replaced s (store.requestPath id) (Str.encode text.toList))
      (store.updateRequest yaml id request).run s from hs.done hr
  refine safe_updateRequest (fun _ _ => trivial) (fun _ _ _ _ _ _ => trivial) (fun text' s' ht' _ hs => ⟨rfl, ?_⟩)
    (fun error he => ?_) fun _ _ _ _ hno _ => absurd hcan (hno rfl)
  · cases ht.symm.trans ht'
    exact hs
  · cases ht.symm.trans (he rfl)

end

/-! ## Reading -/

/-- Without faults the program gives `r` in `s`, and changes nothing. -/
def Reads {α : Type} (s : Fs) (p : FsM α) (r : Except WireSurgeError α) : Prop :=
  ∀ (I : Fs → Fs.Op → Prop) (Q : Except WireSurgeError α → Fs → Prop), (∀ op, Looks op → I s op) →
    (Safe (Fs.world false) I Q p.run s ↔ Q r s)

namespace Reads

variable {α β : Type} {s : Fs}

theorem bind {p : FsM α} {x : Except WireSurgeError α} {f : α → FsM β} {g : α → Except WireSurgeError β}
    (h : Reads s p x) (hf : ∀ a, Reads s (f a) (g a)) : Reads s (p >>= f) (x >>= g) := by
  intro I Q hI
  rw [Prog.safe_run_bind, h I _ hI]
  cases x with
  | error error => exact Iff.rfl
  | ok a => exact hf a I Q hI

theorem value (a : α) : Reads s (pure a) (.ok a) := fun _ _ _ => Iff.rfl

theorem failure (error : WireSurgeError) : Reads s (throw error : FsM α) (.error error) := fun _ _ _ => Iff.rfl

theorem lift (x : Except WireSurgeError α) : Reads s (liftExcept x) x := fun _ _ _ => safe_liftExcept

theorem mapped (onError : Fs.IoError → WireSurgeError) (x : Except Fs.IoError α) :
    Reads s (mapErr onError x) (x.mapError onError) := fun _ _ _ => safe_mapErr

theorem ite {c : Prop} [Decidable c] {p q : FsM α} {x y : Except WireSurgeError α} (hp : Reads s p x)
    (hq : Reads s q y) : Reads s (if c then p else q) (if c then x else y) := by
  split
  · exact hp
  · exact hq

theorem exists_ (p : UnixPath) : Reads s (ask (.exists_ p)) (.ok (s.look p).isSome) := by
  intro I Q hI
  rw [safe_ask]
  refine ⟨fun h => ?_, fun h => ⟨hI _ trivial, fun ans s' hw => ?_⟩⟩
  · have := h.2 _ _ (Fs.world_apply s (.exists_ p) false)
    rw [Fs.look_isSome]
    exact this
  · obtain ⟨rfl, -, hans⟩ := Fs.world_exists hw
    exact hans rfl ▸ h

theorem read (p : UnixPath) : Reads s (ask (.read p)) (.ok (s.read p)) := by
  intro I Q hI
  rw [safe_ask]
  refine ⟨fun h => h.2 _ _ (Fs.world_apply s (.read p) false), fun h => ⟨hI _ trivial, fun ans s' hw => ?_⟩⟩
  obtain ⟨rfl, rfl⟩ := Fs.world_read hw
  exact h

end Reads

section

variable (store : WorkspaceStore) (yaml : Yaml) (s : Fs)

/-- The text of the file at `path`. -/
def textAt (path : UnixPath) : Except Fs.IoError String := textOf (s.read path)

/-- What `load_request` gives. -/
def loadResult (id : String) : Except WireSurgeError RequestSpec := do
  ensured store s
  validateId id
  let input ← (textAt s (store.requestPath id)).mapError fun error =>
    if error.kind = .notFound then requestNotFound id else ofIo error
  yaml.fromYaml input

/-- The requests of some entries. -/
def entriesResult : List UnixPath.Name → Except WireSurgeError (List RequestSpec)
  | [] => .ok []
  | name :: names =>
    let path := join store.requestsDir name
    if extension path = some (ofText "yaml") then do
      let input ← (textAt s path).mapError ofIo
      let request ← yaml.fromYaml input
      return request :: (← entriesResult names)
    else entriesResult names

/-- What `list_requests` gives for the entries in this order. -/
def listResult (names : List UnixPath.Name) : Except WireSurgeError (List RequestSpec) := do
  ensured store s
  if (s.look store.requestsDir).isSome then
    let names ← (s.readDir store.requestsDir names).mapError ofIo
    let requests ← entriesResult store yaml s names
    return requests.mergeSort fun left right => (compare left.id right.id).isLE
  else return []

theorem reads_readToString (path : UnixPath) : Reads s (readToString path) (.ok (textAt s path)) :=
  (Reads.read path).bind fun _ => Reads.value _

theorem reads_ensureWorkspace : Reads s store.ensureWorkspace (ensured store s) :=
  (Reads.exists_ store.workspaceFile).bind fun _ => Reads.ite (Reads.value ()) (Reads.failure _)

theorem reads_loadRequest (id : String) : Reads s (store.loadRequest yaml id) (loadResult store yaml s id) := by
  refine (reads_ensureWorkspace store s).bind fun _ => (Reads.lift _).bind fun _ => ?_
  exact (reads_readToString s _).bind fun _ => (Reads.mapped _ _).bind fun _ => Reads.lift _

theorem reads_readEntries (names : List UnixPath.Name) :
    Reads s (store.readEntries yaml names) (entriesResult store yaml s names) := by
  induction names with
  | nil => exact Reads.value _
  | cons name names ih =>
    refine Reads.ite ?_ ih
    refine (reads_readToString s _).bind fun _ => (Reads.mapped _ _).bind fun _ => (Reads.lift _).bind fun _ => ?_
    exact ih.bind fun _ => Reads.value _

variable {store yaml s} in
/-- `list_requests` gives a result for every order of the entries. -/
theorem safe_listRequests {I : Fs → Fs.Op → Prop} {Q : Except WireSurgeError (List RequestSpec) → Fs → Prop}
    (hI : ∀ op, Looks op → I s op) : Safe (Fs.world false) I Q (store.listRequests yaml).run s ↔
      ∀ names, names.Perm (s.entries store.requestsDir) → Q (listResult store yaml s names) s := by
  have hconst {P : Prop} : P ↔ ∀ names : List UnixPath.Name, names.Perm (s.entries store.requestsDir) → P :=
    ⟨fun h _ _ => h, fun h => h _ (.refl _)⟩
  have htail (ans : Except Fs.IoError (List UnixPath.Name)) := (Reads.mapped (s := s) ofIo ans).bind fun names =>
    (reads_readEntries store yaml s names).bind fun requests =>
      Reads.value (requests.mergeSort fun left right => (compare left.id right.id).isLE)
  rw [WorkspaceStore.listRequests, Prog.safe_run_bind, reads_ensureWorkspace store s I _ hI]
  cases he : ensured store s with
  | error error =>
    simp only [listResult, he]
    exact hconst
  | ok =>
    simp only [Prog.onOk, Prog.safe_run_bind, Reads.exists_ store.requestsDir I _ hI, listResult, he]
    cases hd : (s.look store.requestsDir).isSome with
    | false => exact hconst
    | true =>
      simp only [if_true]
      rw [Prog.safe_run_bind, safe_ask]
      constructor
      · intro h names hperm
        have hw : Fs.world false s (.readDir store.requestsDir) (s.readDir store.requestsDir names) s :=
          ⟨.order names, fun hf => absurd hf Bool.false_ne_true, if_pos hperm⟩
        exact (htail _ I Q hI).mp (h.2 _ _ hw)
      · refine fun h => ⟨hI _ trivial, fun ans s' hw => ?_⟩
        obtain ⟨rfl, names, hperm, rfl⟩ := Fs.world_readDir hw
        exact (htail _ I Q hI).mpr (h names hperm)

end

section

variable {store : WorkspaceStore} {yaml : Yaml} {s : Fs} {id : String}

theorem textAt_of_file {path : UnixPath} {chars : Str.Text} (h : s.look path = some (.file (Str.encode chars))) :
    textAt s path = .ok (String.ofList chars) := by
  simp only [textAt, textOf, Fs.read, h, bind, Except.bind, Str.decode_encode]
  rfl

/-- What is loaded of a request is the text of its file. -/
theorem loadResult_of_file (hens : ensured store s = .ok ()) (hv : validateId id = .ok ()) {chars : Str.Text}
    (h : s.look (store.requestPath id) = some (.file (Str.encode chars))) :
    loadResult store yaml s id = yaml.fromYaml (String.ofList chars) := by
  rw [loadResult, hens, hv, textAt_of_file h]
  rfl

end

end WireSurge.Storage
