import WireSurge.Lib.Tree
import WireSurge.Storage.Refine
import WireSurge.Storage.Runners

/-!
# The workspace is made

`init` makes the directories of a workspace, and its file where there is none. The rules
for its steps hold with any failures: `create_dir_all` fails only where there is no place
for a directory (`safe_makeDirs`), `fs::write` that is cut off leaves a part of the text
(`safe_putFile`). A call may be stopped anywhere and made again (`init_restarts`), in a
file system without links: behind a dangling one, the file would be made elsewhere.
-/

namespace WireSurge.Storage

open WireSurge.Core (WireSurgeError)
open Fs (Bytes DirsMade Makeable Rooted)
open Function (update)
open Prog (Runs Safe)
open UnixPath (child join length_parent_lt ofText parent parent_above separator)

/-! ## Directories and files -/

section

variable {faults : Bool} {I : Fs → Fs.Op → Prop} {s : Fs} {p path : UnixPath} {error : Fs.IoError}
variable {Q : Except WireSurgeError Unit → Fs → Prop}

/-- What went wrong does not matter where there is a directory. -/
theorem safe_isDirOr (hI : I s (.isDir p)) (hok : s.look p = some .dir → Q (.ok ()) s)
    (herr : (faults = false → s.look p ≠ some .dir) → Q (.error (ofIo error)) s) :
    Safe (Fs.world faults) I Q (do if ← ask (.isDir p) then pure () else throw (ofIo error) : FsM Unit).run s := by
  rw [Prog.safe_run_bind, safe_ask]
  refine ⟨hI, fun ans s' hw => ?_⟩
  obtain ⟨rfl, htrue, hexact⟩ := Fs.world_isDir hw
  cases ans with
  | true => exact hok (htrue rfl)
  | false => exact herr fun hf => of_decide_eq_false (hexact hf).symm

/-- A directory is made, or the answer says why not. -/
theorem safe_mkdir {Q : Except WireSurgeError (Except Fs.IoError Unit) → Fs → Prop} (hI : I s (.mkdir p))
    (hok : ∀ s', s.look p = none → s'.look = update s.look p (some .dir) → Q (.ok (.ok ())) s')
    (herr : ∀ e, (faults = false → e = Fs.alreadyExists ∧ s.look p ≠ none ∨
      e = Fs.notFound ∧ s.look p = none ∧ s.look (parent p) ≠ some .dir) → Q (.ok (.error e)) s) :
    Safe (Fs.world faults) I Q (ask (.mkdir p)).run s := by
  refine safe_ask.mpr ⟨hI, fun ans s' hw => ?_⟩
  rcases Fs.world_single rfl hw with h | ⟨hf, e, h⟩
  · have h : s.mkdir p = (ans, s') := h
    rcases Fs.mkdir_spec s p with ⟨hp, he⟩ | ⟨hp, hd, he⟩ | ⟨t, ht, hnone, hlook⟩
    · cases he.symm.trans h
      exact herr _ fun _ => .inl ⟨rfl, hp⟩
    · cases he.symm.trans h
      exact herr _ fun _ => .inr ⟨rfl, hp, hd⟩
    · cases ht.symm.trans h
      exact hok _ hnone hlook
  · cases h
    exact herr e fun hf' => absurd (hf'.symm.trans hf) Bool.false_ne_true

theorem safe_createDirAllRounds {rounds : Nat} :
    ∀ {p : UnixPath} {s : Fs} {Q : Except WireSurgeError Unit → Fs → Prop}, p.length < rounds →
      (∀ s' q, DirsMade p s s' → q <+: p → I s' (.mkdir q) ∧ I s' (.isDir q)) →
      (∀ s', DirsMade p s s' → p = [] ∨ s'.look p = some .dir → Q (.ok ()) s') →
      (∀ e s', DirsMade p s s' → (faults = false → ¬Makeable s p) → Q (.error e) s') →
      Safe (Fs.world faults) I Q (createDirAllRounds rounds p).run s := by
  induction rounds with
  | zero => exact fun h => absurd h (Nat.not_lt_zero _)
  | succ rounds ih =>
    intro p s Q hlen hI hok herr
    have hself := List.prefix_refl p
    rw [createDirAllRounds]
    split
    · rename_i hnil
      exact hok s (.refl p s) (.inl hnil)
    rename_i hne
    have hlen' : (parent p).length < rounds := (length_parent_lt hne).trans_le (Nat.lt_succ_iff.mp hlen)
    rw [Prog.safe_run_bind]
    refine safe_mkdir (hI s p (.refl p s) hself).1 (fun s' hnone hlook => ?_) fun error hcause => ?_
    · exact hok _ (.of_mkdir hself hnone hlook) (.inr (by rw [hlook, Function.update_self]))
    simp only [Prog.onOk]
    split
    · rename_i hkind
      have hplace : faults = false → s.look p = none := fun hf => by
        rcases hcause hf with ⟨rfl, -⟩ | ⟨-, hnone, -⟩
        · cases hkind
        · exact hnone
      have habove (hf : faults = false) (h : Makeable s p) : Makeable s (parent p) := by
        cases h with
        | there hdir => cases hdir.symm.trans (hplace hf)
        | under _ _ h => exact h
      -- the directory above is made first
      rw [Prog.safe_run_bind]
      refine ih hlen' (fun s' q hs' hq => hI s' q (hs'.longer (parent_above p)) (hq.trans (parent_above p)))
        (fun s₂ hs₂ hparent => ?_) fun e s₂ hs₂ hno => ?_
      · have hmade := hs₂.longer (parent_above p)
        simp only [Prog.onOk, Prog.safe_run_bind]
        refine safe_mkdir (hI s₂ p hmade hself).1 (fun s' hnone hlook => ?_) fun error hcause' => ?_
        · refine hok _ (hmade.trans (.of_mkdir hself hnone hlook)) (.inr (by rw [hlook, Function.update_self]))
        · refine safe_isDirOr (hI s₂ p hmade hself).2 (fun hdir => hok _ hmade (.inr hdir)) fun hdir => ?_
          refine herr _ _ hmade fun hf hmake => ?_
          have hsame : s₂.look p = none := by
            rcases hs₂ p with hp | ⟨hpath, -⟩
            · rw [hp, hplace hf]
            · exact absurd hpath.length_le (not_le.mpr (length_parent_lt hne))
          rcases hcause' hf with ⟨-, hsome⟩ | ⟨-, -, hno⟩
          · exact hsome hsame
          · rcases hparent with hnil | hdir'
            · have htop := habove hf hmake
              rw [hnil] at htop hno
              cases htop with
              | there h => exact hno (hs₂.dir h)
              | under h => exact h rfl
            · exact hno hdir'
      · exact herr _ _ (hs₂.longer (parent_above p)) fun hf h => hno hf (habove hf h)
    · rename_i hkind
      refine safe_isDirOr (hI _ p (.refl p _) hself).2 (fun hdir => hok _ (.refl p _) (.inr hdir)) fun hdir => ?_
      refine herr _ _ (.refl p _) fun hf hmake => ?_
      rcases hcause hf with ⟨-, hsome⟩ | ⟨rfl, -⟩
      · cases hmake with
        | there h => exact hdir hf h
        | under _ hnone _ => exact hsome hnone
      · exact hkind rfl

/-- `create_dir_all` makes directories on the way to its path, and fails only where there
is no place for them. -/
theorem safe_makeDirs (hI : ∀ s' q, DirsMade path s s' → q <+: path → I s' (.mkdir q) ∧ I s' (.isDir q))
    (hok : ∀ s', DirsMade path s s' → path = [] ∨ s'.look path = some .dir → Q (.ok ()) s')
    (herr : ∀ e s', DirsMade path s s' → (faults = false → ¬Makeable s path) → Q (.error e) s') :
    Safe (Fs.world faults) I Q (createDirAll path).run s :=
  safe_createDirAllRounds (Nat.lt_succ_self _) hI hok herr

/-- `fs::write` makes the file anew; when it is cut off, the file has a part of the text. -/
theorem safe_putFile {content : Bytes} (hopen : I s (.create path))
    (hwrite : ∀ fd w rest s', s.CanCreate path → s'.look = update s.look path (some (.file w)) → w <+: content →
      I s' (.write fd rest))
    (hok : ∀ s', s.CanCreate path → s'.look = update s.look path (some (.file content)) → Q (.ok ()) s')
    (herr : ∀ e, (faults = false → ¬s.CanCreate path) → Q (.error e) s)
    (hpart : faults = true → ∀ w e s', s.CanCreate path → s'.look = update s.look path (some (.file w)) →
      w <+: content → Q (.error e) s') :
    Safe (Fs.world faults) I Q (fsWrite path content).run s := by
  rw [fsWrite, Prog.safe_run_bind, safe_ask]
  refine ⟨hopen, fun ans s' hw => ?_⟩
  rcases Fs.world_create hw with ⟨error, rfl, rfl, hcant⟩ | ⟨fd, rfl, hcan, hwriting, hlook⟩
  · simp only [Prog.onOk, Prog.safe_run_bind, safe_mapErr, Except.mapError]
    exact herr _ hcant
  · simp only [Prog.onOk, Prog.safe_run_bind, safe_mapErr, Except.mapError]
    exact safe_writeAll ⟨hwriting, hlook⟩ (fun w rest t ht hc => hwrite fd w rest t hcan ht.look ⟨rest, hc⟩)
      (fun t ht => hok t hcan ht.look) fun hf w error t hw ht => hpart hf w error t hcan ht.look hw

end

/-! ## The workspace -/

namespace WorkspaceStore

variable (store : WorkspaceStore)

/-- `reports_dir`. -/
def reportsDir : UnixPath := join store.metadataDir (ofText "reports")

/-- The directory of the environments. -/
def environmentsDir : UnixPath := join store.metadataDir (ofText "environments")

/-- The text of a new workspace file. -/
def workspaceText : String := "name: \"WireSurge Workspace\"\nversion: 1\n"

/-- `init`: what is there is left as it is. -/
def init : FsM Unit := do
  createDirAll store.requestsDir
  createDirAll store.reportsDir
  createDirAll store.runnersDir
  createDirAll store.environmentsDir
  if ← ask (.exists_ store.workspaceFile) then pure ()
  else fsWrite store.workspaceFile (Str.encode workspaceText.toList)

/-- The directories of a workspace. -/
def directories : List UnixPath := [store.requestsDir, store.reportsDir, store.runnersDir, store.environmentsDir]

end WorkspaceStore

section

variable (store : WorkspaceStore)

/-- All of a workspace is there. -/
structure Complete (s : Fs) : Prop where
  directories : ∀ d ∈ store.directories, s.look d = some .dir
  workspace : (s.look store.workspaceFile).isSome

/-- Nothing has changed but that there are directories on the way to those of the
workspace. -/
def DirsBuilt (s s' : Fs) : Prop :=
  ∀ q, s'.look q = s.look q ∨ (∃ d ∈ store.directories, q <+: d) ∧ s.look q = none ∧ s'.look q = some .dir

/-- The workspace file is there with a part of its text. -/
def FileBuilt (s s' : Fs) (q : UnixPath) : Prop :=
  q = store.workspaceFile ∧ s.look q ≠ some .dir ∧
    ∃ content, content <+: Str.encode WorkspaceStore.workspaceText.toList ∧ s'.look q = some (.file content)

/-- Nothing has changed but these. -/
def Built (s s' : Fs) : Prop :=
  ∀ q, s'.look q = s.look q ∨ (∃ d ∈ store.directories, q <+: d) ∧ s.look q = none ∧ s'.look q = some .dir ∨
    FileBuilt store s s' q

end

section

variable {store : WorkspaceStore} {s s' s'' : Fs} {d q : UnixPath}

theorem DirsBuilt.refl (store : WorkspaceStore) (s : Fs) : DirsBuilt store s s := fun _ => .inl rfl

theorem DirsBuilt.built (h : DirsBuilt store s s') : Built store s s' := fun q => (h q).imp_right .inl

theorem DirsBuilt.trans (h : DirsBuilt store s s') (hd : d ∈ store.directories) (h' : DirsMade d s' s'') :
    DirsBuilt store s s'' := by
  intro q
  rcases h q with hq | ⟨hpath, hnone, hdir⟩
  · rw [← hq]
    exact (h' q).imp_right fun ⟨hpath, h⟩ => ⟨⟨d, hd, hpath⟩, h⟩
  · exact .inr ⟨hpath, hnone, h'.dir hdir⟩

theorem Built.trans (h : Built store s s') (h' : Built store s' s'') : Built store s s'' := by
  intro q
  rcases h q with hq | ⟨hpath, hnone, hdir⟩ | ⟨hq, hno, content, hpart, hfile⟩
  · have h' := h' q
    rw [FileBuilt, hq] at h'
    exact h'
  · rcases h' q with hq' | ⟨-, hnone', -⟩ | ⟨-, hno, -⟩
    · exact .inr (.inl ⟨hpath, hnone, hq'.trans hdir⟩)
    · cases hdir.symm.trans hnone'
    · exact absurd hdir hno
  · rcases h' q with hq' | ⟨-, hnone', -⟩ | ⟨-, -, hpart'⟩
    · exact .inr (.inr ⟨hq, hno, content, hpart, hq'.trans hfile⟩)
    · cases hfile.symm.trans hnone'
    · exact .inr (.inr ⟨hq, hno, hpart'⟩)

/-- Their names. -/
def directoryNames : List UnixPath.Name :=
  [ofText "requests", ofText "reports", ofText "runners", ofText "environments"]

theorem mem_directories (hd : d ∈ store.directories) : ∃ name ∈ directoryNames, d = child store.metadataDir name := by
  simp only [WorkspaceStore.directories, List.mem_cons, List.not_mem_nil, or_false] at hd
  rcases hd with rfl | rfl | rfl | rfl
  · exact ⟨_, by decide, store.requestsDir_eq⟩
  · exact ⟨_, by decide, store.join_metadataDir (by decide)⟩
  · exact ⟨_, by decide, runnersDir_eq⟩
  · exact ⟨_, by decide, store.join_metadataDir (by decide)⟩

theorem parent_directory (hd : d ∈ store.directories) : parent d = store.metadataDir := by
  obtain ⟨name, hname, rfl⟩ := mem_directories hd
  have hplain : ∀ name ∈ directoryNames, separator ∉ name := by decide
  exact UnixPath.parent_child (hplain name hname)

theorem directory_ne_nil (hd : d ∈ store.directories) : d ≠ [] := by
  obtain ⟨name, -, rfl⟩ := mem_directories hd
  simp [child]

theorem metadataDir_ne (hd : d ∈ store.directories) : d ≠ store.metadataDir := by
  obtain ⟨name, -, rfl⟩ := mem_directories hd
  exact UnixPath.child_ne_self

/-- The entries of a directory are neither directories of the workspace nor its file. -/
theorem entry_ne (hd : d ∈ store.directories) {name : UnixPath.Name} (hname : separator ∉ name) :
    (∀ d' ∈ store.directories, child d name ≠ d') ∧ child d name ≠ store.workspaceFile := by
  refine ⟨fun d' hd' he => metadataDir_ne hd ?_, fun he => metadataDir_ne hd ?_⟩
  · rw [← UnixPath.parent_child (d := d) hname, he, parent_directory hd']
  · rw [← UnixPath.parent_child (d := d) hname, he, WorkspaceStore.workspaceFile_eq, UnixPath.parent_child (by decide)]

/-- What begins with a name that no directory begins with is not on the way to one. -/
theorem not_prefix_directory {name rest : UnixPath.Name} (hname : ∀ n ∈ directoryNames, ¬name <+: n)
    (hd : d ∈ store.directories) : ¬child store.metadataDir (name ++ rest) <+: d := by
  obtain ⟨n, hn, rfl⟩ := mem_directories hd
  rw [child, child, List.prefix_append_right_inj, List.cons_prefix_cons]
  exact fun h => hname n hn ((List.prefix_append name rest).trans h.2)

/-- The workspace file is not on the way to a directory. -/
theorem workspaceFile_not_above (hd : d ∈ store.directories) : ¬store.workspaceFile <+: d := by
  rw [WorkspaceStore.workspaceFile_eq, ← List.append_nil (ofText "workspace.yaml")]
  exact not_prefix_directory (by decide) hd

/-- Nor is what is in a directory. -/
theorem entry_not_above (hq : q ∈ store.directories) (name : UnixPath.Name) (hd : d ∈ store.directories) :
    ¬child q name <+: d := by
  obtain ⟨n, hn, rfl⟩ := mem_directories hq
  have hpath : child (child store.metadataDir n) name = child store.metadataDir ((n ++ [separator]) ++ name) := by
    simp [child]
  have hapart : ∀ n ∈ directoryNames, ∀ n' ∈ directoryNames, ¬n ++ [separator] <+: n' := by decide
  rw [hpath]
  exact not_prefix_directory (hapart n hn) hd

theorem Built.makeable (h : Built store s s') (hd : d ∈ store.directories) (hplace : Makeable s d) : Makeable s' d := by
  refine hplace.later fun q hq => ?_
  rcases h q with hsame | ⟨-, hmade⟩ | ⟨rfl, -⟩
  · exact .inl hsame
  · exact .inr hmade
  · exact absurd hq (workspaceFile_not_above hd)

/-- What is in the directories is as it was. -/
theorem Built.entries (h : Built store s s') (hd : d ∈ store.directories) {name : UnixPath.Name}
    (hname : separator ∉ name) :
    s'.look (child d name) = s.look (child d name) := by
  rcases h (child d name) with hsame | ⟨⟨d', hd', hpath⟩, -⟩ | ⟨hfile, -⟩
  · exact hsame
  · exact absurd hpath (entry_not_above hd name hd')
  · exact absurd hfile (entry_ne hd hname).2

/-! ## How it is made -/

variable {faults : Bool} {I : Fs → Fs.Op → Prop} {Q : Except WireSurgeError Unit → Fs → Prop}

/-- One directory more. -/
theorem safe_directory {k : FsM Unit} (hs : DirsBuilt store s s') (hroot : Rooted s'.look) (hd : d ∈ store.directories)
    (hI : ∀ s'' op, DirsBuilt store s s'' → I s'' op)
    (hk : ∀ s'', DirsBuilt store s s'' → DirsMade d s' s'' → Rooted s''.look → s''.look d = some .dir →
      Safe (Fs.world faults) I Q k.run s'')
    (herr : ∀ e s'', DirsBuilt store s s'' → (faults = false → ¬Makeable s d) → Q (.error e) s'') :
    Safe (Fs.world faults) I Q (do createDirAll d; k : FsM Unit).run s' := by
  rw [Prog.safe_run_bind]
  have hmakes : Safe (Fs.world faults) (fun s'' _ => DirsMade d s' s'') (fun r s'' => DirsMade d s' s'' ∧
      (r = .ok () → s''.look d = some .dir) ∧ (faults = false → Makeable s' d → r = .ok ())) (createDirAll d).run s' :=
    safe_makeDirs (fun _ _ h _ => ⟨h, h⟩)
      (fun s'' h hdir => ⟨h, fun _ => hdir.resolve_left (directory_ne_nil hd), fun _ _ => rfl⟩)
      fun e s'' h hno => ⟨h, nofun, fun hf hmake => absurd hmake (hno hf)⟩
  refine (hmakes.keeping (P := fun s => Rooted s.look) (fun _ _ _ _ _ hw h => h.world hw) hroot).imp
    (fun s'' op h => hI s'' op (hs.trans hd h.1)) ?_
  rintro (e | ⟨⟩) s'' ⟨⟨hmade, hdir, hok⟩, hroot'⟩
  · exact herr e s'' (hs.trans hd hmade) fun hf hmake => by cases hok hf (hs.built.makeable hd hmake)
  · exact hk s'' (hs.trans hd hmade) hmade hroot' (hdir rfl)

/-- The file of a workspace is written, where it is not there. -/
theorem safe_workspaceFile (hs : DirsBuilt store s s') (hroot : Rooted s'.look)
    (hdirs : ∀ d ∈ store.directories, s'.look d = some .dir) :
    Safe (Fs.world faults) (fun s'' _ => Built store s s'')
      (fun r s'' => Built store s s'' ∧ (r = .ok () → Complete store s'') ∧ (faults = false → r = .ok ()))
      (do
        if ← ask (.exists_ store.workspaceFile) then pure ()
        else fsWrite store.workspaceFile (Str.encode WorkspaceStore.workspaceText.toList) : FsM Unit).run s' := by
  have hparent : s'.look (parent store.workspaceFile) = some .dir := by
    have hrequests : store.requestsDir ∈ store.directories := List.mem_cons_self
    rw [WorkspaceStore.workspaceFile_eq, UnixPath.parent_child (by decide), ← parent_directory hrequests]
    exact hroot _ (directory_ne_nil hrequests) (by rw [hdirs _ hrequests]; rfl)
  have hpart {s'' : Fs} {content : Bytes} (hcan : s'.CanCreate store.workspaceFile)
      (hlook : s''.look = update s'.look store.workspaceFile (some (.file content)))
      (hcontent : content <+: Str.encode WorkspaceStore.workspaceText.toList) : Built store s s'' := by
    intro q
    by_cases hq : q = store.workspaceFile
    · subst hq
      refine .inr (.inr ⟨rfl, fun hdir => hcan.1 ?_, content, hcontent, by rw [hlook, Function.update_self]⟩)
      rcases hs store.workspaceFile with hsame | ⟨⟨d, hd, hpath⟩, -⟩
      · rw [hsame, hdir]
      · exact absurd hpath (workspaceFile_not_above hd)
    · rw [hlook, Function.update_of_ne hq]
      exact (hs q).imp_right .inl
  rw [Prog.safe_run_bind, safe_ask]
  refine ⟨hs.built, fun ans t hw => ?_⟩
  obtain ⟨rfl, htrue, hexact⟩ := Fs.world_exists hw
  cases ans with
  | true => exact ⟨hs.built, fun _ => ⟨hdirs, htrue rfl⟩, fun _ => rfl⟩
  | false =>
    simp only [Prog.onOk, Bool.false_eq_true, if_false]
    refine safe_putFile hs.built (fun _ w _ s'' hcan hlook hw => hpart hcan hlook hw) (fun s'' hcan hlook => ?_)
      (fun e hcant => ?_) fun hf w e s'' hcan hlook hw => ⟨hpart hcan hlook hw, nofun, fun hf' => ?_⟩
    · refine ⟨hpart hcan hlook (List.prefix_refl _), fun _ => ⟨fun d hd => ?_, ?_⟩, fun _ => rfl⟩
      · have hne : d ≠ store.workspaceFile := fun he => workspaceFile_not_above hd (he ▸ List.prefix_refl _)
        rw [hlook, Function.update_of_ne hne, hdirs d hd]
      · rw [hlook, Function.update_self]
        rfl
    · refine ⟨hs.built, nofun, fun hf => absurd ?_ (hcant hf)⟩
      have hnone := Option.not_isSome_iff_eq_none.mp (Bool.eq_false_iff.mp (hexact hf).symm)
      exact ⟨by rw [hnone]; exact nofun, fun _ => hparent⟩
    · exact absurd (hf'.symm.trans hf) Bool.false_ne_true

/-- What a call of `init` leaves, at its end and wherever it is stopped. -/
theorem safe_init (hroot : Rooted s.look) :
    Safe (Fs.world faults) (fun s' _ => Built store s s')
      (fun r s' => Built store s s' ∧ (r = .ok () → Complete store s') ∧
        (faults = false → (∀ d ∈ store.directories, Makeable s d) → r = .ok ()))
      store.init.run s := by
  have hmem : ∀ d ∈ store.directories, d ∈ store.directories := fun _ => id
  simp only [WorkspaceStore.directories, List.forall_mem_cons, List.not_mem_nil, false_implies, implies_true,
    and_true] at hmem
  have herr {d : UnixPath} (hd : d ∈ store.directories) (e : WireSurgeError) (s' : Fs) (h : DirsBuilt store s s')
      (hno : faults = false → ¬Makeable s d) : Built store s s' ∧ (Except.error e = Except.ok () → Complete store s') ∧
        (faults = false → (∀ d ∈ store.directories, Makeable s d) → Except.error e = Except.ok ()) :=
    ⟨h.built, nofun, fun hf hplace => absurd (hplace d hd) (hno hf)⟩
  have hI (s' : Fs) (op : Fs.Op) (h : DirsBuilt store s s') : Built store s s' := h.built
  rw [WorkspaceStore.init]
  refine safe_directory (.refl store s) hroot hmem.1 hI (fun s₁ h₁ _ hroot₁ hd₁ => ?_) (herr hmem.1)
  refine safe_directory h₁ hroot₁ hmem.2.1 hI (fun s₂ h₂ hm₂ hroot₂ hd₂ => ?_) (herr hmem.2.1)
  refine safe_directory h₂ hroot₂ hmem.2.2.1 hI (fun s₃ h₃ hm₃ hroot₃ hd₃ => ?_) (herr hmem.2.2.1)
  refine safe_directory h₃ hroot₃ hmem.2.2.2 hI (fun s₄ h₄ hm₄ hroot₄ hd₄ => ?_) (herr hmem.2.2.2)
  have hdirs : ∀ d ∈ store.directories, s₄.look d = some .dir := by
    simp only [WorkspaceStore.directories, List.forall_mem_cons, List.not_mem_nil, false_implies, implies_true,
      and_true]
    exact ⟨hm₄.dir (hm₃.dir (hm₂.dir hd₁)), hm₄.dir (hm₃.dir hd₂), hm₄.dir hd₃, hd₄⟩
  exact (safe_workspaceFile h₄ hroot₄ hdirs).mono fun r s' h => ⟨h.1, h.2.1, fun hf _ => h.2.2 hf⟩

/-- A directory that is there is left as it is. -/
theorem safe_makeDirs_there {I : Fs → Fs.Op → Prop} (hI : ∀ op, I s op) (hdir : s.look d = some .dir)
    (hne : d ≠ []) (hok : Q (.ok ()) s) : Safe (Fs.world false) I Q (createDirAll d).run s := by
  rw [createDirAll, createDirAllRounds, if_neg hne, Prog.safe_run_bind]
  refine safe_mkdir (hI _) (fun s' hnone _ => by cases hdir.symm.trans hnone) fun e hcause => ?_
  rcases hcause rfl with ⟨rfl, -⟩ | ⟨-, hnone, -⟩
  · simp only [Prog.onOk, Fs.alreadyExists, reduceCtorEq, if_false]
    exact safe_isDirOr (hI _) (fun _ => hok) fun hno => absurd hdir (hno rfl)
  · cases hdir.symm.trans hnone

/-- So is a workspace. -/
theorem safe_init_complete (h : Complete store s) :
    Safe (Fs.world false) (fun _ _ => True) (fun r s' => r = .ok () ∧ s' = s) store.init.run s := by
  have hdirs := h.directories
  have hne := fun d (hd : d ∈ store.directories) => directory_ne_nil hd
  simp only [WorkspaceStore.directories, List.forall_mem_cons, List.not_mem_nil, false_implies, implies_true,
    and_true] at hdirs hne
  obtain ⟨hrequests, hreports, hrunners, henvironments⟩ := hdirs
  obtain ⟨hrequests', hreports', hrunners', henvironments'⟩ := hne
  rw [WorkspaceStore.init, Prog.safe_run_bind]
  refine safe_makeDirs_there (fun _ => trivial) hrequests hrequests' ?_
  simp only [Prog.onOk, Prog.safe_run_bind]
  refine safe_makeDirs_there (fun _ => trivial) hreports hreports' ?_
  simp only [Prog.onOk]
  refine safe_makeDirs_there (fun _ => trivial) hrunners hrunners' ?_
  simp only [Prog.onOk]
  refine safe_makeDirs_there (fun _ => trivial) henvironments henvironments' ?_
  simp only [Prog.onOk]
  refine ⟨trivial, fun ans s' hw => ?_⟩
  obtain ⟨rfl, -, hexact⟩ := Fs.world_exists hw
  rw [hexact rfl, h.workspace]
  exact ⟨rfl, rfl⟩

end

/-- A call of `init` may be stopped anywhere, after any failures, and made again. What it
leaves differs from what was there by directories on the way to those of the workspace
and by the workspace file, with a part of its text. Made again without failures it comes
to an end and changes no more than that, or nothing when all was there; where the
directories have a place it succeeds and has all of the workspace there, and where there
were no requests, the workspace is a fresh one. -/
theorem init_restarts (store : WorkspaceStore) {s : Fs} (hroot : Rooted s.look)
    {p : Prog Fs.Op Fs.Ans (Except WireSurgeError Unit)} {s' : Fs}
    (hr : Runs (Fs.world true) (store.init.run, s) (p, s')) :
    Built store s s' ∧ (∃ r s'', Runs (Fs.world false) (store.init.run, s') (.done r, s'')) ∧
    ∀ r s'', Runs (Fs.world false) (store.init.run, s') (.done r, s'') →
      Built store s s'' ∧ (Complete store s' → s'' = s') ∧
      ((∀ d ∈ store.directories, Makeable s d) → r = .ok () ∧ Complete store s'' ∧
        ((∀ name, separator ∉ name → s.look (child store.requestsDir name) = none) → Fresh store s'')) := by
  have hleft : Built store s s' := by
    have hinit : Safe (Fs.world true) _ _ store.init.run s := safe_init hroot
    have hsafe := hinit.runs hr
    cases p with
    | done r => exact hsafe.1
    | ask op k => exact hsafe.1
  have hroot' := hr.keeping (P := fun s => Rooted s.look) (fun _ _ _ _ hw h => h.world hw) hroot
  refine ⟨hleft, Prog.exists_done (fun s op => ⟨_, _, Fs.world_apply s op false⟩) _ _, fun r s'' hr' => ?_⟩
  have hinit : Safe (Fs.world false) _ _ store.init.run s' := safe_init hroot'
  obtain ⟨hbuilt, hcomplete, hok⟩ := hinit.done hr'
  refine ⟨hleft.trans hbuilt, fun hthere => ((safe_init_complete hthere).done hr').2, fun hplace => ?_⟩
  have hr_ok := hok rfl fun d hd => hleft.makeable hd (hplace d hd)
  have hall := hcomplete hr_ok
  refine ⟨hr_ok, hall, fun hempty => ⟨hall.workspace, hall.directories _ List.mem_cons_self, fun name hname => ?_⟩⟩
  rw [(hleft.trans hbuilt).entries List.mem_cons_self hname, hempty name hname]

/-- An empty directory. -/
def samplePlace : Fs where
  nodes := (AList.insert (ofText "/w") .dir ∅).insert [] .dir
  data _ := []
  handles _ := none
  inodes := 0
  opened := 0
  proper := (Fs.Proper.empty.mkdir _).mkdir _

theorem look_samplePlace (p : UnixPath) :
    samplePlace.look p = if p = [] ∨ p = ofText "/w" then some .dir else none := by
  by_cases hnil : p = []
  · subst hnil
    rfl
  · rw [Fs.look, samplePlace, AList.lookup_insert_ne hnil]
    by_cases hw : p = ofText "/w"
    · subst hw
      rfl
    · rw [AList.lookup_insert_ne hw, if_neg (not_or.mpr ⟨hnil, hw⟩)]
      rfl

theorem look_samplePlace_child (hlen : 2 ≤ d.length) (name : UnixPath.Name) :
    samplePlace.look (child d name) = none := by
  rw [look_samplePlace, if_neg]
  have hw : (ofText "/w").length = 2 := rfl
  rintro (h | h)
  · simp [child] at h
  · have hlength := congrArg List.length h
    rw [child, List.length_append, List.length_cons] at hlength
    omega

theorem rooted_samplePlace : Rooted samplePlace.look := by
  intro p hp hsome
  rw [look_samplePlace] at hsome
  split at hsome
  · rename_i hw
    obtain rfl := hw.resolve_left hp
    rfl
  · cases hsome

theorem makeable_samplePlace : ∀ d ∈ sampleStore.directories, Makeable samplePlace d := by
  intro d hd
  refine .under (directory_ne_nil hd) ?_ ?_
  · obtain ⟨name, -, rfl⟩ := mem_directories hd
    exact look_samplePlace_child (by decide) name
  · rw [parent_directory hd]
    refine .under (by decide) (by rw [look_samplePlace]; decide) (.there ?_)
    rw [look_samplePlace]
    decide

/-- The disk is full when the second directory is to be made. -/
def fullDisk (s : Fs) (op : Fs.Op) : Option (Fs.Ans op × Fs) :=
  match op with
  | .mkdir p =>
    if p = sampleStore.reportsDir then some (.error ⟨.other, "No space left on device (os error 28)"⟩, s)
    else some (s.mkdir p)
  | op => some (s.apply op)

theorem world_fullDisk {s s' : Fs} {op : Fs.Op} {ans : Fs.Ans op} (h : fullDisk s op = some (ans, s')) :
    Fs.world true s op ans s' := by
  have hplain (h : some (s.apply op) = some (ans, s')) : Fs.world true s op ans s' := ⟨.plain, fun _ => rfl, h⟩
  cases op with
  | mkdir p =>
    rw [fullDisk] at h
    split at h
    · exact ⟨.fault ⟨.other, "No space left on device (os error 28)"⟩ 0, fun _ => rfl, h⟩
    · exact hplain h
  | _ => exact hplain h

/-- `init_restarts` on an empty directory. -/
theorem init_restarts_fullDisk : ∃ e s',
    Runs (Fs.world true) (sampleStore.init.run, samplePlace) (.done (.error e), s') ∧
    ∃ s'', Runs (Fs.world false) (sampleStore.init.run, s') (.done (.ok ()), s'') ∧ Fresh sampleStore s'' := by
  obtain ⟨⟨r, s'⟩, hplay, hfailed⟩ : ∃ x ∈ Prog.play fullDisk sampleStore.init.run samplePlace, x.1.isOk = false := by
    decide +kernel
  have hr : Runs (Fs.world true) (sampleStore.init.run, samplePlace) (.done r, s') := by
    refine .of_play (fun s op ans s' h => ?_) hplay
    exact world_fullDisk h
  obtain ⟨-, ⟨r', s'', hr'⟩, hagain⟩ := init_restarts sampleStore rooted_samplePlace hr
  obtain ⟨rfl, -, hfresh⟩ := (hagain r' s'' hr').2.2 makeable_samplePlace
  cases r with
  | ok => cases hfailed
  | error e =>
    exact ⟨e, s', hr, s'', hr', hfresh fun name _ => look_samplePlace_child (by decide) name⟩

end WireSurge.Storage
