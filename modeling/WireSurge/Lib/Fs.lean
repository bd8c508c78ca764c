import Mathlib.Data.List.AList
import WireSurge.Lib.Path
import WireSurge.Lib.Prog

/-!
# A file system

Names for files, and their contents behind them: a descriptor stays with the
file it was opened on, whatever becomes of the name, and keeps its own offset.
An operation (`Op`) is answered as a `Choice` says: as it comes, with a part of a
write, in some order, or with a fault.

There are no links: a name is a directory or a file, and a file has one name at most
(`Proper`). That is a condition on what is proved of programs over these states: with
a link, a write under one name can be seen under another.

What names show of the contents is `look`; the lemmas `look_*` say what the
operations do to it. `Writing` is a file that is being written through a
descriptor.
-/

namespace Fs

open UnixPath (Name child parent separator)

abbrev Bytes := List UInt8

/-- What a name stands for. -/
inductive Node
  | dir
  | file (inode : Nat)
  deriving DecidableEq

/-- What each name stands for; a path that is not in it is not there. -/
abbrev Names := AList fun _ : UnixPath => Node

/-- Each file has one name, and a number below `inodes`. -/
structure Proper (nodes : Names) (inodes : Nat) : Prop where
  unlinked {p q : UnixPath} {i : Nat} : nodes.lookup p = some (.file i) → nodes.lookup q = some (.file i) → p = q
  used {p : UnixPath} {i : Nat} : nodes.lookup p = some (.file i) → i < inodes

namespace Proper

variable {nodes : Names} {inodes : Nat}

theorem empty : Proper ∅ 0 where
  unlinked h := by cases h
  used h := by cases h

theorem erase (h : Proper nodes inodes) (p : UnixPath) : Proper (nodes.erase p) inodes := by
  have hold {q : UnixPath} {i : Nat} (hq : (nodes.erase p).lookup q = some (.file i)) :
      nodes.lookup q = some (.file i) := by
    by_cases hqp : q = p
    · subst hqp
      rw [AList.lookup_erase] at hq
      cases hq
    · rwa [AList.lookup_erase_ne hqp] at hq
  exact ⟨fun hq hr => h.unlinked (hold hq) (hold hr), fun hq => h.used (hold hq)⟩

/-- A file that has no name gets one. -/
theorem insert (h : Proper nodes inodes) {p : UnixPath} {i : Nat} (hi : i < inodes)
    (hn : ∀ q, nodes.lookup q ≠ some (.file i)) : Proper (nodes.insert p (.file i)) inodes := by
  have hnew {q : UnixPath} {j : Nat} (hq : (nodes.insert p (.file i)).lookup q = some (.file j)) :
      q = p ∧ j = i ∨ nodes.lookup q = some (.file j) := by
    by_cases hqp : q = p
    · subst hqp
      rw [AList.lookup_insert, Option.some.injEq, Node.file.injEq] at hq
      exact .inl ⟨rfl, hq.symm⟩
    · rw [AList.lookup_insert_ne hqp] at hq
      exact .inr hq
  refine ⟨fun {q r j} hq hr => ?_, fun {q j} hq => ?_⟩
  · rcases hnew hq with ⟨rfl, rfl⟩ | hq' <;> rcases hnew hr with ⟨rfl, hj⟩ | hr'
    · rfl
    · exact absurd hr' (hn r)
    · exact absurd (hj ▸ hq') (hn q)
    · exact h.unlinked hq' hr'
  · rcases hnew hq with ⟨rfl, rfl⟩ | hq'
    · exact hi
    · exact h.used hq'

theorem mkdir (h : Proper nodes inodes) (p : UnixPath) : Proper (nodes.insert p .dir) inodes := by
  have hold {q : UnixPath} {i : Nat} (hq : (nodes.insert p .dir).lookup q = some (.file i)) :
      nodes.lookup q = some (.file i) := by
    by_cases hqp : q = p
    · subst hqp
      rw [AList.lookup_insert] at hq
      cases hq
    · rwa [AList.lookup_insert_ne hqp] at hq
  exact ⟨fun hq hr => h.unlinked (hold hq) (hold hr), fun hq => h.used (hold hq)⟩

theorem add (h : Proper nodes inodes) (p : UnixPath) : Proper (nodes.insert p (.file inodes)) (inodes + 1) := by
  have hup : Proper nodes (inodes + 1) := ⟨h.unlinked, fun hq => Nat.lt_succ_of_lt (h.used hq)⟩
  exact hup.insert (Nat.lt_succ_self _) fun q hq => absurd (h.used hq) (lt_irrefl _)

/-- A file gives up its name for another. -/
theorem move (h : Proper nodes inodes) {p : UnixPath} {i : Nat} (hp : nodes.lookup p = some (.file i))
    (q : UnixPath) : Proper ((nodes.erase p).insert q (.file i)) inodes := by
  refine (h.erase p).insert (h.used hp) fun r hr => ?_
  by_cases hrp : r = p
  · subst hrp
    rw [AList.lookup_erase] at hr
    cases hr
  · rw [AList.lookup_erase_ne hrp] at hr
    exact hrp (h.unlinked hr hp)

end Proper

/-- An open file and the place in it. -/
structure Handle where
  inode : Nat
  offset : Nat

end Fs

/-- Names, the contents behind them, and the open files. -/
structure Fs where
  nodes : Fs.Names
  data : Nat → Fs.Bytes
  handles : Nat → Option Fs.Handle
  /-- The numbers of the next file and of the next descriptor. -/
  inodes : Nat
  opened : Nat
  proper : Fs.Proper nodes inodes

namespace Fs

open Function (update)
open UnixPath (Name child parent separator)

/-- `std::io::ErrorKind`, as far as it is told apart. -/
inductive ErrorKind
  | notFound
  | alreadyExists
  | isADirectory
  | interrupted
  | writeZero
  | other
  deriving DecidableEq, Repr

/-- `std::io::Error`: its kind and its text. -/
structure IoError where
  kind : ErrorKind
  message : String
  deriving DecidableEq, Repr

def notFound : IoError := ⟨.notFound, "No such file or directory (os error 2)"⟩
def alreadyExists : IoError := ⟨.alreadyExists, "File exists (os error 17)"⟩
def isADirectory : IoError := ⟨.isADirectory, "Is a directory (os error 21)"⟩
def badDescriptor : IoError := ⟨.other, "Bad file descriptor (os error 9)"⟩

/-! ## What names show -/

/-- What is seen at a name. -/
inductive Entry
  | dir
  | file (content : Bytes)
  deriving DecidableEq

/-- What is seen at `p`, if anything is there. -/
def look (s : Fs) (p : UnixPath) : Option Entry :=
  match s.nodes.lookup p with
  | none => none
  | some .dir => some .dir
  | some (.file i) => some (.file (s.data i))

/-- The name in the directory `d` that the path is, if it is one. -/
def nameIn (d p : UnixPath) : Option Name :=
  let n := p.drop (d.length + 1)
  if p = child d n ∧ separator ∉ n then some n else none

/-- The names that are in the directory `d`. -/
def entries (s : Fs) (d : UnixPath) : List Name := s.nodes.keys.filterMap (nameIn d)

/-- `new` over `old`, from `offset` on. -/
def overwrite (old : Bytes) (offset : Nat) (new : Bytes) : Bytes :=
  old.take offset ++ List.replicate (offset - old.length) 0 ++ new ++ old.drop (offset + new.length)

section

variable {s t : Fs} {p : UnixPath}

theorem look_isSome : (s.look p).isSome = (s.nodes.lookup p).isSome := by
  unfold look
  split <;> rename_i h <;> rw [h] <;> rfl

theorem look_eq_none : s.look p = none ↔ s.nodes.lookup p = none := by
  rw [← Option.not_isSome_iff_eq_none, look_isSome, Option.not_isSome_iff_eq_none]

theorem look_eq_dir : s.look p = some .dir ↔ s.nodes.lookup p = some .dir := by
  unfold look
  split <;> rename_i h <;> simp [h]

theorem look_of_file {i : Nat} (h : s.nodes.lookup p = some (.file i)) : s.look p = some (.file (s.data i)) := by
  simp only [look, h]

theorem file_of_look {content : Bytes} (h : s.look p = some (.file content)) :
    ∃ i, s.nodes.lookup p = some (.file i) ∧ s.data i = content := by
  unfold look at h
  split at h
  · cases h
  · cases h
  · rename_i i hi
    cases h
    exact ⟨i, hi, rfl⟩

/-- The content of one file changes: that of its name. -/
theorem look_of_data {i : Nat} {content : Bytes} (hp : s.nodes.lookup p = some (.file i)) (hn : t.nodes = s.nodes)
    (hd : t.data = update s.data i content) : t.look = update s.look p (some (.file content)) := by
  funext q
  by_cases hq : q = p
  · subst hq
    rw [Function.update_self, look_of_file (hn ▸ hp), hd, Function.update_self]
  · rw [Function.update_of_ne hq]
    simp only [look, hn, hd]
    cases hl : s.nodes.lookup q with
    | none => rfl
    | some node =>
      cases node with
      | dir => rfl
      | file j =>
        have hji : j ≠ i := fun h => hq (s.proper.unlinked (h ▸ hl) hp)
        simp only [Function.update_of_ne hji]

theorem nameIn_eq_some {d : UnixPath} {n : Name} : nameIn d p = some n ↔ p = child d n ∧ separator ∉ n := by
  simp only [nameIn, Option.ite_none_right_eq_some, Option.some.injEq]
  constructor
  · rintro ⟨h, rfl⟩
    exact h
  · rintro ⟨rfl, hn⟩
    have hdrop : (child d n).drop (d.length + 1) = n := by simp [child]
    rw [hdrop]
    exact ⟨⟨rfl, hn⟩, rfl⟩

/-- The entries of a directory are the names in it that stand for something. -/
theorem mem_entries {d : UnixPath} {n : Name} : n ∈ s.entries d ↔ separator ∉ n ∧ (s.look (child d n)).isSome := by
  simp only [entries, List.mem_filterMap, nameIn_eq_some, look_isSome, AList.lookup_isSome]
  constructor
  · rintro ⟨p, hp, rfl, hn⟩
    exact ⟨hn, hp⟩
  · rintro ⟨hn, hp⟩
    exact ⟨_, hp, rfl, hn⟩

theorem nodup_entries (s : Fs) (d : UnixPath) : (s.entries d).Nodup := by
  refine List.Nodup.filterMap (fun p q n hp hq => ?_) s.nodes.nodupKeys
  rw [Option.mem_def, nameIn_eq_some] at hp hq
  rw [hp.1, hq.1]

end

/-! ## Operations -/

/-- A descriptor for a file. -/
def openFile (s : Fs) (i : Nat) : Fs :=
  { s with handles := update s.handles s.opened (some ⟨i, 0⟩), opened := s.opened + 1 }

/-- A new file without content, under the name `p`. -/
def addFile (s : Fs) (p : UnixPath) : Fs :=
  { s with
    nodes := s.nodes.insert p (.file s.inodes)
    data := update s.data s.inodes []
    inodes := s.inodes + 1
    proper := s.proper.add p }

/-- Open for writing; the file must not be there. -/
def createNew (s : Fs) (p : UnixPath) : Except IoError Nat × Fs :=
  match s.nodes.lookup p with
  | some _ => (.error alreadyExists, s)
  | none =>
    if s.nodes.lookup (parent p) = some .dir then (.ok s.opened, (s.addFile p).openFile s.inodes)
    else (.error notFound, s)

/-- Open for writing; a file that is there loses its content. -/
def create (s : Fs) (p : UnixPath) : Except IoError Nat × Fs :=
  match s.nodes.lookup p with
  | some (.file i) => (.ok s.opened, { s with data := update s.data i [] }.openFile i)
  | some .dir => (.error isADirectory, s)
  | none => s.createNew p

/-- Write `bytes` at the place of the descriptor, which moves on. -/
def writeAt (s : Fs) (fd : Nat) (h : Handle) (bytes : Bytes) : Fs :=
  { s with
    data := update s.data h.inode (overwrite (s.data h.inode) h.offset bytes)
    handles := update s.handles fd (some { h with offset := h.offset + bytes.length }) }

/-- Write a part of `bytes`: the first `n`. -/
def write (s : Fs) (fd : Nat) (bytes : Bytes) (n : Nat) : Except IoError Nat × Fs :=
  match s.handles fd with
  | some h => (.ok (bytes.take n).length, s.writeAt fd h (bytes.take n))
  | none => (.error badDescriptor, s)

/-- The file at `p` takes the name `q`, from the file that has it. -/
def rename (s : Fs) (p q : UnixPath) : Except IoError Unit × Fs :=
  match hp : s.nodes.lookup p with
  | some (.file i) =>
    if s.nodes.lookup q = some .dir then (.error isADirectory, s)
    else if s.nodes.lookup (parent q) = some .dir then
      (.ok (), { s with nodes := (s.nodes.erase p).insert q (.file i), proper := s.proper.move hp q })
    else (.error notFound, s)
  -- directories are not moved
  | some .dir => (.error isADirectory, s)
  | none => (.error notFound, s)

/-- The name is gone; what was opened stays. -/
def remove (s : Fs) (p : UnixPath) : Except IoError Unit × Fs :=
  match s.nodes.lookup p with
  | some (.file _) => (.ok (), { s with nodes := s.nodes.erase p, proper := s.proper.erase p })
  | some .dir => (.error isADirectory, s)
  | none => (.error notFound, s)

/-- A directory where there is nothing, in one that is there. -/
def mkdir (s : Fs) (p : UnixPath) : Except IoError Unit × Fs :=
  match s.nodes.lookup p with
  | some _ => (.error alreadyExists, s)
  | none =>
    if s.nodes.lookup (parent p) = some .dir then
      (.ok (), { s with nodes := s.nodes.insert p .dir, proper := s.proper.mkdir p })
    else (.error notFound, s)

/-- The content of the file at `p`. -/
def read (s : Fs) (p : UnixPath) : Except IoError Bytes :=
  match s.look p with
  | some (.file content) => .ok content
  | some .dir => .error isADirectory
  | none => .error notFound

/-- The entries of the directory `d`, in the order that `names` has. -/
def readDir (s : Fs) (d : UnixPath) (names : List Name) : Except IoError (List Name) :=
  match s.look d with
  | some .dir => .ok names
  | some (.file _) => .error ⟨.other, "Not a directory (os error 20)"⟩
  | none => .error notFound

/-- What a program asks of the file system. -/
inductive Op
  | exists_ (p : UnixPath)
  | isDir (p : UnixPath)
  | mkdir (p : UnixPath)
  | createNew (p : UnixPath)
  | create (p : UnixPath)
  | write (fd : Nat) (bytes : Bytes)
  | sync (fd : Nat)
  | rename (p q : UnixPath)
  | remove (p : UnixPath)
  | read (p : UnixPath)
  | readDir (d : UnixPath)

/-- What an operation answers. -/
@[reducible] def Ans : Op → Type
  | .exists_ _ | .isDir _ => Bool
  | .createNew _ | .create _ | .write _ _ => Except IoError Nat
  | .mkdir _ | .sync _ | .rename _ _ | .remove _ => Except IoError Unit
  | .read _ => Except IoError Bytes
  | .readDir _ => Except IoError (List Name)

/-- How an operation is answered. -/
inductive Choice
  | plain
  /-- A write writes so many bytes. -/
  | short (n : Nat)
  /-- A directory is listed in this order. -/
  | order (names : List Name)
  /-- The operation fails, a write behind `n` bytes. -/
  | fault (error : IoError) (n : Nat)
  deriving DecidableEq

/-- The operation fails for a reason of its own. -/
def Choice.isFault : Choice → Bool
  | .fault _ _ => true
  | _ => false

/-- The answer that comes, and the state after it. -/
def apply (s : Fs) : (op : Op) → Ans op × Fs
  | .exists_ p => ((s.nodes.lookup p).isSome, s)
  | .isDir p => (s.nodes.lookup p = some .dir, s)
  | .mkdir p => s.mkdir p
  | .createNew p => s.createNew p
  | .create p => s.create p
  | .write fd bytes => s.write fd bytes bytes.length
  | .sync _ => (.ok (), s)
  | .rename p q => s.rename p q
  | .remove p => s.remove p
  | .read p => (s.read p, s)
  | .readDir d => (s.readDir d (s.entries d), s)

/-- A fault: nothing is done, but for a part of a write. -/
def fail (s : Fs) (error : IoError) (n : Nat) : (op : Op) → Ans op × Fs
  | .exists_ _ | .isDir _ => (false, s)
  | .write fd bytes => (.error error, (s.write fd bytes n).2)
  | .mkdir _ | .createNew _ | .create _ | .sync _ | .rename _ _ | .remove _ | .read _ | .readDir _ =>
    (.error error, s)

/-- The answer to an operation under a choice, if the choice is one for it. -/
def perform (s : Fs) (op : Op) : Choice → Option (Ans op × Fs)
  | .plain => some (s.apply op)
  | .short n =>
    match op with
    | .write fd bytes => if 0 < n ∧ n ≤ bytes.length then some (s.write fd bytes n) else none
    | _ => none
  | .order names =>
    match op with
    | .readDir d => if names.Perm (s.entries d) then some (s.readDir d names, s) else none
    | _ => none
  | .fault error n => some (s.fail error n op)

/-- The file system as the surroundings of a program: without faults, or with any. -/
def world (faults : Bool) : Prog.World Op Ans Fs := fun s op ans s' =>
  ∃ c : Choice, (c.isFault → faults = true) ∧ s.perform op c = some (ans, s')

/-- It is answered in one way, but for faults. -/
def Op.isSingle : Op → Bool
  | .write _ _ | .readDir _ => false
  | _ => true

theorem world_of_false {faults : Bool} {s s' : Fs} {op : Op} {ans : Ans op} (h : world false s op ans s') :
    world faults s op ans s' := by
  obtain ⟨c, hc, hs⟩ := h
  exact ⟨c, fun hf => absurd (hc hf) Bool.false_ne_true, hs⟩

/-! ## What operations do -/

section

variable {s s' : Fs} {p q : UnixPath} {fd : Nat} {written bytes : Bytes}

/-- The file at `p` is being written through `fd`, and holds what was written. -/
def Writing (s : Fs) (fd : Nat) (p : UnixPath) (written : Bytes) : Prop :=
  ∃ i, s.nodes.lookup p = some (.file i) ∧ s.handles fd = some ⟨i, written.length⟩ ∧ s.data i = written

theorem Writing.look (h : s.Writing fd p written) : s.look p = some (.file written) := by
  obtain ⟨i, hp, -, hd⟩ := h
  rw [look_of_file hp, hd]

/-- A file opened empty, under its name. -/
theorem writing_open {i : Nat} (hp : s.nodes.lookup p = some (.file i)) (hd : s.data i = []) :
    (s.openFile i).Writing s.opened p [] ∧ (s.openFile i).look = s.look :=
  ⟨⟨i, hp, by simp [openFile], hd⟩, rfl⟩

theorem look_addFile : (s.addFile p).look = update s.look p (some (.file [])) := by
  funext q
  by_cases hq : q = p
  · subst hq
    simp [look, addFile]
  · rw [Function.update_of_ne hq]
    simp only [look, addFile, AList.lookup_insert_ne hq]
    cases hl : s.nodes.lookup q with
    | none => rfl
    | some node =>
      cases node with
      | dir => rfl
      | file j =>
        have hj : j ≠ s.inodes := (s.proper.used hl).ne
        simp only [Function.update_of_ne hj]

/-- `createNew` makes an empty file where there is none, in a directory. -/
theorem createNew_of_none (hp : s.look p = none) (hd : s.look (parent p) = some .dir) :
    ∃ s', s.createNew p = (.ok s.opened, s') ∧ s'.Writing s.opened p [] ∧
      s'.look = update s.look p (some (.file [])) := by
  refine ⟨(s.addFile p).openFile s.inodes, ?_, ?_⟩
  · rw [createNew, look_eq_none.mp hp]
    simp only [if_pos (look_eq_dir.mp hd)]
  have hopen := writing_open (s := s.addFile p) (p := p) (i := s.inodes) (by simp [addFile]) (by simp [addFile])
  exact ⟨hopen.1, hopen.2.trans look_addFile⟩

/-- Otherwise it fails, and nothing changes. -/
theorem createNew_of_some (hp : s.look p ≠ none) : s.createNew p = (.error alreadyExists, s) := by
  obtain ⟨node, hn⟩ := Option.ne_none_iff_exists'.mp fun h => hp (look_eq_none.mpr h)
  rw [createNew, hn]

theorem createNew_of_noDir (hp : s.look p = none) (hd : s.look (parent p) ≠ some .dir) :
    s.createNew p = (.error notFound, s) := by
  rw [createNew, look_eq_none.mp hp]
  simp only [if_neg fun h => hd (look_eq_dir.mpr h)]

/-- There is a file, or a directory for one. -/
def CanCreate (s : Fs) (p : UnixPath) : Prop :=
  s.look p ≠ some .dir ∧ (s.look p = none → s.look (parent p) = some .dir)

/-- `create` leaves an empty file, where it does not fail. -/
theorem create_spec (s : Fs) (p : UnixPath) :
    (∃ error, s.create p = (.error error, s) ∧ ¬s.CanCreate p) ∨
    ∃ s', s.create p = (.ok s.opened, s') ∧ s.CanCreate p ∧ s'.Writing s.opened p [] ∧
      s'.look = update s.look p (some (.file [])) := by
  cases hl : s.nodes.lookup p with
  | none =>
    have hp := look_eq_none.mpr hl
    have hc : s.create p = s.createNew p := by rw [create, hl]
    rw [hc]
    by_cases hd : s.look (parent p) = some .dir
    · obtain ⟨s', hs', hw⟩ := createNew_of_none hp hd
      exact .inr ⟨s', hs', ⟨by simp [hp], fun _ => hd⟩, hw⟩
    · exact .inl ⟨_, createNew_of_noDir hp hd, fun h => hd (h.2 hp)⟩
  | some node =>
    cases node with
    | dir => exact .inl ⟨_, by rw [create, hl], fun h => h.1 (look_eq_dir.mpr hl)⟩
    | file i =>
      let s₁ : Fs := { s with data := update s.data i [] }
      have hlook : s₁.look = update s.look p (some (.file [])) := look_of_data hl rfl rfl
      have hopen := writing_open (s := s₁) (p := p) (i := i) hl (by simp [s₁])
      exact .inr ⟨s₁.openFile i, by rw [create, hl], by simp [CanCreate, look_of_file hl], hopen.1,
        hopen.2.trans hlook⟩

theorem overwrite_end (written new : Bytes) : overwrite written written.length new = written ++ new := by
  simp [overwrite]

/-- A write through the descriptor appends. -/
theorem Writing.write (h : s.Writing fd p written) (bytes : Bytes) (n : Nat) :
    ∃ s', s.write fd bytes n = (.ok (bytes.take n).length, s') ∧ s'.Writing fd p (written ++ bytes.take n) ∧
      s'.look = update s.look p (some (.file (written ++ bytes.take n))) := by
  obtain ⟨i, hp, hh, hd⟩ := h
  refine ⟨s.writeAt fd ⟨i, written.length⟩ (bytes.take n), by rw [Fs.write, hh], ⟨i, hp, ?_, ?_⟩, ?_⟩
  · simp [writeAt]
  · simp [writeAt, hd, overwrite_end]
  · exact look_of_data hp rfl (by simp only [writeAt, hd, overwrite_end])

theorem look_erase (s : Fs) (p : UnixPath) (hp : Proper (s.nodes.erase p) s.inodes) :
    ({ s with nodes := s.nodes.erase p, proper := hp } : Fs).look = update s.look p none := by
  funext q
  by_cases hq : q = p
  · subst hq
    simp [look]
  · rw [Function.update_of_ne hq]
    simp only [look, AList.lookup_erase_ne hq]

/-- There is a file at `p`, and a place for it at `q`. -/
def CanRename (s : Fs) (p q : UnixPath) (content : Bytes) : Prop :=
  s.look p = some (.file content) ∧ s.look q ≠ some .dir ∧ s.look (parent q) = some .dir

/-- A file takes another name. -/
theorem rename_of_file {content : Bytes} (h : s.CanRename p q content) :
    ∃ s', s.rename p q = (.ok (), s') ∧ s'.look = update (update s.look p none) q (some (.file content)) := by
  obtain ⟨hp, hq, hd⟩ := h
  obtain ⟨i, hi, rfl⟩ := file_of_look hp
  have hq' : s.nodes.lookup q ≠ some .dir := fun h => hq (look_eq_dir.mpr h)
  refine ⟨{ s with nodes := (s.nodes.erase p).insert q (.file i), proper := s.proper.move hi q }, ?_, ?_⟩
  · unfold Fs.rename
    split
    · rename_i j hj
      cases hi.symm.trans hj
      rw [if_neg hq', if_pos (look_eq_dir.mp hd)]
    · rename_i hj
      cases hi.symm.trans hj
    · rename_i hj
      cases hi.symm.trans hj
  · funext r
    by_cases hr : r = q
    · subst hr
      simp [look]
    · rw [Function.update_of_ne hr, ← look_erase s p (s.proper.erase p)]
      simp only [look, AList.lookup_insert_ne hr]

/-- A `rename` that fails changes nothing. -/
theorem rename_spec (s : Fs) (p q : UnixPath) :
    (∃ error, s.rename p q = (.error error, s) ∧ ∀ content, ¬s.CanRename p q content) ∨
    ∃ s' content, s.rename p q = (.ok (), s') ∧ s.CanRename p q content ∧
      s'.look = update (update s.look p none) q (some (.file content)) := by
  by_cases hfile : ∃ content, s.CanRename p q content
  · obtain ⟨content, hcan⟩ := hfile
    obtain ⟨s', hs', hlook⟩ := rename_of_file hcan
    exact .inr ⟨s', content, hs', hcan, hlook⟩
  · have hno : ∀ content, ¬s.CanRename p q content := fun content h => hfile ⟨content, h⟩
    left
    unfold Fs.rename
    split
    · rename_i i hi
      split
      · exact ⟨_, rfl, hno⟩
      · rename_i hq
        split
        · rename_i hd
          exact absurd ⟨look_of_file hi, fun h => hq (look_eq_dir.mp h), look_eq_dir.mpr hd⟩ (hno _)
        · exact ⟨_, rfl, hno⟩
    · exact ⟨_, rfl, hno⟩
    · exact ⟨_, rfl, hno⟩

theorem look_mkdir (s : Fs) (p : UnixPath) (hp : Proper (s.nodes.insert p .dir) s.inodes) :
    ({ s with nodes := s.nodes.insert p .dir, proper := hp } : Fs).look = update s.look p (some .dir) := by
  funext q
  by_cases hq : q = p
  · subst hq
    simp [look]
  · rw [Function.update_of_ne hq]
    simp only [look, AList.lookup_insert_ne hq]

/-- `mkdir` makes a directory where there is none, or fails. -/
theorem mkdir_spec (s : Fs) (p : UnixPath) :
    (s.look p ≠ none ∧ s.mkdir p = (.error alreadyExists, s)) ∨
    (s.look p = none ∧ s.look (parent p) ≠ some .dir ∧ s.mkdir p = (.error notFound, s)) ∨
    ∃ s', s.mkdir p = (.ok (), s') ∧ s.look p = none ∧ s'.look = update s.look p (some .dir) := by
  cases hl : s.nodes.lookup p with
  | some node =>
    have hp : s.look p ≠ none := fun h => by
      rw [look_eq_none.mp h] at hl
      cases hl
    exact .inl ⟨hp, by rw [mkdir, hl]⟩
  | none =>
    have hp := look_eq_none.mpr hl
    by_cases hd : s.nodes.lookup (parent p) = some .dir
    · refine .inr (.inr ⟨_, ?_, hp, look_mkdir s p (s.proper.mkdir p)⟩)
      rw [mkdir, hl]
      simp only [if_pos hd]
    · refine .inr (.inl ⟨hp, fun h => hd (look_eq_dir.mp h), ?_⟩)
      rw [mkdir, hl]
      simp only [if_neg hd]

theorem remove_of_file {content : Bytes} (hp : s.look p = some (.file content)) :
    ∃ s', s.remove p = (.ok (), s') ∧ s'.look = update s.look p none := by
  obtain ⟨i, hi, -⟩ := file_of_look hp
  exact ⟨_, by rw [Fs.remove, hi], look_erase s p _⟩

end

/-! ## What a program sees -/

section

variable {faults : Bool} {s s' : Fs} {p q d : UnixPath} {fd : Nat} {written bytes : Bytes}

/-- An operation with one answer gives it, or fails. -/
theorem world_single {op : Op} {ans : Ans op} (hop : op.isSingle) (h : world faults s op ans s') :
    s.apply op = (ans, s') ∨ faults = true ∧ ∃ error, s.fail error 0 op = (ans, s') := by
  obtain ⟨c, hc, h⟩ := h
  cases c with
  | plain => exact .inl (Option.some.inj h)
  | short n =>
    cases op with
    | write fd bytes => cases hop
    | _ => cases h
  | order names =>
    cases op with
    | readDir d => cases hop
    | _ => cases h
  | fault error n =>
    refine .inr ⟨hc rfl, error, ?_⟩
    cases op with
    | write fd bytes => cases hop
    | _ => exact Option.some.inj h

theorem world_exists {ans : Bool} (h : world faults s (.exists_ p) ans s') :
    s' = s ∧ (ans = true → (s.look p).isSome) ∧ (faults = false → ans = (s.look p).isSome) := by
  rcases world_single rfl h with h | ⟨hf, error, h⟩
  · cases h
    simp [look_isSome]
  · cases h
    exact ⟨rfl, nofun, fun hf' => by simp [hf'] at hf⟩

theorem world_isDir {ans : Bool} (h : world faults s (.isDir p) ans s') :
    s' = s ∧ (ans = true → s.look p = some .dir) ∧ (faults = false → ans = decide (s.look p = some .dir)) := by
  rcases world_single rfl h with h | ⟨hf, error, h⟩
  · cases h
    simp [look_eq_dir]
  · cases h
    exact ⟨rfl, nofun, fun hf' => by simp [hf'] at hf⟩

theorem world_mkdir {ans : Except IoError Unit} (h : world faults s (.mkdir p) ans s') :
    (∃ error, ans = .error error ∧ s' = s ∧ (faults = false →
      error = alreadyExists ∧ s.look p ≠ none ∨ s.look p = none ∧ s.look (parent p) ≠ some .dir)) ∨
    ans = .ok () ∧ s.look p = none ∧ s'.look = update s.look p (some .dir) := by
  rcases world_single rfl h with h | ⟨hf, error, h⟩
  · have h : s.mkdir p = (ans, s') := h
    rcases mkdir_spec s p with ⟨hp, he⟩ | ⟨hp, hd, he⟩ | ⟨t, ht, hp, hlook⟩
    · cases he.symm.trans h
      exact .inl ⟨_, rfl, rfl, fun _ => .inl ⟨rfl, hp⟩⟩
    · cases he.symm.trans h
      exact .inl ⟨_, rfl, rfl, fun _ => .inr ⟨hp, hd⟩⟩
    · cases ht.symm.trans h
      exact .inr ⟨rfl, hp, hlook⟩
  · cases h
    exact .inl ⟨error, rfl, rfl, fun hf' => by simp [hf'] at hf⟩

theorem world_createNew {ans : Except IoError Nat} (h : world faults s (.createNew p) ans s') :
    (∃ error, ans = .error error ∧ s' = s ∧ (faults = false → s.createNew p = (.error error, s))) ∨
    ∃ fd, ans = .ok fd ∧ s.look p = none ∧ s.look (parent p) = some .dir ∧ s'.Writing fd p [] ∧
      s'.look = update s.look p (some (.file [])) := by
  rcases world_single rfl h with h | ⟨hf, error, h⟩
  · have h : s.createNew p = (ans, s') := h
    by_cases hp : s.look p = none
    · by_cases hd : s.look (parent p) = some .dir
      · obtain ⟨t, ht, hw, hlook⟩ := createNew_of_none hp hd
        cases ht.symm.trans h
        exact .inr ⟨_, rfl, hp, hd, hw, hlook⟩
      · have hfail := createNew_of_noDir hp hd
        cases hfail.symm.trans h
        exact .inl ⟨_, rfl, rfl, fun _ => hfail⟩
    · have hfail := createNew_of_some hp
      cases hfail.symm.trans h
      exact .inl ⟨_, rfl, rfl, fun _ => hfail⟩
  · cases h
    exact .inl ⟨error, rfl, rfl, fun hf' => by simp [hf'] at hf⟩

theorem world_create {ans : Except IoError Nat} (h : world faults s (.create p) ans s') :
    (∃ error, ans = .error error ∧ s' = s ∧ (faults = false → ¬s.CanCreate p)) ∨
    ∃ fd, ans = .ok fd ∧ s.CanCreate p ∧ s'.Writing fd p [] ∧ s'.look = update s.look p (some (.file [])) := by
  rcases world_single rfl h with h | ⟨hf, error, h⟩
  · have h : s.create p = (ans, s') := h
    rcases create_spec s p with ⟨error, he, hcause⟩ | ⟨t, ht, hc, hw, hlook⟩
    · cases he.symm.trans h
      exact .inl ⟨_, rfl, rfl, fun _ => hcause⟩
    · cases ht.symm.trans h
      exact .inr ⟨_, rfl, hc, hw, hlook⟩
  · cases h
    exact .inl ⟨error, rfl, rfl, fun hf' => by simp [hf'] at hf⟩

/-- A write appends a part of the bytes, and fails only by a fault. -/
theorem world_write {ans : Except IoError Nat} (hw : s.Writing fd p written)
    (h : world faults s (.write fd bytes) ans s') :
    ∃ n ≤ bytes.length, s'.Writing fd p (written ++ bytes.take n) ∧
      s'.look = update s.look p (some (.file (written ++ bytes.take n))) ∧
      (ans = .ok n ∧ (bytes ≠ [] → 0 < n) ∨ faults = true ∧ ∃ error, ans = .error error) := by
  obtain ⟨c, hc, h⟩ := h
  have hwrite (n : Nat) := hw.write bytes n
  cases c with
  | plain =>
    have h : s.write fd bytes bytes.length = (ans, s') := Option.some.inj h
    obtain ⟨t, ht, hw', hlook⟩ := hwrite bytes.length
    cases ht.symm.trans h
    refine ⟨bytes.length, le_rfl, hw', hlook, .inl ⟨by rw [List.take_length], List.length_pos_iff.mpr⟩⟩
  | short n =>
    simp only [perform, Option.ite_none_right_eq_some] at h
    obtain ⟨⟨hpos, hle⟩, h⟩ := h
    have h : s.write fd bytes n = (ans, s') := Option.some.inj h
    obtain ⟨t, ht, hw', hlook⟩ := hwrite n
    cases ht.symm.trans h
    exact ⟨n, hle, hw', hlook, .inl ⟨by rw [List.length_take_of_le hle], fun _ => hpos⟩⟩
  | fault error n =>
    obtain ⟨t, ht, hw', hlook⟩ := hwrite (min n bytes.length)
    have htake : bytes.take n = bytes.take (min n bytes.length) := by
      rw [← List.take_take, List.take_length]
    have hs : s' = t := by
      have hs : (s.write fd bytes n).2 = s' := (Prod.mk.inj (Option.some.inj h)).2
      have heq : s.write fd bytes n = s.write fd bytes (min n bytes.length) := by
        simp only [Fs.write, htake]
      rw [← hs, heq, ht]
    have hans : ans = .error error := (Prod.mk.inj (Option.some.inj h)).1.symm
    exact ⟨min n bytes.length, min_le_right _ _, hs ▸ hw', hs ▸ hlook, .inr ⟨hc rfl, error, hans⟩⟩
  | order => cases h

/-- No write changes names. -/
theorem nodes_write {ans : Except IoError Nat} (h : world faults s (.write fd bytes) ans s') : s'.nodes = s.nodes := by
  have hwrite (n : Nat) : (s.write fd bytes n).2.nodes = s.nodes := by
    unfold Fs.write
    split <;> rfl
  obtain ⟨c, -, h⟩ := h
  cases c with
  | plain =>
    have hs : (s.write fd bytes bytes.length).2 = s' := congrArg Prod.snd (Option.some.inj h)
    rw [← hs, hwrite]
  | short n =>
    simp only [perform, Option.ite_none_right_eq_some] at h
    have hs : (s.write fd bytes n).2 = s' := congrArg Prod.snd (Option.some.inj h.2)
    rw [← hs, hwrite]
  | order names => cases h
  | fault error n =>
    have hs : (s.write fd bytes n).2 = s' := congrArg Prod.snd (Option.some.inj h)
    rw [← hs, hwrite]

theorem world_sync {ans : Except IoError Unit} (h : world faults s (.sync fd) ans s') :
    s' = s ∧ (faults = false → ans = .ok ()) := by
  rcases world_single rfl h with h | ⟨hf, error, h⟩
  · cases h
    exact ⟨rfl, fun _ => rfl⟩
  · cases h
    exact ⟨rfl, fun hf' => by simp [hf'] at hf⟩

theorem world_rename {ans : Except IoError Unit} (h : world faults s (.rename p q) ans s') :
    (∃ error, ans = .error error ∧ s' = s ∧ (faults = false → ∀ content, ¬s.CanRename p q content)) ∨
    ans = .ok () ∧ ∃ content, s.CanRename p q content ∧
      s'.look = update (update s.look p none) q (some (.file content)) := by
  rcases world_single rfl h with h | ⟨hf, error, h⟩
  · have h : s.rename p q = (ans, s') := h
    rcases rename_spec s p q with ⟨error, he, hno⟩ | ⟨t, content, ht, hcan, hlook⟩
    · cases he.symm.trans h
      exact .inl ⟨_, rfl, rfl, fun _ => hno⟩
    · cases ht.symm.trans h
      exact .inr ⟨rfl, content, hcan, hlook⟩
  · cases h
    exact .inl ⟨error, rfl, rfl, fun hf' => by simp [hf'] at hf⟩

end

/-! Without faults, what does not change the state is answered by what names show. -/

section

variable {s s' : Fs} {p d : UnixPath}

theorem world_read {ans : Except IoError Bytes} (h : world false s (.read p) ans s') : s' = s ∧ ans = s.read p := by
  rcases world_single rfl h with h | ⟨hf, -⟩
  · cases h
    exact ⟨rfl, rfl⟩
  · cases hf

theorem world_readDir {ans : Except IoError (List Name)} (h : world false s (.readDir d) ans s') :
    s' = s ∧ ∃ names, names.Perm (s.entries d) ∧ ans = s.readDir d names := by
  obtain ⟨c, hc, h⟩ := h
  cases c with
  | plain => cases h; exact ⟨rfl, _, .refl _, rfl⟩
  | order names =>
    simp only [perform, Option.ite_none_right_eq_some] at h
    obtain ⟨hperm, h⟩ := h
    cases h
    exact ⟨rfl, names, hperm, rfl⟩
  | fault => exact absurd (hc rfl) Bool.false_ne_true
  | short => cases h

theorem world_remove {ans : Except IoError Unit} (h : world false s (.remove p) ans s') :
    (ans, s') = s.remove p := by
  rcases world_single rfl h with h | ⟨hf, -⟩
  · exact h.symm
  · cases hf

/-- There always is an answer. -/
theorem world_apply (s : Fs) (op : Op) (faults : Bool) : world faults s op (s.apply op).1 (s.apply op).2 :=
  ⟨.plain, nofun, rfl⟩

end

end Fs
