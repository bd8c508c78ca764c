import WireSurge.Lib.Fs

/-!
# A file system is a tree

What has a name is in a directory (`Rooted`), and every operation keeps it so, also one
that fails (`Rooted.world`).

`Makeable` is the condition for a directory and those on the way to it to be there or to
be made, and `DirsMade` says that nothing else has been.
-/

namespace UnixPath

variable {p : UnixPath}

theorem parent_above (p : UnixPath) : parent p <+: p :=
  (List.dropLast_prefix _).trans (List.rdropWhile_prefix _ p)

theorem length_parent_lt (h : p ≠ []) : (parent p).length < p.length := by
  have hpos := List.length_pos_iff.mpr h
  have hle := (List.rdropWhile_prefix (fun c => decide (c ≠ separator)) p).length_le
  rw [parent, List.length_dropLast]
  omega

theorem parent_ne_self (h : p ≠ []) : parent p ≠ p := fun he => (length_parent_lt h).ne (congrArg List.length he)

end UnixPath

namespace Fs

open Function (update)
open UnixPath (parent parent_ne_self parent_above)

/-! ## Names are in directories -/

/-- What names show. -/
def Rooted (look : UnixPath → Option Entry) : Prop :=
  ∀ p : UnixPath, p ≠ [] → (look p).isSome → look (parent p) = some .dir

section

variable {look : UnixPath → Option Entry} {p q : UnixPath}

/-- Something takes a name in a directory, which no directory had. -/
theorem Rooted.put (h : Rooted look) (entry : Entry) (hp : look p ≠ some .dir)
    (hparent : p ≠ [] → look (parent p) = some .dir) : Rooted (update look p (some entry)) := by
  intro q hq hsome
  by_cases hqp : q = p
  · subst hqp
    rw [Function.update_of_ne (parent_ne_self hq)]
    exact hparent hq
  · rw [Function.update_of_ne hqp] at hsome
    have hdir := h q hq hsome
    have hne : parent q ≠ p := by
      rintro rfl
      exact hp hdir
    rw [Function.update_of_ne hne]
    exact hdir

/-- A file is gone. -/
theorem Rooted.drop (h : Rooted look) (hp : look p ≠ some .dir) : Rooted (update look p none) := by
  intro q hq hsome
  by_cases hqp : q = p
  · rw [hqp, Function.update_self] at hsome
    cases hsome
  · rw [Function.update_of_ne hqp] at hsome
    have hdir := h q hq hsome
    have hne : parent q ≠ p := by
      rintro rfl
      exact hp hdir
    rw [Function.update_of_ne hne]
    exact hdir

end

section

variable {faults : Bool} {s s' : Fs} {p q : UnixPath}

theorem Rooted.of_nodes (h : Rooted s.look) (hnodes : s'.nodes = s.nodes) : Rooted s'.look := by
  intro q hq hsome
  rw [look_isSome, hnodes, ← look_isSome] at hsome
  rw [look_eq_dir, hnodes, ← look_eq_dir]
  exact h q hq hsome

/-- A directory is made in one that is there. -/
theorem parent_of_mkdir (h : s.mkdir p = (.ok (), s')) : s.look (parent p) = some .dir := by
  unfold mkdir at h
  split at h
  · cases h
  · split at h
    · rename_i hdir
      exact look_eq_dir.mpr hdir
    · cases h

/-- `remove` takes away a file, or fails. -/
theorem remove_cases (s : Fs) (p : UnixPath) :
    (s.remove p).2 = s ∨ s.look p ≠ some .dir ∧ (s.remove p).2.look = update s.look p none := by
  unfold remove
  split
  · rename_i i hi
    refine .inr ⟨?_, look_erase s p _⟩
    rw [look_of_file hi]
    exact nofun
  · exact .inl rfl
  · exact .inl rfl

/-- Every operation keeps what has a name in a directory. -/
theorem Rooted.world {op : Op} {ans : Ans op} (h : Rooted s.look) (hw : world faults s op ans s') : Rooted s'.look := by
  cases op with
  | exists_ p => exact (world_exists hw).1 ▸ h
  | isDir p => exact (world_isDir hw).1 ▸ h
  | sync fd => exact (world_sync hw).1 ▸ h
  | write fd bytes => exact h.of_nodes (nodes_write hw)
  | mkdir p =>
    rcases world_mkdir hw with ⟨error, -, rfl, -⟩ | ⟨rfl, hnone, hlook⟩
    · exact h
    · rcases world_single rfl hw with hok | ⟨-, error, hfail⟩
      · exact hlook ▸ h.put .dir (by rw [hnone]; exact nofun) fun _ => parent_of_mkdir hok
      · cases hfail
  | createNew p =>
    rcases world_createNew hw with ⟨error, -, rfl, -⟩ | ⟨fd, -, hnone, hparent, -, hlook⟩
    · exact h
    · exact hlook ▸ h.put (.file []) (by rw [hnone]; exact nofun) fun _ => hparent
  | create p =>
    rcases world_create hw with ⟨error, -, rfl, -⟩ | ⟨fd, -, hcan, -, hlook⟩
    · exact h
    · refine hlook ▸ h.put (.file []) hcan.1 fun hp => ?_
      cases hp' : s.look p with
      | none => exact hcan.2 hp'
      | some entry => exact h p hp (by rw [hp']; rfl)
  | rename p q =>
    rcases world_rename hw with ⟨error, -, rfl, -⟩ | ⟨-, content, ⟨hfile, hq, hparent⟩, hlook⟩
    · exact h
    · have hp : s.look p ≠ some .dir := by
        rw [hfile]
        exact nofun
      have hne : parent q ≠ p := by
        rintro rfl
        exact hp hparent
      rw [hlook]
      refine (h.drop hp).put (.file content) ?_ fun _ => by rw [Function.update_of_ne hne, hparent]
      rw [Function.update_apply]
      split
      · exact nofun
      · exact hq
  | remove p =>
    rcases world_single rfl hw with hok | ⟨-, error, hfail⟩
    · obtain rfl : (s.remove p).2 = s' := congrArg Prod.snd hok
      rcases remove_cases s p with hsame | ⟨hp, hlook⟩
      · rwa [hsame]
      · exact hlook ▸ h.drop hp
    · cases hfail
      exact h
  | read p =>
    rcases world_single rfl hw with hok | ⟨-, error, hfail⟩
    · cases hok
      exact h
    · cases hfail
      exact h
  | readDir d =>
    obtain ⟨c, -, hc⟩ := hw
    cases c with
    | plain => cases hc; exact h
    | short n => cases hc
    | fault error n => cases hc; exact h
    | order names =>
      simp only [perform, Option.ite_none_right_eq_some] at hc
      cases hc.2
      exact h

end

/-! ## Directories that are made -/

/-- There is a directory, or a place for one and for those on the way to it. -/
inductive Makeable (s : Fs) : UnixPath → Prop
  | there {p : UnixPath} : s.look p = some .dir → Makeable s p
  | under {p : UnixPath} : p ≠ [] → s.look p = none → Makeable s (parent p) → Makeable s p

/-- Nothing has changed but that there are directories on the way to `path`. -/
def DirsMade (path : UnixPath) (s s' : Fs) : Prop :=
  ∀ q, s'.look q = s.look q ∨ q <+: path ∧ s.look q = none ∧ s'.look q = some .dir

section

variable {s s' s'' : Fs} {p q path path' : UnixPath}

theorem DirsMade.refl (path : UnixPath) (s : Fs) : DirsMade path s s := fun _ => .inl rfl

theorem DirsMade.trans (h : DirsMade path s s') (h' : DirsMade path s' s'') : DirsMade path s s'' := by
  intro q
  rcases h q with hq | ⟨hpath, hnone, hdir⟩
  · rw [← hq]
    exact h' q
  · rcases h' q with hq' | ⟨-, hnone', -⟩
    · exact .inr ⟨hpath, hnone, hq'.trans hdir⟩
    · cases hdir.symm.trans hnone'

theorem DirsMade.longer (h : DirsMade path s s') (hpath : path <+: path') : DirsMade path' s s' :=
  fun q => (h q).imp_right fun hq => ⟨hq.1.trans hpath, hq.2⟩

theorem DirsMade.of_mkdir (hq : q <+: path) (hnone : s.look q = none)
    (hlook : s'.look = update s.look q (some .dir)) : DirsMade path s s' := by
  intro r
  by_cases hr : r = q
  · subst hr
    exact .inr ⟨hq, hnone, by rw [hlook, Function.update_self]⟩
  · exact .inl (by rw [hlook, Function.update_of_ne hr])

theorem DirsMade.dir (h : DirsMade path s s') (hq : s.look q = some .dir) : s'.look q = some .dir := by
  rcases h q with hq' | ⟨-, hnone, -⟩
  · exact hq'.trans hq
  · cases hq.symm.trans hnone

/-- A place stays one, when there are more directories on the way to it. -/
theorem Makeable.later (h : Makeable s p)
    (hmade : ∀ q, q <+: p → s'.look q = s.look q ∨ s.look q = none ∧ s'.look q = some .dir) : Makeable s' p := by
  induction h with
  | @there p hdir =>
    rcases hmade p (List.prefix_refl p) with hq | ⟨hnone, -⟩
    · exact .there (hq.trans hdir)
    · cases hdir.symm.trans hnone
  | @under p hne hnone _ ih =>
    rcases hmade p (List.prefix_refl p) with hq | ⟨-, hdir⟩
    · exact .under hne (hq.trans hnone) (ih fun q hq => hmade q (hq.trans (parent_above p)))
    · exact .there hdir

end

end Fs
