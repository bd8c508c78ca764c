import WireSurge.Lib.Utf8

/-!
# Paths

`join`, `parent`, `fileName` and `extension` of a Unix path, which is any bytes. The
entry `n` of the directory `d` has the path `child d n`; the entries of one directory
have different paths (`child_injective`). A path need not be a text (`IsText`), and what
is shown of it (`display`) need not name the same file; what is shown of an entry with an
ASCII name is under what is shown of its directory (`display_child`).
-/

/-- The bytes of a path. -/
abbrev UnixPath := List UInt8

namespace UnixPath

open Str (Text)

/-- A single component. -/
abbrev Name := List UInt8

/-- The slash. -/
def separator : UInt8 := 0x2F

def dot : UInt8 := 0x2E

/-- The path that a text is. -/
def ofText (s : String) : UnixPath := Str.encode s.toList

/-- `path.display()`. -/
def display (p : UnixPath) : Text := Str.lossy p

/-- The path is UTF-8. -/
def IsText (p : UnixPath) : Prop := Str.encode (display p) = p

instance (p : UnixPath) : Decidable (IsText p) := inferInstanceAs (Decidable (_ = _))

/-- A path that starts at the root replaces the base. -/
def join (base path : UnixPath) : UnixPath :=
  if path.head? = some separator then path
  else if base = [] ∨ base.getLast? = some separator then base ++ path
  else base ++ separator :: path

/-- The part behind the last separator. -/
def fileName (p : UnixPath) : Name := p.rtakeWhile (· ≠ separator)

/-- The part before it. -/
def parent (p : UnixPath) : UnixPath := (p.rdropWhile (· ≠ separator)).dropLast

/-- The part of the file name behind its last dot. A dot at its start, as in
`..`, is no such dot. -/
def extension (p : UnixPath) : Option Name :=
  let name := fileName p
  if name = [dot, dot] ∨ (name.rdropWhile (· ≠ dot)).length ≤ 1 then none else some (name.rtakeWhile (· ≠ dot))

/-- What may be the name of an entry in a directory. -/
structure IsName (n : Name) : Prop where
  ne_nil : n ≠ []
  noSeparator : separator ∉ n
  ne_dot : n ≠ [dot]
  ne_dots : n ≠ [dot, dot]

instance (n : Name) : Decidable (IsName n) :=
  decidable_of_iff (n ≠ [] ∧ separator ∉ n ∧ n ≠ [dot] ∧ n ≠ [dot, dot])
    ⟨fun ⟨h₁, h₂, h₃, h₄⟩ => ⟨h₁, h₂, h₃, h₄⟩, fun ⟨h₁, h₂, h₃, h₄⟩ => ⟨h₁, h₂, h₃, h₄⟩⟩

/-- The entry `n` of the directory `d`. -/
def child (d : UnixPath) (n : Name) : UnixPath := d ++ separator :: n

variable {d : UnixPath} {n m : Name}

theorem join_eq_child (hd : d ≠ []) (hs : d.getLast? ≠ some separator) (hn : separator ∉ n) : join d n = child d n := by
  have hhead : n.head? ≠ some separator := fun h => hn (List.mem_of_head? h)
  rw [join, if_neg hhead, if_neg (by simp [hd, hs]), child]

/-- The end of a joined path. -/
theorem getLast?_join (base : UnixPath) (hn : n ≠ []) : (join base n).getLast? = n.getLast? := by
  have happ (a : UnixPath) : (a ++ n).getLast? = n.getLast? := List.getLast?_append_of_ne_nil a hn
  unfold join
  split
  · rfl
  · split
    · exact happ base
    · rw [← List.singleton_append, ← List.append_assoc, happ]

theorem join_ne_nil (base : UnixPath) (hn : n ≠ []) : join base n ≠ [] := by
  intro h
  have := getLast?_join base hn
  rw [h, List.getLast?_nil] at this
  exact hn (List.getLast?_eq_none_iff.mp this.symm)

theorem child_injective (h : child d n = child d m) : n = m := by
  simpa [child] using h

theorem child_ne_self : child d n ≠ d := by
  intro h
  have := congrArg List.length h
  simp [child] at this

/-- Dropping up to the last of a kind of byte. -/
theorem rdropWhile_append_cons {p : UInt8 → Bool} {a b : List UInt8} {c : UInt8} (hb : ∀ x ∈ b, p x) (hc : ¬p c) :
    (a ++ c :: b).rdropWhile p = a ++ [c] := by
  have hrev : (a ++ c :: b).reverse = b.reverse ++ c :: a.reverse := by simp
  rw [List.rdropWhile, hrev, List.dropWhile_append_of_pos fun x hx => hb x (List.mem_reverse.mp hx),
    List.dropWhile_cons_of_neg hc]
  simp

theorem rtakeWhile_append_cons {p : UInt8 → Bool} {a b : List UInt8} {c : UInt8} (hb : ∀ x ∈ b, p x) (hc : ¬p c) :
    (a ++ c :: b).rtakeWhile p = b := by
  have hrev : (a ++ c :: b).reverse = b.reverse ++ c :: a.reverse := by simp
  rw [List.rtakeWhile, hrev, List.takeWhile_append_of_pos fun x hx => hb x (List.mem_reverse.mp hx),
    List.takeWhile_cons_of_neg hc]
  simp

theorem ne_of_not_mem {c : UInt8} (h : c ∉ n) : ∀ x ∈ n, decide (x ≠ c) = true :=
  fun _ hx => decide_eq_true fun he => h (he ▸ hx)

@[simp] theorem parent_child (h : separator ∉ n) : parent (child d n) = d := by
  rw [parent, child, rdropWhile_append_cons (ne_of_not_mem h) (by simp), List.dropLast_concat]

@[simp] theorem fileName_child (h : separator ∉ n) : fileName (child d n) = n := by
  rw [fileName, child, rtakeWhile_append_cons (ne_of_not_mem h) (by simp)]

/-- A stem and an ending behind a dot. -/
theorem extension_child {stem ending : Name} (hn : separator ∉ stem ++ dot :: ending) (hs : stem ≠ [])
    (he : dot ∉ ending) (hne : ending ≠ []) : extension (child d (stem ++ dot :: ending)) = some ending := by
  have hlen : 2 ≤ (stem ++ [dot]).length := by
    have := List.length_pos_iff.mpr hs
    simp only [List.length_append, List.length_singleton]
    omega
  have hdots : stem ++ dot :: ending ≠ [dot, dot] := by
    intro h
    have hlast := congrArg List.getLast? h
    rw [List.getLast?_append_cons, List.getLast?_cons_of_ne_nil hne] at hlast
    exact he (List.mem_of_getLast? hlast)
  have hdot : ¬(decide (dot ≠ dot) = true) := by simp
  simp only [extension, fileName_child hn, rdropWhile_append_cons (ne_of_not_mem he) hdot,
    rtakeWhile_append_cons (ne_of_not_mem he) hdot, hdots, false_or]
  rw [if_neg (by omega)]

/-- A name without a dot has none. -/
theorem extension_of_noDot (hn : separator ∉ n) (hdot : dot ∉ n) : extension (child d n) = none := by
  have hnil : n.rdropWhile (· ≠ dot) = [] := List.rdropWhile_eq_nil_iff.mpr (ne_of_not_mem hdot)
  simp only [extension, fileName_child hn]
  rw [if_pos]
  rw [hnil]
  exact .inr (Nat.zero_le 1)

/-! ## Texts -/

section

variable {a b : String} {p : UnixPath}

theorem ofText_append (a b : String) : ofText (a ++ b) = ofText a ++ ofText b := by
  rw [ofText, String.toList_append, Str.encode_append]
  rfl

theorem length_ofText_append (a b : String) : (ofText (a ++ b)).length = (ofText a).length + (ofText b).length := by
  rw [ofText_append, List.length_append]

theorem ofText_inj : ofText a = ofText b ↔ a = b :=
  ⟨fun h => String.toList_inj.mp (Str.encode_injective h), fun h => h ▸ rfl⟩

theorem eq_of_ofText_append {ending : String} (h : ofText (a ++ ending) = ofText (b ++ ending)) : a = b := by
  rw [ofText_append, ofText_append] at h
  exact ofText_inj.mp (List.append_cancel_right h)

theorem separator_mem_ofText : separator ∈ ofText a ↔ '/' ∈ a.toList :=
  ⟨fun h => Str.mem_of_mem_encode h (by decide), fun h => Str.mem_encode_of_mem h (by decide)⟩

theorem noSeparator_append (ha : '/' ∉ a.toList) (hb : '/' ∉ b.toList) : separator ∉ ofText (a ++ b) := by
  rw [separator_mem_ofText, String.toList_append, List.mem_append]
  exact not_or.mpr ⟨ha, hb⟩

theorem ofText_ne_nil (h : a.toList ≠ []) : ofText a ≠ [] := by
  obtain ⟨c, s, hs⟩ := List.exists_cons_of_ne_nil h
  rw [ofText, hs, Str.encode, List.flatMap_cons]
  exact List.append_ne_nil_of_left_ne_nil String.utf8EncodeChar_ne_nil _

/-- A text with an ending behind a dot. -/
theorem extension_ofText {ending : Name} (hn : separator ∉ ofText (a ++ b)) (ha : a.toList ≠ [])
    (hb : ofText b = dot :: ending) (he : dot ∉ ending) (hne : ending ≠ []) :
    extension (child d (ofText (a ++ b))) = some ending := by
  rw [ofText_append, hb] at hn ⊢
  exact extension_child hn (ofText_ne_nil ha) he hne

theorem isText_iff : IsText p ↔ ∃ s, p = Str.encode s := by
  refine ⟨fun h => ⟨_, h.symm⟩, ?_⟩
  rintro ⟨s, rfl⟩
  rw [IsText, display, Str.lossy_encode]

theorem isText_ofText (a : String) : IsText (ofText a) := isText_iff.mpr ⟨_, rfl⟩

theorem IsText.append (h : IsText d) (h' : IsText p) : IsText (d ++ p) := by
  obtain ⟨s, rfl⟩ := isText_iff.mp h
  obtain ⟨t, rfl⟩ := isText_iff.mp h'
  exact isText_iff.mpr ⟨s ++ t, (Str.encode_append s t).symm⟩

theorem IsText.join (h : IsText d) (a : String) : IsText (join d (ofText a)) := by
  unfold UnixPath.join
  split
  · exact isText_ofText a
  · split
    · exact h.append (isText_ofText a)
    · have hslash : separator :: ofText a = ofText "/" ++ ofText a := rfl
      rw [hslash]
      exact h.append ((isText_ofText "/").append (isText_ofText a))

/-- What is in front of a text that begins with an ASCII character is shown by itself. -/
theorem IsText.of_append {c : Char} {t : Text} (hc : c.toNat ≤ 127) (h : IsText (d ++ Str.encode (c :: t))) :
    IsText d := by
  have hcons : Str.encode (c :: t) = UInt8.ofNat c.toNat :: Str.encode t := by
    rw [Str.encode, List.flatMap_cons, Str.encodeChar_of_ascii hc]
    rfl
  have hascii : (UInt8.ofNat c.toNat).toNat ≤ 127 := by rwa [Str.toNat_ofNat_char hc]
  rw [IsText, display, hcons, Str.lossy_append hascii, ← hcons, Str.lossy_encode, Str.encode_append] at h
  exact List.append_cancel_right h

theorem IsText.of_join {c : Char} {t : Text} (ha : a.toList = c :: t) (hc : c.toNat ≤ 127) (hsep : c ≠ '/')
    (h : IsText (UnixPath.join d (ofText a))) : IsText d := by
  have hname : ofText a = Str.encode (c :: t) := congrArg Str.encode ha
  unfold UnixPath.join at h
  split at h
  · rename_i hhead
    rw [hname, Str.encode, List.flatMap_cons, Str.encodeChar_of_ascii hc] at hhead
    have hbyte := congrArg UInt8.toNat (Option.some.inj hhead)
    rw [Str.toNat_ofNat_char hc] at hbyte
    exact absurd (Char.toNat_inj.mp (show c.toNat = '/'.toNat from hbyte)) hsep
  · split at h
    · exact .of_append hc (hname ▸ h)
    · have hslash : separator :: ofText a = Str.encode ('/' :: a.toList) := rfl
      rw [hslash] at h
      exact .of_append (by decide) h

/-- What is shown of a path in a directory. -/
theorem display_child (d : UnixPath) (a : String) : display (child d (ofText a)) = display d ++ '/' :: a.toList := by
  have hname : separator :: ofText a = Str.encode ('/' :: a.toList) := rfl
  rw [display, child, Str.lossy_append (by decide), hname, Str.lossy_encode]
  rfl

/-- What is shown of a path in a directory, with more of a name behind it, is in what is
shown of the directory. -/
theorem encode_display_child (d : UnixPath) (a b : String) :
    Str.encode (display (child d (ofText a)) ++ b.toList) = child (Str.encode (display d)) (ofText (a ++ b)) := by
  rw [display_child, Str.encode_append, Str.encode_append, ofText_append, child, List.append_assoc]
  rfl

end

end UnixPath
