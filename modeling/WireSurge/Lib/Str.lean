import Mathlib.Data.List.DropRight
import Mathlib.Data.List.Infix
import WireSurge.Lib.Checked

/-!
# Texts and their bytes

A text is a list of characters; its bytes are their UTF-8 encodings. Offsets
into a text count bytes, and a slice stops the program unless its offset is a
boundary between characters (`sliceFrom`, `sliceTo`); the offset behind a
prefix always is (`sliceFrom_append`). `splitOnce` and `find` look for the
first occurrence of a pattern, `replace` replaces all of them.
-/

namespace Str

open Checked (Checked)

abbrev Text := List Char

/-- The bytes of a text. -/
def encode (s : Text) : List UInt8 := s.flatMap String.utf8EncodeChar

/-- The text of some bytes, if they are UTF-8. -/
def decode (bytes : List UInt8) : Option Text := bytes.toByteArray.utf8Decode?.map Array.toList

theorem decode_encode (s : Text) : decode (encode s) = some s := by
  have h : (encode s).toByteArray = s.utf8Encode := rfl
  rw [decode, h, List.utf8Decode?_utf8Encode, Option.map_some]

/-- The number of its bytes. -/
def size : Text → Nat
  | [] => 0
  | c :: s => c.utf8Size + size s

@[simp] theorem size_append (a b : Text) : size (a ++ b) = size a + size b := by
  induction a with
  | nil => simp [size]
  | cons c a ih => simp only [List.cons_append, size, ih, Nat.add_assoc]

theorem length_encode (s : Text) : (encode s).length = size s := by
  induction s with
  | nil => rfl
  | cons c s ih =>
    rw [encode, List.flatMap_cons, List.length_append, String.length_utf8EncodeChar, size, ← ih, encode]

theorem length_le_size (s : Text) : s.length ≤ size s := by
  induction s with
  | nil => exact Nat.le_refl 0
  | cons c s ih =>
    have := c.utf8Size_pos
    rw [List.length_cons, size]
    omega

/-- A part with all the bytes is the whole. -/
theorem eq_of_part {r s : Text} (h : r <:+: s) (hle : size s ≤ size r) : r = s := by
  obtain ⟨a, b, rfl⟩ := h
  simp only [size_append] at hle
  have ha := length_le_size a
  have hb := length_le_size b
  rw [List.eq_nil_of_length_eq_zero (show a.length = 0 by omega),
    List.eq_nil_of_length_eq_zero (show b.length = 0 by omega), List.nil_append, List.append_nil]

/-- The byte behind a prefix is the first one of the next character. -/
theorem encode_getElem? (a : Text) (c : Char) (b : Text) :
    (encode (a ++ c :: b))[size a]? = (String.utf8EncodeChar c).head? := by
  rw [encode, List.flatMap_append, List.getElem?_append_right (by rw [← length_encode, encode]), ← length_encode,
    encode, Nat.sub_self, List.flatMap_cons, List.getElem?_append_left, List.head?_eq_getElem?]
  rw [String.length_utf8EncodeChar]
  exact c.utf8Size_pos

/-- A byte with a high bit set is not ASCII. -/
theorem lt_toNat_or (x : UInt8) {y : UInt8} (hy : 127 < y.toNat) : 127 < (x ||| y).toNat := by
  rw [UInt8.toNat_or]
  exact Nat.lt_of_lt_of_le hy Nat.right_le_or

/-- The bytes of a character that is not ASCII are not ASCII. -/
theorem encodeChar_bytes (c : Char) :
    c.toNat ≤ 127 ∧ String.utf8EncodeChar c = [UInt8.ofNat c.toNat] ∨
      127 < c.toNat ∧ ∀ b ∈ String.utf8EncodeChar c, 127 < b.toNat := by
  have hnot (h : c.utf8Size ≠ 1) : 127 < c.toNat :=
    Nat.lt_of_not_le fun hle => h (Char.utf8Size_eq_one_iff.mpr (UInt32.le_iff_toNat_le.mpr hle))
  rcases c.utf8Size_eq with h | h | h | h
  · refine .inl ⟨UInt32.le_iff_toNat_le.mp (Char.utf8Size_eq_one_iff.mp h), ?_⟩
    rw [String.utf8EncodeChar_eq_singleton h]
    rfl
  · refine .inr ⟨hnot (by omega), fun b hb => ?_⟩
    rw [String.utf8EncodeChar_eq_cons_cons h] at hb
    simp only [List.mem_cons, List.not_mem_nil, or_false] at hb
    rcases hb with rfl | rfl <;> exact lt_toNat_or _ (by decide)
  · refine .inr ⟨hnot (by omega), fun b hb => ?_⟩
    rw [String.utf8EncodeChar_eq_cons_cons_cons h] at hb
    simp only [List.mem_cons, List.not_mem_nil, or_false] at hb
    rcases hb with rfl | rfl | rfl <;> exact lt_toNat_or _ (by decide)
  · refine .inr ⟨hnot (by omega), fun b hb => ?_⟩
    rw [String.utf8EncodeChar_eq_cons_cons_cons_cons h] at hb
    simp only [List.mem_cons, List.not_mem_nil, or_false] at hb
    rcases hb with rfl | rfl | rfl | rfl <;> exact lt_toNat_or _ (by decide)

theorem encodeChar_of_ascii {c : Char} (h : c.toNat ≤ 127) : String.utf8EncodeChar c = [UInt8.ofNat c.toNat] := by
  rcases encodeChar_bytes c with ⟨-, heq⟩ | ⟨hlt, -⟩
  · exact heq
  · exact absurd h (Nat.not_le.mpr hlt)

/-- The first byte of a character is its own when it is ASCII, and none of
ASCII otherwise. -/
theorem head?_encodeChar (c : Char) :
    c.val ≤ 127 ∧ (String.utf8EncodeChar c).head? = some c.val.toUInt8 ∨
      127 < c.val ∧ ∃ b : UInt8, (String.utf8EncodeChar c).head? = some b ∧ 127 < b.toNat := by
  rcases encodeChar_bytes c with ⟨hle, heq⟩ | ⟨hlt, hbytes⟩
  · exact .inl ⟨UInt32.le_iff_toNat_le.mpr hle, by rw [heq]; rfl⟩
  · obtain ⟨b, rest, heq⟩ := List.exists_cons_of_ne_nil (String.utf8EncodeChar_ne_nil)
    refine .inr ⟨UInt32.lt_iff_toNat_lt.mpr hlt, b, by rw [heq]; rfl, hbytes b ?_⟩
    rw [heq]
    exact List.mem_cons_self

/-- An ASCII character is the only one whose encoding starts with its byte. -/
theorem head?_encodeChar_eq_iff {a : Char} (ha : a.val ≤ 127) (c : Char) :
    (String.utf8EncodeChar c).head? = some a.val.toUInt8 ↔ c = a := by
  have ha' := UInt32.le_iff_toNat_le.mp ha
  have hval : a.val.toUInt8.toNat = a.val.toNat := by
    rw [UInt32.toNat_toUInt8, Nat.mod_eq_of_lt (Nat.lt_of_le_of_lt ha' (by decide))]
  rcases head?_encodeChar c with ⟨hc, hh⟩ | ⟨hc, b, hh, hb⟩
  · have hc' := UInt32.le_iff_toNat_le.mp hc
    have hcval : c.val.toUInt8.toNat = c.val.toNat := by
      rw [UInt32.toNat_toUInt8, Nat.mod_eq_of_lt (Nat.lt_of_le_of_lt hc' (by decide))]
    rw [hh, Option.some.injEq, ← UInt8.toNat_inj, hval, hcval, UInt32.toNat_inj, Char.ext_iff]
  · rw [hh, Option.some.injEq]
    constructor
    · rintro rfl
      rw [hval] at hb
      exact absurd ha' (Nat.not_le.mpr hb)
    · rintro rfl
      exact absurd ha (UInt32.not_le.mpr hc)

/-! ## ASCII -/

section

variable {s t : Text} {b : UInt8} {c : Char}

theorem toNat_ofNat_char (h : c.toNat ≤ 127) : (UInt8.ofNat c.toNat).toNat = c.toNat := by
  rw [UInt8.toNat_ofNat']
  omega

/-- An ASCII byte of a text is a character of it. -/
theorem mem_of_mem_encode (hb : b ∈ encode s) (hascii : b.toNat ≤ 127) : Char.ofNat b.toNat ∈ s := by
  obtain ⟨c, hc, hb⟩ := List.mem_flatMap.mp hb
  rcases encodeChar_bytes c with ⟨hle, heq⟩ | ⟨-, hbig⟩
  · rw [heq, List.mem_singleton] at hb
    rwa [hb, toNat_ofNat_char hle, Char.ofNat_toNat]
  · exact absurd (hbig b hb) (Nat.not_lt.mpr hascii)

theorem mem_encode_of_mem (hc : c ∈ s) (hascii : c.toNat ≤ 127) : UInt8.ofNat c.toNat ∈ encode s := by
  refine List.mem_flatMap.mpr ⟨c, hc, ?_⟩
  rw [encodeChar_of_ascii hascii]
  exact List.mem_singleton_self _

theorem encode_append (s t : Text) : encode (s ++ t) = encode s ++ encode t := List.flatMap_append

theorem encode_injective (h : encode s = encode t) : s = t :=
  Option.some.inj ((decode_encode s).symm.trans ((congrArg decode h).trans (decode_encode t)))

end

/-! ## Slices -/

/-- The text before and behind an offset that is a boundary. -/
def splitAt? : Text → Nat → Option (Text × Text)
  | s, 0 => some ([], s)
  | [], _ + 1 => none
  | c :: s, i + 1 =>
    if c.utf8Size ≤ i + 1 then (splitAt? s (i + 1 - c.utf8Size)).map fun (a, b) => (c :: a, b) else none

/-- `&s[i..]`. -/
def sliceFrom (s : Text) (i : Nat) : Checked Text :=
  match splitAt? s i with
  | some (_, b) => .ok b
  | none => .error (.slice i (size s) (size s))

/-- `&s[..i]`. -/
def sliceTo (s : Text) (i : Nat) : Checked Text :=
  match splitAt? s i with
  | some (a, _) => .ok a
  | none => .error (.slice 0 i (size s))

theorem splitAt?_append (a b : Text) : splitAt? (a ++ b) (size a) = some (a, b) := by
  induction a with
  | nil => simp [size, splitAt?]
  | cons c a ih =>
    obtain ⟨i, hi⟩ : ∃ i, size (c :: a) = i + 1 := ⟨size (c :: a) - 1, by have := c.utf8Size_pos; rw [size]; omega⟩
    have hle : c.utf8Size ≤ i + 1 := by rw [← hi, size]; omega
    have hsub : i + 1 - c.utf8Size = size a := by rw [← hi, size]; omega
    rw [hi, List.cons_append, splitAt?, if_pos hle, hsub, ih, Option.map_some]

theorem sliceFrom_append (a b : Text) : sliceFrom (a ++ b) (size a) = .ok b := by
  rw [sliceFrom, splitAt?_append]

theorem sliceTo_append (a b : Text) : sliceTo (a ++ b) (size a) = .ok a := by
  rw [sliceTo, splitAt?_append]

/-- `char_indices`, from an offset on. -/
def charIndicesFrom : Nat → Text → List (Nat × Char)
  | _, [] => []
  | i, c :: s => (i, c) :: charIndicesFrom (i + c.utf8Size) s

/-- `char_indices`: the characters with their offsets. -/
def charIndices (s : Text) : List (Nat × Char) := charIndicesFrom 0 s

/-! ## Characters -/

/-- The Unicode `White_Space` characters. -/
def isWhitespace (c : Char) : Bool :=
  let n := c.toNat
  (9 ≤ n && n ≤ 13) || n = 0x20 || n = 0x85 || n = 0xA0 || n = 0x1680 || (0x2000 ≤ n && n ≤ 0x200A) || n = 0x2028 ||
    n = 0x2029 || n = 0x202F || n = 0x205F || n = 0x3000

def trim (s : Text) : Text := (s.dropWhile isWhitespace).rdropWhile isWhitespace

/-- `to_ascii_uppercase`. -/
def toAsciiUppercase (s : String) : String := s.map Char.toUpper

/-- `to_ascii_lowercase`. -/
def toAsciiLowercase (s : String) : String := s.map Char.toLower

theorem toUpper_toUpper (c : Char) : c.toUpper.toUpper = c.toUpper := by
  unfold Char.toUpper
  split
  · rename_i h
    rw [dif_neg]
    simp only [UInt32.le_iff_toNat_le, UInt32.toNat_add] at h ⊢
    simp at h ⊢
    omega
  · rfl

theorem toLower_toLower (c : Char) : c.toLower.toLower = c.toLower := by
  unfold Char.toLower
  split
  · rename_i h
    rw [dif_neg]
    simp only [UInt32.le_iff_toNat_le, UInt32.toNat_add] at h ⊢
    simp at h ⊢
    omega
  · rfl

theorem toAsciiUppercase_idem (s : String) : toAsciiUppercase (toAsciiUppercase s) = toAsciiUppercase s := by
  simp only [toAsciiUppercase, String.map_map, Function.comp_def, toUpper_toUpper]

theorem toAsciiLowercase_idem (s : String) : toAsciiLowercase (toAsciiLowercase s) = toAsciiLowercase s := by
  simp only [toAsciiLowercase, String.map_map, Function.comp_def, toLower_toLower]

/-! ## Patterns -/

/-- `split_once`: the text before and behind the first occurrence of a pattern. -/
def splitOnce (pat : Text) : Text → Option (Text × Text)
  | [] => if pat = [] then some ([], []) else none
  | c :: s =>
    if pat <+: c :: s then some ([], (c :: s).drop pat.length)
    else (splitOnce pat s).map fun (a, b) => (c :: a, b)

/-- `find`: the offset of the first occurrence. -/
def find (pat s : Text) : Option Nat := (splitOnce pat s).map fun (a, _) => size a

theorem splitOnce_eq_some {pat s a b : Text} (h : splitOnce pat s = some (a, b)) : s = a ++ pat ++ b := by
  induction s generalizing a with
  | nil =>
    simp only [splitOnce, Option.ite_none_right_eq_some, Option.some.injEq, Prod.mk.injEq] at h
    obtain ⟨rfl, rfl, rfl⟩ := h
    rfl
  | cons c s ih =>
    simp only [splitOnce] at h
    split at h
    · rename_i hp
      cases h
      exact (List.prefix_iff_eq_append.mp hp).symm
    · obtain ⟨⟨a', b'⟩, hs, hab⟩ := Option.map_eq_some_iff.mp h
      cases hab
      rw [ih hs, List.cons_append, List.cons_append]

theorem not_infix_of_splitOnce {pat s : Text} (h : splitOnce pat s = none) : ¬ pat <:+: s := by
  induction s with
  | nil =>
    simp only [splitOnce, ite_eq_right_iff, reduceCtorEq, imp_false] at h
    exact fun hi => h (List.infix_nil.mp hi)
  | cons c s ih =>
    simp only [splitOnce] at h
    split at h
    · cases h
    · rename_i hp
      rw [List.infix_cons_iff, not_or]
      exact ⟨hp, ih (Option.map_eq_none_iff.mp h)⟩

/-- The occurrence found is the first. -/
theorem not_infix_before {pat s a b : Text} (hpat : pat ≠ []) (h : splitOnce pat s = some (a, b)) : ¬ pat <:+: a := by
  induction s generalizing a with
  | nil =>
    simp only [splitOnce, Option.ite_none_right_eq_some] at h
    exact absurd h.1 hpat
  | cons c s ih =>
    simp only [splitOnce] at h
    split at h
    · cases h
      exact fun hi => hpat (List.infix_nil.mp hi)
    · rename_i hp
      obtain ⟨⟨a', b'⟩, hs, hab⟩ := Option.map_eq_some_iff.mp h
      cases hab
      rw [List.infix_cons_iff, not_or]
      refine ⟨fun hpre => hp ?_, ih hs⟩
      rw [splitOnce_eq_some hs, ← List.cons_append, ← List.cons_append, List.append_assoc]
      exact hpre.trans (List.prefix_append _ _)

/-- `split`: the texts between the occurrences of a pattern. -/
def split (pat s : Text) : List Text :=
  if h : pat = [] then [] :: s.map ([·]) ++ [[]]
  else
    match _hs : splitOnce pat s with
    | some (a, b) => a :: split pat b
    | none => [s]
termination_by s.length
decreasing_by
  have := congrArg List.length (splitOnce_eq_some _hs)
  have := List.length_pos_iff.mpr h
  simp only [List.length_append] at *
  omega

/-- `replace`: every occurrence of a pattern by a text. -/
def replace (pat by_ s : Text) : Text := by_.intercalate (split pat s)

theorem split_of_none {pat s : Text} (hpat : pat ≠ []) (h : splitOnce pat s = none) : split pat s = [s] := by
  rw [split, dif_neg hpat]
  split
  · rename_i h'
    rw [h] at h'
    cases h'
  · rfl

theorem split_of_some {pat s a b : Text} (hpat : pat ≠ []) (h : splitOnce pat s = some (a, b)) :
    split pat s = a :: split pat b := by
  rw [split, dif_neg hpat]
  split
  · rename_i h'
    rw [h] at h'
    cases h'
    rfl
  · rename_i h'
    rw [h] at h'
    cases h'

/-- The texts between the occurrences of a pattern are parts of the whole, and
hold no further one. -/
theorem mem_split {pat s seg : Text} (hpat : pat ≠ []) (h : seg ∈ split pat s) : seg <:+: s ∧ ¬ pat <:+: seg := by
  induction hn : s.length using Nat.strong_induction_on generalizing s with
  | _ n ih =>
    cases hs : splitOnce pat s with
    | none =>
      rw [split_of_none hpat hs, List.mem_singleton] at h
      subst h
      exact ⟨List.infix_rfl, not_infix_of_splitOnce hs⟩
    | some ab =>
      obtain ⟨a, b⟩ := ab
      have hsplit := splitOnce_eq_some hs
      rw [split_of_some hpat hs, List.mem_cons] at h
      rcases h with rfl | h
      · exact ⟨⟨[], pat ++ b, by rw [hsplit, List.nil_append, List.append_assoc]⟩, not_infix_before hpat hs⟩
      · have hlen : b.length < n := by
          have := congrArg List.length hsplit
          have := List.length_pos_iff.mpr hpat
          simp only [List.length_append] at *
          omega
        obtain ⟨hin, hno⟩ := ih b.length hlen h rfl
        exact ⟨hin.trans ⟨a ++ pat, [], by rw [List.append_nil, hsplit]⟩, hno⟩

/-! ## Marks

A mark is a word in brackets. A text without brackets that is not part of the
word is part of no mark, nor of what a mark and its surroundings make together. -/

/-- A text without the character is on one side of it. -/
theorem infix_append_cons {t a b : Text} {c : Char} (hc : c ∉ t) (h : t <:+: a ++ c :: b) : t <:+: a ∨ t <:+: b := by
  obtain ⟨p, q, h⟩ := h
  rw [List.append_assoc, List.append_eq_append_iff] at h
  rcases h with ⟨a', rfl, h⟩ | ⟨c', rfl, h⟩
  · rcases List.append_eq_append_iff.mp h with ⟨t', rfl, -⟩ | ⟨c'', rfl, hc''⟩
    · exact .inl ⟨p, t', by rw [List.append_assoc]⟩
    · cases c'' with
      | nil => exact .inl ⟨p, [], by simp⟩
      | cons d c'' =>
        cases hc''
        exact absurd (by simp) hc
  · cases c' with
    | nil =>
      cases t with
      | nil => exact .inl List.nil_infix
      | cons d t =>
        cases h
        exact absurd (by simp) hc
    | cons d c' =>
      cases h
      exact .inr ⟨c', q, List.append_assoc ..⟩

/-- A text that cannot be seen in a mark with this word. -/
structure Unmarkable (word t : Text) : Prop where
  nonempty : t ≠ []
  left : '[' ∉ t
  right : ']' ∉ t
  word : ¬ t <:+: word

def mark (word : Text) : Text := '[' :: word ++ [']']

variable {word t : Text}

theorem Unmarkable.not_infix_mark (ht : Unmarkable word t) : ¬ t <:+: mark word := by
  intro h
  rcases infix_append_cons (a := []) ht.left h with h | h
  · exact ht.nonempty (List.infix_nil.mp h)
  · rcases infix_append_cons ht.right h with h | h
    · exact ht.word h
    · exact ht.nonempty (List.infix_nil.mp h)

/-- What is seen in texts joined by marks is part of one of them. -/
theorem Unmarkable.infix_intercalate (ht : Unmarkable word t) {segs : List Text}
    (h : t <:+: (mark word).intercalate segs) : ∃ seg ∈ segs, t <:+: seg := by
  induction segs with
  | nil => exact absurd (List.infix_nil.mp h) ht.nonempty
  | cons a segs ih =>
    cases segs with
    | nil => exact ⟨a, List.mem_singleton_self a, by simpa [List.intercalate] using h⟩
    | cons b segs =>
      have hcons : (mark word).intercalate (a :: b :: segs) =
          a ++ '[' :: (word ++ ']' :: (mark word).intercalate (b :: segs)) := by
        simp [List.intercalate, List.intersperse, mark]
      rw [hcons] at h
      rcases infix_append_cons ht.left h with h | h
      · exact ⟨a, List.mem_cons_self, h⟩
      · rcases infix_append_cons ht.right h with h | h
        · exact absurd h ht.word
        · obtain ⟨seg, hseg, hin⟩ := ih h
          exact ⟨seg, List.mem_cons_of_mem a hseg, hin⟩

/-- Marking shows nothing that was not there before. -/
theorem Unmarkable.infix_replace (ht : Unmarkable word t) {pat s : Text} (hpat : pat ≠ [])
    (h : t <:+: replace pat (mark word) s) : t <:+: s := by
  obtain ⟨seg, hseg, hin⟩ := ht.infix_intercalate h
  exact hin.trans (mem_split hpat hseg).1

/-- What is marked is gone. -/
theorem Unmarkable.not_infix_replace_self (ht : Unmarkable word t) (s : Text) : ¬ t <:+: replace t (mark word) s := by
  intro h
  obtain ⟨seg, hseg, hin⟩ := ht.infix_intercalate h
  exact (mem_split ht.nonempty hseg).2 hin

end Str
