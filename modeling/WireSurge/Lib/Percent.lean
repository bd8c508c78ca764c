import WireSurge.Lib.Str

/-!
# Percent-encoding

`encode escaped` writes the bytes of a text, those in the set `escaped` as `%`
and two digits. A set has all bytes that are not ASCII (`Ascii`), so that the
others are characters of the text. An encoding is at least as long as the text
has bytes, and longer when a byte is escaped (`size_lt_length`): that tells the
encodings apart, from the text (`encode_eq_self_iff`) and from those with a
larger set (`encode_eq_iff`).
-/

namespace Percent

open Str (Text encodeChar_bytes mem_encode_of_mem mem_of_mem_encode toNat_ofNat_char)

def hexDigit (n : UInt8) : Char :=
  if n ≤ 9 then Char.ofNat ('0'.toNat + n.toNat) else Char.ofNat ('A'.toNat + (n.toNat - 10))

def encodeByte (escaped : UInt8 → Bool) (b : UInt8) : Text :=
  if escaped b then ['%', hexDigit (b >>> 4), hexDigit (b &&& 0x0f)] else [Char.ofNat b.toNat]

def encode (escaped : UInt8 → Bool) (s : Text) : Text := (Str.encode s).flatMap (encodeByte escaped)

/-- No byte of a longer character goes unescaped. -/
def Ascii (escaped : UInt8 → Bool) : Prop := ∀ b : UInt8, 127 < b.toNat → escaped b = true

variable {escaped escaped' : UInt8 → Bool} {s t : Text} {b : UInt8} {c : Char}

/-! ## What an encoding has in it -/

theorem toNat_ofNat {n : Nat} (h : n ≤ 127) : (Char.ofNat n).toNat = n := by
  rw [Char.ofNat, dif_pos (.inl (by omega))]
  rfl


theorem encode_append (s t : Text) : encode escaped (s ++ t) = encode escaped s ++ encode escaped t := by
  rw [encode, Str.encode, List.flatMap_append, List.flatMap_append]
  rfl

/-- A character of an encoding is of an escape, or of the text. -/
theorem mem_encode (hset : Ascii escaped) (h : c ∈ encode escaped s) :
    c = '%' ∨ (∃ n : UInt8, n.toNat < 16 ∧ c = hexDigit n) ∨
      c ∈ s ∧ c.toNat ≤ 127 ∧ escaped (UInt8.ofNat c.toNat) = false := by
  obtain ⟨b, hb, hc⟩ := List.mem_flatMap.mp h
  rw [encodeByte] at hc
  split at hc
  · simp only [List.mem_cons, List.not_mem_nil, or_false] at hc
    rcases hc with rfl | rfl | rfl
    · exact .inl rfl
    · refine .inr (.inl ⟨_, ?_, rfl⟩)
      have := b.toNat_lt
      rw [UInt8.toNat_shiftRight]
      show b.toNat >>> 4 < 16
      rw [Nat.shiftRight_eq_div_pow]
      omega
    · refine .inr (.inl ⟨_, ?_, rfl⟩)
      rw [UInt8.toNat_and]
      exact Nat.lt_of_le_of_lt Nat.and_le_right (by decide)
  · rename_i hno
    rw [List.mem_singleton] at hc
    have hascii : b.toNat ≤ 127 := Nat.not_lt.mp fun hlt => hno (hset b hlt)
    have hround : UInt8.ofNat (Char.ofNat b.toNat).toNat = b := by
      rw [toNat_ofNat hascii, UInt8.ofNat_toNat]
    rw [hc, hround, toNat_ofNat hascii]
    exact .inr (.inr ⟨mem_of_mem_encode hb hascii, hascii, by simpa using hno⟩)

theorem mem_encode_of_plain (hc : c ∈ s) (hascii : c.toNat ≤ 127) (hno : escaped (UInt8.ofNat c.toNat) = false) :
    c ∈ encode escaped s := by
  refine List.mem_flatMap.mpr ⟨_, mem_encode_of_mem hc hascii, ?_⟩
  rw [encodeByte, hno, if_neg Bool.false_ne_true, toNat_ofNat_char hascii, Char.ofNat_toNat]
  exact List.mem_singleton_self c

theorem hexDigit_ne (hc : ∀ n < 16, hexDigit (UInt8.ofNat n) ≠ c) {n : UInt8} (hn : n.toNat < 16) : c ≠ hexDigit n := by
  have := hc n.toNat hn
  rw [UInt8.ofNat_toNat] at this
  exact this.symm

/-! ## How long it is -/

theorem length_encodeByte (escaped : UInt8 → Bool) (b : UInt8) :
    (encodeByte escaped b).length = if escaped b then 3 else 1 := by
  rw [encodeByte]
  split <;> rfl

/-- A larger set makes a longer encoding. -/
theorem length_le (hsub : ∀ b, escaped b = true → escaped' b = true) (bytes : List UInt8) :
    (bytes.flatMap (encodeByte escaped)).length ≤ (bytes.flatMap (encodeByte escaped')).length := by
  induction bytes with
  | nil => exact Nat.le_refl _
  | cons b bytes ih =>
    simp only [List.flatMap_cons, List.length_append, length_encodeByte]
    cases hb : escaped b with
    | false =>
      rw [if_neg Bool.false_ne_true]
      split <;> omega
    | true =>
      rw [if_pos rfl, if_pos (hsub b hb)]
      omega

theorem length_lt (hsub : ∀ b, escaped b = true → escaped' b = true) {bytes : List UInt8} (hb : b ∈ bytes)
    (hno : escaped b = false) (hyes : escaped' b = true) :
    (bytes.flatMap (encodeByte escaped)).length < (bytes.flatMap (encodeByte escaped')).length := by
  obtain ⟨before, behind, rfl⟩ := List.append_of_mem hb
  have h1 := length_le hsub before
  have h2 := length_le hsub behind
  simp only [List.flatMap_append, List.flatMap_cons, List.length_append, length_encodeByte, hno, hyes, if_true]
  simp only [Bool.false_eq_true, if_false]
  omega

/-- The encodings with two sets agree when the sets do, on the bytes of the text. -/
theorem encode_eq_iff (hsub : ∀ b, escaped b = true → escaped' b = true) :
    encode escaped s = encode escaped' s ↔ ∀ b ∈ Str.encode s, escaped' b = true → escaped b = true := by
  constructor
  · intro heq b hb hyes
    by_contra hno
    have hlt := length_lt hsub hb (by simpa using hno) hyes
    rw [← encode, ← encode, heq] at hlt
    exact Nat.lt_irrefl _ hlt
  · intro h
    refine List.flatMap_congr fun b hb => ?_
    have : escaped b = escaped' b := Bool.eq_iff_iff.mpr ⟨hsub b, h b hb⟩
    rw [encodeByte, encodeByte, this]

theorem length_none (bytes : List UInt8) : (bytes.flatMap (encodeByte fun _ => false)).length = bytes.length := by
  induction bytes with
  | nil => rfl
  | cons b bytes ih =>
    rw [List.flatMap_cons, List.length_append, ih, length_encodeByte, if_neg Bool.false_ne_true, List.length_cons]
    omega

theorem size_le_length (escaped : UInt8 → Bool) (s : Text) : Str.size s ≤ (encode escaped s).length := by
  rw [← Str.length_encode, ← length_none]
  exact length_le (fun _ => Bool.noConfusion) _

theorem size_lt_length (hb : b ∈ Str.encode s) (hyes : escaped b = true) :
    Str.size s < (encode escaped s).length := by
  rw [← Str.length_encode, ← length_none]
  exact length_lt (fun _ => Bool.noConfusion) hb rfl hyes

/-- A text goes as it is when no byte of it is in the set. -/
theorem encode_eq_self_iff (hset : Ascii escaped) :
    encode escaped s = s ↔ ∀ b ∈ Str.encode s, escaped b = false := by
  constructor
  · intro heq b hb
    by_contra hyes
    have hlt := size_lt_length hb (by simpa using hyes)
    have hle := Str.length_le_size s
    rw [heq] at hlt
    omega
  · intro h
    induction s with
    | nil => rfl
    | cons c s ih =>
      have hchar : String.utf8EncodeChar c = [UInt8.ofNat c.toNat] ∧ c.toNat ≤ 127 := by
        rcases encodeChar_bytes c with ⟨hle, heq⟩ | ⟨-, hbig⟩
        · exact ⟨heq, hle⟩
        · obtain ⟨b, hb⟩ : ∃ b, b ∈ String.utf8EncodeChar c := by
            apply List.exists_mem_of_length_pos
            rw [String.length_utf8EncodeChar]
            exact c.utf8Size_pos
          have hno := h b (List.mem_append_left _ hb)
          rw [hset b (hbig b hb)] at hno
          cases hno
      have hno : escaped (UInt8.ofNat c.toNat) = false := by
        apply h
        apply List.mem_append_left
        rw [hchar.1]
        exact List.mem_singleton_self _
      have hrest : encode escaped s = s := ih fun b hb => h b (List.mem_append_right _ hb)
      have hone : encode escaped [c] = [c] := by
        rw [encode, Str.encode, List.flatMap_singleton, hchar.1, List.flatMap_singleton, encodeByte, hno,
          if_neg Bool.false_ne_true, toNat_ofNat_char hchar.2, Char.ofNat_toNat]
      rw [← List.singleton_append, encode_append, hone, hrest]

/-- The characters of an escape are not escaped themselves. -/
def Keeps (escaped : UInt8 → Bool) : Prop :=
  ∀ c : Char, c = '%' ∨ (∃ n : UInt8, n.toNat < 16 ∧ c = hexDigit n) →
    c.toNat ≤ 127 ∧ escaped (UInt8.ofNat c.toNat) = false

theorem Keeps.of_digits (h : escaped (UInt8.ofNat '%'.toNat) = false)
    (hdigits : ∀ n < 16, escaped (UInt8.ofNat (hexDigit (UInt8.ofNat n)).toNat) = false) : Keeps escaped := by
  rintro c (rfl | ⟨n, hn, rfl⟩)
  · exact ⟨by decide, h⟩
  · have hsmall : ∀ n < 16, (hexDigit (UInt8.ofNat n)).toNat ≤ 127 := by decide
    have hn' := UInt8.ofNat_toNat ▸ hdigits n.toNat hn
    have hsmall' := UInt8.ofNat_toNat ▸ hsmall n.toNat hn
    exact ⟨hsmall', hn'⟩

/-- What has to be encoded is not in any encoding. -/
theorem not_infix_encode (hset : Ascii escaped) (hkeeps : Keeps escaped) (h : encode escaped s ≠ s) :
    ¬ s <:+: encode escaped t := by
  intro hin
  rw [Ne, encode_eq_self_iff hset] at h
  push Not at h
  obtain ⟨b, hb, hyes⟩ := h
  obtain ⟨c, hc, hb⟩ := List.mem_flatMap.mp hb
  have hplain : c.toNat ≤ 127 ∧ escaped (UInt8.ofNat c.toNat) = false := by
    rcases mem_encode hset (hin.subset hc) with heq | hhex | ⟨-, hplain⟩
    · exact hkeeps c (.inl heq)
    · exact hkeeps c (.inr hhex)
    · exact hplain
  rw [Str.encodeChar_of_ascii hplain.1, List.mem_singleton] at hb
  rw [hb, hplain.2] at hyes
  exact hyes rfl

/-- A text that is not its encoding has an escape. -/
theorem percent_mem (hset : Ascii escaped) (h : encode escaped s ≠ s) : '%' ∈ encode escaped s := by
  rw [Ne, encode_eq_self_iff hset] at h
  push Not at h
  obtain ⟨b, hb, hyes⟩ := h
  refine List.mem_flatMap.mpr ⟨b, hb, ?_⟩
  rw [encodeByte, if_pos (by simpa using hyes)]
  exact List.mem_cons_self

end Percent
