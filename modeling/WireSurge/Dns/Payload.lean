import WireSurge.Dns.Message
import WireSurge.Lib.Hex
import WireSurge.Lib.Percent

/-!
# Hexadecimal payloads

`decode_hex_payload` reads the payload of an EDNS option. Its digits go through a
filter for whitespace, two tests and, two by two, the number parser of the standard
library, which takes a plus before a number: `+5` is a byte here. `meets_iff` says
that this is all that is wrong: on the texts without such a byte it succeeds exactly
on an even number of digits, and what it gives is what they render. Digits are always
read, with whitespace anywhere (`decodeHexPayload_spaced`), and no text stops the
program (`decodeHexPayload_returns`).
-/

namespace WireSurge.Dns

open WireSurge.Core (WireSurgeError)
open Checked (Checked Returns map_eq_ok)
open Hex (fromStrRadix IsDigit Renders exists_toDigit_iff exists_renders_iff fromStrRadix_pair)
open Str (Text)

/-- `is_ascii_whitespace`. -/
def isAsciiWhitespace (c : Char) : Bool :=
  c = ' ' || c = '\t' || c = '\n' || c = '\x0C' || c = '\r'

/-- The error of a payload. -/
def payloadError (message : String) : WireSurgeError :=
  (WireSurgeError.new "invalid_hex_payload" message).atPath "edns_payload"

/-- The payload without whitespace. -/
def compact (value : String) : Text := value.toList.filter fun c => !isAsciiWhitespace c

def decodePair (pair : Bytes) : Checked (Except WireSurgeError UInt8) :=
  match Str.decode pair with
  | none => .error (.expect "hex input is ASCII-addressable")
  | some pair =>
    match fromStrRadix 16 255 pair with
    | some byte => return .ok (UInt8.ofNat byte)
    | none => return .error (payloadError ("'" ++ String.ofList pair ++ "' is not a valid hexadecimal byte"))

/-- `chunks_exact(2)`, decoded one by one up to the first error. -/
def decodePairs : Bytes → Checked (Except WireSurgeError Bytes)
  | a :: b :: rest => do
    match ← decodePair [a, b] with
    | .error error => return .error error
    | .ok byte => return (← decodePairs rest).map (byte :: ·)
  | _ => return .ok []

def decodeHexPayload (value : String) : Checked (Except WireSurgeError Bytes) :=
  let bytes := Str.encode (compact value)
  if ¬ bytes.all (· < 128) then
    return .error (payloadError "hex payload must contain only ASCII hexadecimal digits")
  else if bytes.length % 2 ≠ 0 then
    return .error (payloadError "hex payload must contain an even number of digits")
  else decodePairs bytes

/-! ## Texts of ASCII characters -/

variable {c d : Char} {s digits : Text} {bytes : Bytes} {value : String}

def IsAscii (s : Text) : Prop := ∀ c ∈ s, c.toNat ≤ 127

theorem encode_eq_map (h : IsAscii s) : Str.encode s = s.map fun c => UInt8.ofNat c.toNat := by
  induction s with
  | nil => rfl
  | cons c s ih =>
    obtain ⟨hc, hs⟩ := List.forall_mem_cons.mp h
    rw [Str.encode, List.flatMap_cons, Str.encodeChar_of_ascii hc, ← Str.encode, ih hs, List.map_cons,
      List.singleton_append]

theorem isAscii_iff : (Str.encode s).all (· < 128) = true ↔ IsAscii s := by
  simp only [List.all_eq_true, decide_eq_true_eq]
  constructor
  · intro h c hc
    rcases Str.encodeChar_bytes c with ⟨hle, -⟩ | ⟨-, hbig⟩
    · exact hle
    · obtain ⟨b, hb⟩ := List.exists_mem_of_ne_nil (String.utf8EncodeChar c) String.utf8EncodeChar_ne_nil
      have hlt := UInt8.lt_iff_toNat_lt.mp (h b (List.mem_flatMap.mpr ⟨c, hc, hb⟩))
      exact absurd (hbig b hb) (Nat.not_lt.mpr (Nat.le_of_lt_succ hlt))
  · intro h b hb
    rw [encode_eq_map h] at hb
    obtain ⟨c, hc, rfl⟩ := List.mem_map.mp hb
    rw [UInt8.lt_iff_toNat_lt, Str.toNat_ofNat_char (h c hc)]
    exact Nat.lt_succ_of_le (h c hc)

theorem isAscii_of_digit (h : IsDigit c) : c.toNat ≤ 127 := by
  simp only [IsDigit, Hex.le_iff_toNat, Char.reduceToNat] at h
  omega

/-! ## What is read -/

/-- What the number parser takes of each two characters. -/
inductive Accepted : Bytes → Text → Prop
  | nil : Accepted [] []
  | pair {c d : Char} {n : Nat} {bytes : Bytes} {s : Text} : fromStrRadix 16 255 [c, d] = some n → Accepted bytes s →
      Accepted (UInt8.ofNat n :: bytes) (c :: d :: s)

theorem decodePair_encode (hc : c.toNat ≤ 127) (hd : d.toNat ≤ 127) :
    decodePair [UInt8.ofNat c.toNat, UInt8.ofNat d.toNat] =
      match fromStrRadix 16 255 [c, d] with
      | some byte => .ok (.ok (UInt8.ofNat byte))
      | none => .ok (.error (payloadError ("'" ++ String.ofList [c, d] ++ "' is not a valid hexadecimal byte"))) := by
  have hascii : IsAscii [c, d] := by
    intro a ha
    simp only [List.mem_cons, List.not_mem_nil, or_false] at ha
    rcases ha with rfl | rfl
    · exact hc
    · exact hd
  have hdecode : Str.decode [UInt8.ofNat c.toNat, UInt8.ofNat d.toNat] = some [c, d] := by
    rw [← Str.decode_encode [c, d], encode_eq_map hascii]
    rfl
  rw [decodePair, hdecode]
  rfl

/-- What a pair that is read is made of. -/
theorem pair_of_fromStrRadix {n : Nat} (h : fromStrRadix 16 255 [c, d] = some n) :
    (IsDigit c ∨ c = '+') ∧ IsDigit d := by
  rcases fromStrRadix_pair.mp h with ⟨x, y, hx, hy, -⟩ | ⟨rfl, hd⟩
  · exact ⟨.inl (exists_toDigit_iff.mp ⟨x, hx⟩), exists_toDigit_iff.mp ⟨y, hy⟩⟩
  · exact ⟨.inr rfl, exists_toDigit_iff.mp ⟨n, hd⟩⟩

theorem decodePairs_encode (hc : c.toNat ≤ 127) (hd : d.toNat ≤ 127) (hs : IsAscii s) :
    decodePairs (Str.encode (c :: d :: s)) =
      match fromStrRadix 16 255 [c, d] with
      | some byte => (decodePairs (Str.encode s)).map (Except.map (UInt8.ofNat byte :: ·))
      | none => .ok (.error (payloadError ("'" ++ String.ofList [c, d] ++ "' is not a valid hexadecimal byte"))) := by
  have hascii : IsAscii (c :: d :: s) := List.forall_mem_cons.mpr ⟨hc, List.forall_mem_cons.mpr ⟨hd, hs⟩⟩
  rw [encode_eq_map hascii, List.map_cons, List.map_cons, ← encode_eq_map hs, decodePairs, decodePair_encode hc hd]
  cases fromStrRadix 16 255 [c, d] <;> rfl

/-- ASCII characters, two by two: what the pairs are taken of. -/
inductive AsciiPairs : Text → Prop
  | nil : AsciiPairs []
  | pair {c d : Char} {s : Text} : c.toNat ≤ 127 → d.toNat ≤ 127 → IsAscii s → AsciiPairs s → AsciiPairs (c :: d :: s)

theorem asciiPairs_of_even : ∀ s : Text, IsAscii s → s.length % 2 = 0 → AsciiPairs s
  | [], _, _ => .nil
  | [_], _, heven => by simp at heven
  | c :: d :: s, hascii, heven => by
    obtain ⟨hc, hd, hs⟩ : c.toNat ≤ 127 ∧ d.toNat ≤ 127 ∧ IsAscii s := by
      simpa [IsAscii] using hascii
    have heven' : s.length % 2 = 0 := by
      rw [List.length_cons, List.length_cons] at heven
      omega
    exact .pair hc hd hs (asciiPairs_of_even s hs heven')

theorem Accepted.ascii (h : Accepted bytes s) : IsAscii s ∧ s.length % 2 = 0 := by
  induction h with
  | nil => exact ⟨fun c hc => (List.not_mem_nil hc).elim, rfl⟩
  | pair hn _ ih =>
    obtain ⟨hc, hd⟩ := pair_of_fromStrRadix hn
    refine ⟨List.forall_mem_cons.mpr ⟨?_, List.forall_mem_cons.mpr ⟨isAscii_of_digit hd, ih.1⟩⟩, ?_⟩
    · rcases hc with hc | rfl
      · exact isAscii_of_digit hc
      · decide
    · rw [List.length_cons, List.length_cons]
      omega

theorem decodePairs_eq_ok_iff (h : AsciiPairs s) (bytes : Bytes) :
    decodePairs (Str.encode s) = .ok (.ok bytes) ↔ Accepted bytes s := by
  induction h generalizing bytes with
  | nil =>
    constructor
    · intro h
      cases h
      exact .nil
    · rintro ⟨⟩
      rfl
  | pair hc hd hs _ ih =>
    rw [decodePairs_encode hc hd hs]
    constructor
    · intro h
      split at h
      · rename_i n hn
        obtain ⟨rest, hrest, hok⟩ := map_eq_ok.mp h
        obtain ⟨bytes', rfl, rfl⟩ := map_eq_ok.mp hok
        exact .pair hn ((ih bytes').mp hrest)
      · cases h
    · rintro (_ | ⟨hn, hacc⟩)
      rw [hn, (ih _).mpr hacc]
      rfl

theorem decodePairs_returns (h : AsciiPairs s) : Returns (decodePairs (Str.encode s)) := by
  induction h with
  | nil => exact ⟨_, rfl⟩
  | @pair c d _ hc hd hs _ ih =>
    obtain ⟨r, hr⟩ := ih
    rw [decodePairs_encode hc hd hs, hr]
    cases fromStrRadix 16 255 [c, d] <;> exact ⟨_, rfl⟩

/-- The tests in front of the pairs. -/
theorem decodeHexPayload_eq (value : String) :
    AsciiPairs (compact value) ∧ decodeHexPayload value = decodePairs (Str.encode (compact value)) ∨
      ¬ (IsAscii (compact value) ∧ (compact value).length % 2 = 0) ∧
        ∃ message, decodeHexPayload value = .ok (.error (payloadError message)) := by
  rw [decodeHexPayload]
  by_cases hascii : IsAscii (compact value)
  · have hlen : (Str.encode (compact value)).length = (compact value).length := by
      rw [encode_eq_map hascii, List.length_map]
    rw [hlen, if_neg (not_not.mpr (isAscii_iff.mpr hascii))]
    by_cases heven : (compact value).length % 2 = 0
    · exact .inl ⟨asciiPairs_of_even _ hascii heven, if_neg (not_not.mpr heven)⟩
    · exact .inr ⟨fun h => heven h.2, _, if_pos heven⟩
  · exact .inr ⟨fun h => hascii h.1, _, if_pos (hascii ∘ isAscii_iff.mp)⟩

theorem decodeHexPayload_eq_ok_iff : decodeHexPayload value = .ok (.ok bytes) ↔ Accepted bytes (compact value) := by
  rcases decodeHexPayload_eq value with ⟨hpairs, h⟩ | ⟨hno, message, h⟩
  · rw [h]
    exact decodePairs_eq_ok_iff hpairs bytes
  · rw [h]
    exact iff_of_false (fun h => by cases h) fun hacc => hno hacc.ascii

/-- No text stops the program. -/
theorem decodeHexPayload_returns (value : String) : Returns (decodeHexPayload value) := by
  rcases decodeHexPayload_eq value with ⟨hpairs, h⟩ | ⟨-, message, h⟩
  · rw [h]
    exact decodePairs_returns hpairs
  · exact ⟨_, h⟩

/-! ## Digits and whitespace -/

/-- A text with whitespace put in anywhere. -/
inductive Spaced : Text → Text → Prop
  | nil : Spaced [] []
  | space {c : Char} {s t : Text} : isAsciiWhitespace c = true → Spaced s t → Spaced s (c :: t)
  | keep {c : Char} {s t : Text} : Spaced s t → Spaced (c :: s) (c :: t)

theorem not_whitespace_of_digit (h : IsDigit c) : isAsciiWhitespace c = false := by
  by_contra hspace
  rw [Bool.not_eq_false] at hspace
  simp only [isAsciiWhitespace, Bool.or_eq_true, decide_eq_true_eq] at hspace
  rcases hspace with (((rfl | rfl) | rfl) | rfl) | rfl <;> exact absurd h (by decide)

theorem Spaced.filter (h : Spaced digits s) (hdigits : ∀ c ∈ digits, IsDigit c) :
    s.filter (fun c => !isAsciiWhitespace c) = digits := by
  induction h with
  | nil => rfl
  | space hc _ ih =>
    rw [List.filter_cons_of_neg (by rw [hc]; decide)]
    exact ih hdigits
  | keep _ ih =>
    obtain ⟨hc, hrest⟩ := List.forall_mem_cons.mp hdigits
    rw [List.filter_cons_of_pos (by rw [not_whitespace_of_digit hc]; rfl), ih hrest]

theorem accepted_of_renders (h : Renders bytes s) : Accepted bytes s := by
  induction h with
  | nil => exact .nil
  | byte hx hy _ ih => exact .pair (fromStrRadix_pair.mpr (.inl ⟨_, _, hx, hy, rfl⟩)) ih

theorem decodeHexPayload_spaced (h : Renders bytes digits) (hspaced : Spaced digits value.toList) :
    decodeHexPayload value = .ok (.ok bytes) := by
  rw [decodeHexPayload_eq_ok_iff, compact, hspaced.filter h.digits.2]
  exact accepted_of_renders h

/-! ## Where a sign is taken for a digit -/

/-- Two characters for each byte, a digit behind a digit or a plus. -/
def Pairs : Text → Prop
  | [] => True
  | [_] => False
  | c :: d :: s => (IsDigit c ∨ c = '+') ∧ IsDigit d ∧ Pairs s

/-- Pairs of which one has a plus. -/
def Signed (s : Text) : Prop := '+' ∈ s ∧ Pairs s

theorem Accepted.pairs (h : Accepted bytes s) : Pairs s := by
  induction h with
  | nil => trivial
  | pair hn _ ih =>
    obtain ⟨hc, hd⟩ := pair_of_fromStrRadix hn
    exact ⟨hc, hd, ih⟩

theorem exists_accepted : ∀ s : Text, Pairs s → ∃ bytes, Accepted bytes s
  | [], _ => ⟨[], .nil⟩
  | [_], h => h.elim
  | c :: d :: s, ⟨hc, hd, hs⟩ => by
    obtain ⟨bytes, hbytes⟩ := exists_accepted s hs
    obtain ⟨y, hy⟩ := exists_toDigit_iff.mpr hd
    rcases hc with hc | hc
    · obtain ⟨x, hx⟩ := exists_toDigit_iff.mpr hc
      exact ⟨_, .pair (fromStrRadix_pair.mpr (.inl ⟨x, y, hx, hy, rfl⟩)) hbytes⟩
    · exact ⟨_, .pair (fromStrRadix_pair.mpr (.inr ⟨hc, hy⟩)) hbytes⟩

/-- Without a plus, what is read is rendered. -/
theorem Accepted.renders (h : Accepted bytes s) (hplus : '+' ∉ s) : Renders bytes s := by
  induction h with
  | nil => exact .nil
  | pair hn _ ih =>
    simp only [List.mem_cons, not_or] at hplus
    rcases fromStrRadix_pair.mp hn with ⟨x, y, hx, hy, rfl⟩ | ⟨hc, -⟩
    · exact .byte hx hy (ih hplus.2.2)
    · exact absurd hc.symm hplus.1

/-- A payload is read when it is an even number of digits, whitespace apart, and
then as the bytes that they render. -/
structure Meets (value : String) : Prop where
  accepts : (∃ bytes, decodeHexPayload value = .ok (.ok bytes)) ↔
    (compact value).length % 2 = 0 ∧ ∀ c ∈ compact value, IsDigit c
  denotes (bytes : Bytes) : decodeHexPayload value = .ok (.ok bytes) → Renders bytes (compact value)
  reads (bytes : Bytes) (digits : Text) : Renders bytes digits → Spaced digits value.toList →
    decodeHexPayload value = .ok (.ok bytes)

/-- A value is decoded as it should be just when it is not, whitespace apart, a list of
pairs some of which have a plus for their sign. -/
theorem meets_iff (value : String) : Meets value ↔ ¬ Signed (compact value) := by
  constructor
  · rintro ⟨haccepts, -, -⟩ ⟨hplus, hpairs⟩
    obtain ⟨bytes, hbytes⟩ := exists_accepted _ hpairs
    have hdigits := (haccepts.mp ⟨bytes, decodeHexPayload_eq_ok_iff.mpr hbytes⟩).2
    exact absurd (hdigits '+' hplus) (by decide)
  · intro hsigned
    have hrenders (bytes : Bytes) (h : decodeHexPayload value = .ok (.ok bytes)) : Renders bytes (compact value) := by
      have hacc := decodeHexPayload_eq_ok_iff.mp h
      exact hacc.renders fun hplus => hsigned ⟨hplus, hacc.pairs⟩
    refine ⟨⟨fun ⟨bytes, h⟩ => (hrenders bytes h).digits, fun h => ?_⟩, hrenders,
      fun bytes digits => decodeHexPayload_spaced⟩
    obtain ⟨bytes, hbytes⟩ := exists_renders_iff.mpr h
    exact ⟨bytes, decodeHexPayload_eq_ok_iff.mpr (accepted_of_renders hbytes)⟩

/-- `+5` is the byte 5. -/
theorem not_meets_plus : decodeHexPayload "+5" = .ok (.ok [5]) ∧ ¬ Meets "+5" := by
  have h : decodeHexPayload "+5" = .ok (.ok [5]) := by decide
  exact ⟨h, fun hmeets => absurd ((hmeets.accepts.mp ⟨_, h⟩).2 '+' (by decide)) (by decide)⟩

end WireSurge.Dns
