import WireSurge.Lib.Str

/-!
# Bytes that need not be a text

`lossy` decodes any bytes: a part that begins no character, as long as it can be, becomes
one U+FFFD. The bytes of a text give it back (`lossy_encode`); and an ASCII byte is in no
longer character and in no such part, so that bytes may be cut before it (`lossy_append`).
-/

namespace Str

/-- The character at the start of the bytes. -/
def decodeHead (bytes : List UInt8) : Option Char := bytes.toByteArray.utf8DecodeChar? 0

/-- `10xxxxxx`. -/
def isContinuation (b : UInt8) : Bool := 0x80 ≤ b && b ≤ 0xBF

/-- The second byte of a character of three or four bytes. -/
def isSecond (lead b : UInt8) : Bool :=
  isContinuation b &&
    if lead = 0xE0 then 0xA0 ≤ b
    else if lead = 0xED then b ≤ 0x9F
    else if lead = 0xF0 then 0x90 ≤ b
    else if lead = 0xF4 then b ≤ 0x8F
    else 0xE0 ≤ lead && lead ≤ 0xF4

/-- The length of the part at the start that is replaced, where no character is: the
longest that a character begins with, or a byte. -/
def brokenLength : List UInt8 → Nat
  | lead :: b :: c :: _ => if isSecond lead b then if 0xF0 ≤ lead && isContinuation c then 3 else 2 else 1
  | [lead, b] => if isSecond lead b then 2 else 1
  | _ => 1

/-- What comes behind the first `n` bytes. -/
def lossyFrom : Nat → List UInt8 → Text
  | _, [] => []
  | n + 1, _ :: bytes => lossyFrom n bytes
  | 0, b :: bytes =>
    match decodeHead (b :: bytes) with
    | some c => c :: lossyFrom (c.utf8Size - 1) bytes
    | none => '\uFFFD' :: lossyFrom (brokenLength (b :: bytes) - 1) bytes

/-- `String::from_utf8_lossy`. -/
def lossy (bytes : List UInt8) : Text := lossyFrom 0 bytes

variable {bytes front : List UInt8} {b : UInt8} {c : Char}

theorem lossyFrom_eq (n : Nat) (bytes : List UInt8) : lossyFrom n bytes = lossy (bytes.drop n) := by
  induction n generalizing bytes with
  | zero => rfl
  | succ n ih =>
    cases bytes with
    | nil => rfl
    | cons b bytes => exact ih bytes

/-- A character is decoded where its bytes are. -/
theorem decodeHead_eq_some_iff : decodeHead bytes = some c ↔ String.utf8EncodeChar c <+: bytes := by
  constructor
  · intro h
    obtain ⟨rest, hrest⟩ := ByteArray.exists_of_utf8DecodeChar?_eq_some h
    refine ⟨rest.data.toList, ?_⟩
    have heq := congrArg (fun b : ByteArray => b.data.toList) hrest
    simpa using heq.symm
  · rintro ⟨rest, rfl⟩
    rw [decodeHead, List.toByteArray_append]
    exact ByteArray.utf8DecodeChar?_utf8EncodeChar_append

theorem lossy_of_some (h : decodeHead bytes = some c) : lossy bytes = c :: lossy (bytes.drop c.utf8Size) := by
  cases bytes with
  | nil =>
    have hnil := List.prefix_nil.mp (decodeHead_eq_some_iff.mp h)
    exact absurd hnil String.utf8EncodeChar_ne_nil
  | cons b bytes =>
    obtain ⟨n, hn⟩ := Nat.exists_eq_succ_of_ne_zero c.utf8Size_pos.ne'
    simp only [lossy, lossyFrom, h]
    rw [lossyFrom_eq, hn]
    rfl

theorem brokenLength_pos (bytes : List UInt8) : 0 < brokenLength bytes := by
  unfold brokenLength
  split <;> repeat' split
  all_goals decide

theorem lossy_of_none (hne : bytes ≠ []) (h : decodeHead bytes = none) :
    lossy bytes = '\uFFFD' :: lossy (bytes.drop (brokenLength bytes)) := by
  cases bytes with
  | nil => exact absurd rfl hne
  | cons b bytes =>
    obtain ⟨n, hn⟩ := Nat.exists_eq_succ_of_ne_zero (brokenLength_pos (b :: bytes)).ne'
    simp only [lossy, lossyFrom, h]
    rw [lossyFrom_eq, hn]
    rfl

/-- The bytes of a text are that text. -/
theorem lossy_encode (s : Text) : lossy (encode s) = s := by
  induction s with
  | nil => rfl
  | cons c s ih =>
    have hcons : encode (c :: s) = String.utf8EncodeChar c ++ encode s := List.flatMap_cons
    rw [hcons, lossy_of_some (decodeHead_eq_some_iff.mpr ⟨_, rfl⟩),
      List.drop_left' (String.length_utf8EncodeChar c), ih]

/-- No character goes on with an ASCII byte. -/
theorem decodeHead_append (hne : front ≠ []) (hb : b.toNat ≤ 127) (rest : List UInt8) :
    decodeHead (front ++ b :: rest) = decodeHead front := by
  ext c
  rw [decodeHead_eq_some_iff, decodeHead_eq_some_iff]
  refine ⟨fun h => ?_, fun h => h.trans (List.prefix_append _ _)⟩
  by_cases hle : (String.utf8EncodeChar c).length ≤ front.length
  · exact List.prefix_of_prefix_length_le h (List.prefix_append _ _) hle
  · have hsplit : front ++ [b] <+: String.utf8EncodeChar c := by
      refine List.prefix_of_prefix_length_le ⟨rest, by simp⟩ h ?_
      rw [List.length_append, List.length_singleton]
      omega
    have hfront := List.length_pos_iff.mpr hne
    rcases encodeChar_bytes c with ⟨-, heq⟩ | ⟨-, hbig⟩
    · have hlen := hsplit.length_le
      rw [heq, List.length_append, List.length_singleton, List.length_singleton] at hlen
      omega
    · exact absurd (hbig b (hsplit.subset (List.mem_append_right _ (List.mem_singleton_self b)))) (Nat.not_lt.mpr hb)

theorem not_isContinuation (hb : b.toNat ≤ 127) : isContinuation b = false := by
  have hlt : ¬(0x80 : UInt8) ≤ b := fun hle => by
    have := UInt8.le_iff_toNat_le.mp hle
    have h128 : (0x80 : UInt8).toNat = 128 := rfl
    omega
  rw [isContinuation, decide_eq_false hlt, Bool.false_and]

/-- Nor does a part that begins none. -/
theorem brokenLength_append (hne : front ≠ []) (hb : b.toNat ≤ 127) (rest : List UInt8) :
    brokenLength (front ++ b :: rest) = brokenLength front ∧ brokenLength front ≤ front.length := by
  have hno := not_isContinuation hb
  match front, hne with
  | [lead], _ =>
    have hsecond : isSecond lead b = false := by rw [isSecond, hno, Bool.false_and]
    cases rest <;> simp [brokenLength, hsecond]
  | [lead, c], _ =>
    simp only [brokenLength, List.cons_append, List.nil_append, hno, Bool.and_false]
    split <;> simp
  | lead :: c :: d :: front, _ =>
    refine ⟨rfl, ?_⟩
    simp only [brokenLength, List.length_cons]
    repeat' split
    all_goals omega

/-- Bytes may be cut before an ASCII byte. -/
theorem lossy_append (hb : b.toNat ≤ 127) (front rest : List UInt8) :
    lossy (front ++ b :: rest) = lossy front ++ lossy (b :: rest) := by
  induction hn : front.length using Nat.strong_induction_on generalizing front with
  | _ n ih =>
    by_cases hne : front = []
    · rw [hne]
      rfl
    have hlen := List.length_pos_iff.mpr hne
    have hskip {k : Nat} (hk : 0 < k) (hle : k ≤ front.length) :
        lossy ((front ++ b :: rest).drop k) = lossy (front.drop k) ++ lossy (b :: rest) := by
      rw [List.drop_append_of_le_length hle]
      exact ih _ (by rw [List.length_drop]; omega) _ rfl
    cases hhead : decodeHead front with
    | some c =>
      have hle := (decodeHead_eq_some_iff.mp hhead).length_le
      rw [String.length_utf8EncodeChar] at hle
      rw [lossy_of_some ((decodeHead_append hne hb rest).trans hhead), lossy_of_some hhead, hskip c.utf8Size_pos hle,
        List.cons_append]
    | none =>
      obtain ⟨hbroken, hle⟩ := brokenLength_append hne hb rest
      rw [lossy_of_none (by simp) ((decodeHead_append hne hb rest).trans hhead), lossy_of_none hne hhead, hbroken,
        hskip (brokenLength_pos front) hle, List.cons_append]

example : lossy [0x61, 0xFF, 0xE2, 0x82, 0x62, 0xF0, 0x9F, 0x98] = ['a', '\uFFFD', '\uFFFD', 'b', '\uFFFD'] := by
  decide +kernel

end Str
