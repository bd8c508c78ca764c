import WireSurge.Dns.Message
import WireSurge.Lib.Scanner

/-!
# The grammar of a response body

The body of a message, behind the 12 bytes of its header, as a language:
questions and records as the header counts them, each beginning with a name
(`Name`, `Question`, `Record`). `optExtendedRcode` accepts exactly the
messages with such a body (`optExtendedRcode_ok_iff`), bytes after it
included, and none of its reads is out of range: `skipName` scans `Name`
(`skipName_scans`, by induction on the walk over the labels), and the loops
scan powers of `Question` and `Record`.
-/

namespace WireSurge.Dns

open Checked (index range? Returns index_of_lt range?_eq_some)
open Scanner
open scoped Computability

/-! ## Words -/

/-- A big-endian word's value. -/
def be16 (hi lo : UInt8) : Nat := 256 * hi.toNat + lo.toNat

theorem toNat_u16FromBeBytes (hi lo : UInt8) : (u16FromBeBytes hi lo).toNat = be16 hi lo := by
  have hh := hi.toNat_lt
  have hl := lo.toNat_lt
  have hs : hi.toNat <<< 8 = hi.toNat * 256 := Nat.shiftLeft_eq _ _
  simp only [u16FromBeBytes, UInt16.toNat_or, UInt16.toNat_shiftLeft, UInt8.toNat_toUInt16, be16]
  rw [show (8 : UInt16).toNat % 16 = 8 from rfl, Nat.mod_eq_of_lt (by rw [hs]; omega),
    ← Nat.shiftLeft_add_eq_or_of_lt (by omega), hs, Nat.mul_comm]

/-- The word at `i`, zero past the end. -/
def word (msg : Bytes) (i : Nat) : Nat := be16 (msg.getD i 0) (msg.getD (i + 1) 0)

/-- The bytes of a word in range. -/
theorem readU16_of_lt {msg : Bytes} {i : Nat} (h : i + 1 < msg.length) :
    ∃ v, readU16 msg i = .ok v ∧ v.toNat = word msg i := by
  refine ⟨u16FromBeBytes msg[i] msg[i + 1], ?_, ?_⟩
  · simp only [readU16, index_of_lt (show i < msg.length by omega), index_of_lt h]
    rfl
  · simp [toNat_u16FromBeBytes, word, List.getD_eq_getElem?_getD, h, show i < msg.length by omega]

/-! ## The languages -/

/-- A label: its length, 1 to 63, and as many bytes. -/
def Label : Language UInt8 :=
  words fun w => ∃ n l, w = n :: l ∧ 1 ≤ n.toNat ∧ n.toNat ≤ 63 ∧ l.length = n.toNat

/-- What ends a name: the root's zero byte, or a compression pointer. -/
def NameEnd : Language UInt8 := words fun w => w = [0] ∨ ∃ hi lo : UInt8, w = [hi, lo] ∧ 0xC0 ≤ hi.toNat

def Name : Language UInt8 := Label∗ * NameEnd

/-- A name, the type and the class. -/
def Question : Language UInt8 := Name * words fun w => w.length = 4

/-- What follows a record's name: ten bytes, of which the last two are
RDLENGTH, and as many bytes of data. -/
def RecordTail : Language UInt8 :=
  words fun w => ∃ fixed rdata, w = fixed ++ rdata ∧ fixed.length = 10 ∧ rdata.length = word fixed 8

def Record : Language UInt8 := Name * RecordTail

/-- The part of a message behind the header: the questions and the records
the header counts, and whatever follows. -/
def Body (msg : Bytes) : Language UInt8 :=
  Question ^ word msg 4 * Record ^ (word msg 6 + word msg 8 + word msg 10) * ⊤

/-- A name is its end, or a label and a name. -/
theorem mem_name {w : Bytes} : w ∈ Name ↔ w ∈ NameEnd ∨ ∃ l ∈ Label, ∃ v ∈ Name, l ++ v = w := by
  conv_lhs => rw [Name, ← Language.one_add_self_mul_kstar_eq_kstar, add_mul, one_mul, mul_assoc]
  rw [Language.mem_add, Language.mem_mul]
  rfl

/-! ## Names -/

/-- The top two bits of a length byte. -/
theorem and_C0_eq_C0 (b : UInt8) : b &&& 0xC0 = 0xC0 ↔ 0xC0 ≤ b.toNat := by
  have h : ∀ v : BitVec 8, v &&& 0xC0#8 = 0xC0#8 ↔ 0xC0 ≤ v.toNat := by decide
  exact UInt8.toBitVec_inj.symm.trans (h b.toBitVec)

theorem and_C0_eq_zero (b : UInt8) : b &&& 0xC0 = 0 ↔ b.toNat ≤ 63 := by
  have h : ∀ v : BitVec 8, v &&& 0xC0#8 = 0#8 ↔ v.toNat ≤ 63 := by decide
  exact UInt8.toBitVec_inj.symm.trans (h b.toBitVec)

theorem spans_cons_iff {msg : Bytes} {pos : Nat} {b : UInt8} {w : Bytes} :
    Spans msg pos (b :: w) ↔ msg[pos]? = some b ∧ Spans msg (pos + 1) w := by
  rw [← List.singleton_append, spans_append]
  refine and_congr_left fun _ => ?_
  constructor
  · rintro ⟨-, r, hr⟩
    rw [← Nat.add_zero pos, ← List.getElem?_drop, ← hr]
    rfl
  · intro h
    obtain ⟨hlt, rfl⟩ := List.getElem?_eq_some_iff.mp h
    exact ⟨hlt.le, _, (List.drop_eq_getElem_cons hlt).symm⟩

/-- A walk that has read the length byte `b` at `pos`. -/
theorem exists_name_iff {msg : Bytes} {pos e : Nat} {b : UInt8} (hb : msg[pos]? = some b) :
    (∃ w ∈ Name, Spans msg pos w ∧ e = pos + w.length) ↔
      (b = 0 ∧ e = pos + 1) ∨ (0xC0 ≤ b.toNat ∧ e = pos + 2 ∧ e ≤ msg.length) ∨
      (1 ≤ b.toNat ∧ b.toNat ≤ 63 ∧
        ∃ w ∈ Name, Spans msg (pos + (1 + b.toNat)) w ∧ e = pos + (1 + b.toNat) + w.length) := by
  have hlt : pos < msg.length := (List.getElem?_eq_some_iff.mp hb).1
  constructor
  · rintro ⟨w, hw, hs, rfl⟩
    rcases mem_name.mp hw with (rfl | ⟨hi, lo, rfl, hge⟩) | ⟨-, ⟨n, l, rfl, h1, h63, hl⟩, w, hv, rfl⟩
    · rw [spans_cons_iff, hb] at hs
      exact .inl ⟨by simpa using hs.1, rfl⟩
    · have hle := hs.end_le
      rw [spans_cons_iff, hb, Option.some.injEq] at hs
      exact .inr (.inl ⟨by rw [hs.1]; exact hge, rfl, hle⟩)
    · rw [spans_append, spans_cons_iff, hb, Option.some.injEq, List.length_cons, hl] at hs
      obtain ⟨⟨rfl, -⟩, hs⟩ := hs
      rw [Nat.add_comm b.toNat 1] at hs
      refine .inr (.inr ⟨h1, h63, w, hv, hs, ?_⟩)
      rw [List.length_append, List.length_cons, hl]
      omega
  · rintro (⟨rfl, rfl⟩ | ⟨hge, rfl, hle⟩ | ⟨h1, h63, w, hw, hs, rfl⟩)
    · exact ⟨[0], mem_name.mpr (.inl (.inl rfl)), spans_cons_iff.mpr ⟨hb, spans_nil.mpr hlt⟩, rfl⟩
    · have hb' : msg[pos + 1]? = some msg[pos + 1] := List.getElem?_eq_getElem (by omega)
      exact ⟨[b, msg[pos + 1]], mem_name.mpr (.inl (.inr ⟨_, _, rfl, hge⟩)),
        spans_cons_iff.mpr ⟨hb, spans_cons_iff.mpr ⟨hb', spans_nil.mpr hle⟩⟩, rfl⟩
    · have hend := hs.1
      have hl : ((msg.drop (pos + 1)).take b.toNat).length = b.toNat := by
        rw [List.length_take, List.length_drop]
        omega
      refine ⟨(b :: (msg.drop (pos + 1)).take b.toNat) ++ w,
        mem_name.mpr (.inr ⟨_, ⟨_, _, rfl, h1, h63, hl⟩, w, hw, rfl⟩), ?_, ?_⟩
      · rw [spans_append, spans_cons_iff, List.length_cons, hl, Nat.add_comm b.toNat 1]
        exact ⟨⟨hb, spans_take (by omega)⟩, hs⟩
      · rw [List.length_append, List.length_cons, hl]
        omega

/-- `skipName` scans names, by induction on its walk. A pointer in the last
byte of the message is the one case where it answers a position past the end. -/
theorem skipName_scans (msg : Bytes) : Scans msg Name (skipName msg) := by
  intro pos e
  fun_induction skipName msg pos with
  | case1 pos h =>
    simp only [reduceCtorEq, false_and, false_iff]
    rintro ⟨w, hw, hs, -⟩
    cases w with
    | nil =>
      obtain ⟨v, -, u, hu, huv⟩ := Language.mem_mul.mp hw
      obtain ⟨-, rfl⟩ := List.append_eq_nil_iff.mp huv
      rcases hu with hu | ⟨_, _, hu, -⟩ <;> cases hu
    | cons b w => rw [(spans_cons_iff.mp hs).1] at h; cases h
  | case2 pos b h hp =>
    rw [exists_name_iff h]
    have hge := (and_C0_eq_C0 b).mp hp
    have h0 : b ≠ 0 := by rintro rfl; exact absurd hge (by decide)
    simp only [Option.some.injEq, h0, false_and, false_or, hge, true_and]
    constructor
    · rintro ⟨rfl, hle⟩; exact .inl ⟨rfl, hle⟩
    · rintro (⟨rfl, hle⟩ | ⟨-, h63, -⟩)
      · exact ⟨rfl, hle⟩
      · omega
  | case3 pos h hp hz =>
    rw [exists_name_iff h]
    have hlt := (List.getElem?_eq_some_iff.mp h).1
    simp only [Option.some.injEq, true_and]
    constructor
    · rintro ⟨rfl, -⟩; exact .inl rfl
    · rintro (rfl | ⟨hge, -⟩ | ⟨h1, -⟩)
      · exact ⟨rfl, hlt⟩
      · exact absurd hge (by decide)
      · exact absurd h1 (by decide)
  | case4 pos b h hp hz h0 hgt =>
    rw [exists_name_iff h]
    have h63 := (and_C0_eq_zero b).mp hz
    simp only [reduceCtorEq, false_and, h0, false_or, false_iff]
    rintro (⟨hge, -⟩ | ⟨-, -, w, -, hs, -⟩)
    · omega
    · have := hs.1; omega
  | case5 pos b h hp hz h0 hgt ih =>
    rw [exists_name_iff h, ih]
    have h63 := (and_C0_eq_zero b).mp hz
    have h1 : 1 ≤ b.toNat := Nat.one_le_iff_ne_zero.mpr fun hb => h0 (UInt8.toNat_inj.mp hb)
    simp [h0, h1, h63, show ¬ 0xC0 ≤ b.toNat by omega]
  | case6 pos b h hp hz =>
    rw [exists_name_iff h]
    have h192 := (and_C0_eq_C0 b).not.mp hp
    have h63 := (and_C0_eq_zero b).not.mp hz
    have h0 : b ≠ 0 := by rintro rfl; exact hz rfl
    simp [h0, h192, h63]

/-! ## Questions and records -/

theorem skipQuestions_eq_times (msg : Bytes) : ∀ n pos,
    skipQuestions msg n pos =
      times (fun pos => ((skipName msg pos).bind fun p => some (p + 4)).filter
        fun e => decide (e ≤ msg.length)) n pos
  | 0, _ => rfl
  | n + 1, pos => by
    simp only [skipQuestions, times]
    cases skipName msg pos with
    | none => rfl
    | some p =>
      by_cases hp : p + 4 ≤ msg.length
      · simp [hp, show ¬ p + 4 > msg.length by omega, Option.filter_some, skipQuestions_eq_times msg n]
      · simp [hp, show p + 4 > msg.length by omega, Option.filter_some]

theorem skipQuestions_scans (msg : Bytes) (n : Nat) : Scans msg (Question ^ n) (skipQuestions msg n) := by
  have h := (((skipName_scans msg).mul (scans_add 4)).inside).pow n
  exact (funext (skipQuestions_eq_times msg n)) ▸ h

/-- One record, as a scanner: its name, the ten fixed bytes, and the data. -/
def skipRecordTail (msg : Bytes) (pos : Nat) : Option Nat :=
  (range? msg pos (pos + 10)).bind fun fixed =>
    if pos + (10 + word fixed 8) > msg.length then none else some (pos + (10 + word fixed 8))

theorem skipRecordTail_scans (msg : Bytes) : Scans msg RecordTail (skipRecordTail msg) := by
  intro pos e
  simp only [skipRecordTail, Option.bind_eq_some_iff, range?_eq_some, Nat.add_sub_cancel_left,
    Option.ite_none_left_eq_some, Option.some.injEq]
  constructor
  · rintro ⟨⟨fixed, ⟨-, h10, rfl⟩, hle, rfl⟩, -⟩
    generalize hf : (msg.drop pos).take 10 = fixed at hle ⊢
    have hl : fixed.length = 10 := by rw [← hf, List.length_take, List.length_drop]; omega
    have hd : ((msg.drop (pos + 10)).take (word fixed 8)).length = word fixed 8 := by
      rw [List.length_take, List.length_drop]; omega
    refine ⟨fixed ++ (msg.drop (pos + 10)).take (word fixed 8), ⟨_, _, rfl, hl, hd⟩, ?_, ?_⟩
    · rw [spans_append, hl, ← hf]
      exact ⟨spans_take h10, spans_take (by rw [hf]; omega)⟩
    · rw [List.length_append, hl, hd]
  · rintro ⟨w, ⟨fixed, rdata, rfl, hl, hd⟩, hs, rfl⟩
    have hle := hs.end_le
    rw [List.length_append, hl, hd] at hle ⊢
    have hf := (spans_append.mp hs).1.eq_take
    rw [hl] at hf
    exact ⟨⟨fixed, ⟨by omega, by omega, hf⟩, by omega, rfl⟩, hle⟩

theorem optTtlTop_returns {rest : Bytes} (hl : rest.length = 10) (extended : Option UInt8) :
    Returns (optTtlTop rest extended) := by
  obtain ⟨rtype, hty, -⟩ := readU16_of_lt (show 0 + 1 < rest.length by omega)
  simp only [optTtlTop, hty, index_of_lt (show 4 < rest.length by omega), bind, Except.bind]
  split <;> exact ⟨_, rfl⟩

/-- The loop over the records returns, and accepts exactly where the scanner
of so many records answers. -/
theorem scanRecords_spec (msg : Bytes) : ∀ n pos extended,
    (∃ x, scanRecords msg n pos extended = .ok (.ok x) ∧
      (times (fun pos => (skipName msg pos).bind (skipRecordTail msg)) n pos).isSome) ∨
    (∃ err, scanRecords msg n pos extended = .ok (.error err) ∧
      times (fun pos => (skipName msg pos).bind (skipRecordTail msg)) n pos = none)
  | 0, pos, extended => .inl ⟨extended, rfl, rfl⟩
  | n + 1, pos, extended => by
    simp only [scanRecords, times]
    cases hn : skipName msg pos with
    | none => exact .inr ⟨_, rfl, rfl⟩
    | some p =>
      simp only [Option.bind_some, skipRecordTail]
      cases hr : range? msg p (p + 10) with
      | none => exact .inr ⟨_, rfl, rfl⟩
      | some rest =>
        have hl : rest.length = 10 := by
          obtain ⟨-, h10, rfl⟩ := range?_eq_some.mp hr
          rw [List.length_take, List.length_drop]
          omega
        obtain ⟨extended', hext⟩ := optTtlTop_returns hl extended
        obtain ⟨rdlen, hrd, hrdlen⟩ := readU16_of_lt (show 8 + 1 < rest.length by omega)
        simp only [hrd, hext, hrdlen, bind, Except.bind, Option.bind_some]
        split
        · exact .inr ⟨_, rfl, rfl⟩
        · exact scanRecords_spec msg n _ _

theorem records_scans (msg : Bytes) (n : Nat) :
    Scans msg (Record ^ n) (times (fun pos => (skipName msg pos).bind (skipRecordTail msg)) n) :=
  ((skipName_scans msg).mul (skipRecordTail_scans msg)).pow n

/-! ## The body -/

/-- The loops behind the header check, as one scanner. -/
def skipBody (msg : Bytes) (qd rr pos : Nat) : Option Nat :=
  (skipQuestions msg qd pos).bind (times (fun pos => (skipName msg pos).bind (skipRecordTail msg)) rr)

theorem skipBody_scans (msg : Bytes) (qd rr : Nat) :
    Scans msg (Question ^ qd * Record ^ rr) (skipBody msg qd rr) :=
  (skipQuestions_scans msg qd).mul (records_scans msg rr)

theorem skipRecordTail_inside (msg : Bytes) : Inside msg (skipRecordTail msg) := by
  intro pos e h
  obtain ⟨fixed, -, h⟩ := Option.bind_eq_some_iff.mp h
  simp only [Option.ite_none_left_eq_some, Option.some.injEq] at h
  omega

theorem skipBody_le {msg : Bytes} {qd rr pos e : Nat} (hp : pos ≤ msg.length)
    (h : skipBody msg qd rr pos = some e) : e ≤ msg.length := by
  obtain ⟨p, hq, hr⟩ := Option.bind_eq_some_iff.mp h
  rw [skipQuestions_eq_times] at hq
  exact (skipRecordTail_inside msg).bind.times (inside_filter.times hp hq) hr

theorem skipBody_isSome_iff {msg : Bytes} {qd rr pos : Nat} (hp : pos ≤ msg.length) :
    (skipBody msg qd rr pos).isSome ↔ msg.drop pos ∈ Question ^ qd * Record ^ rr * ⊤ := by
  rw [← exists_spans_iff hp, Option.isSome_iff_exists]
  constructor
  · rintro ⟨e, he⟩
    obtain ⟨w, hw, hs, -⟩ := (skipBody_scans msg qd rr pos e).mp ⟨he, skipBody_le hp he⟩
    exact ⟨w, hw, hs⟩
  · rintro ⟨w, hw, hs⟩
    exact ⟨_, ((skipBody_scans msg qd rr pos _).mpr ⟨w, hw, hs, rfl⟩).1⟩

/-- The scan returns on every input, and accepts exactly where the loops, as a
scanner, answer. -/
theorem optExtendedRcode_spec (msg : Bytes) :
    (∃ x, optExtendedRcode msg = .ok (.ok x) ∧ 12 ≤ msg.length ∧
      (skipBody msg (word msg 4) (word msg 6 + word msg 8 + word msg 10) 12).isSome) ∨
    (∃ err, optExtendedRcode msg = .ok (.error err) ∧ (12 ≤ msg.length →
      skipBody msg (word msg 4) (word msg 6 + word msg 8 + word msg 10) 12 = none)) := by
  unfold optExtendedRcode
  split
  · rename_i h
    exact .inr ⟨_, rfl, fun h' => absurd h (by omega)⟩
  · rename_i h
    obtain ⟨qd, hqd, eqd⟩ := readU16_of_lt (show 4 + 1 < msg.length by omega)
    obtain ⟨an, han, ean⟩ := readU16_of_lt (show 6 + 1 < msg.length by omega)
    obtain ⟨ns, hns, ens⟩ := readU16_of_lt (show 8 + 1 < msg.length by omega)
    obtain ⟨ar, har, ear⟩ := readU16_of_lt (show 10 + 1 < msg.length by omega)
    simp only [hqd, han, hns, har, eqd, ean, ens, ear, bind, Except.bind, skipBody]
    cases skipQuestions msg (word msg 4) 12 with
    | none => exact .inr ⟨_, rfl, fun _ => rfl⟩
    | some pos =>
      rcases scanRecords_spec msg (word msg 6 + word msg 8 + word msg 10) pos none with
        ⟨x, hx, hs⟩ | ⟨err, herr, hs⟩
      · exact .inl ⟨x, hx, by omega, hs⟩
      · exact .inr ⟨err, herr, fun _ => hs⟩

/-- On every message the scan ends without a read out of range, and it answers
`Ok` exactly when the message has a header and a body as the header counts it. -/
theorem optExtendedRcode_ok_iff (msg : Bytes) :
    Returns (optExtendedRcode msg) ∧
      ((∃ extended, optExtendedRcode msg = .ok (.ok extended)) ↔
        12 ≤ msg.length ∧ msg.drop 12 ∈ Body msg) := by
  rcases optExtendedRcode_spec msg with ⟨x, hx, h12, hs⟩ | ⟨err, herr, hs⟩
  · exact ⟨⟨_, hx⟩, iff_of_true ⟨x, hx⟩ ⟨h12, (skipBody_isSome_iff h12).mp hs⟩⟩
  · refine ⟨⟨_, herr⟩, iff_of_false ?_ ?_⟩
    · rintro ⟨x, hx⟩
      rw [herr] at hx
      cases hx
    · rintro ⟨h12, hb⟩
      rw [Body, ← skipBody_isSome_iff h12, hs h12] at hb
      cases hb

end WireSurge.Dns
