import WireSurge.Metrics.Hist

/-!
# The sections of a response

The records that a message has in its three sections (`sections`), as the scan
for the extended RCODE walks over them: one loop over all of them, which takes
the top byte of the TTL from the last one of type 41. The OPT record stands in
the additional section; `extended_rcode_iff` says when one in another section
makes no difference to the RCODE that is reported and counted.
-/

namespace WireSurge.Dns

open Checked (range? index_of_lt range?_eq_some)
open Metrics (LoadRecorder)

/-- What the scan reads of a record. -/
structure ResourceRecord where
  rtype : UInt16
  ttlTop : UInt8
  deriving DecidableEq, Repr

/-- The record at a position, and the position behind it. -/
def recordAt (msg : Bytes) (pos : Nat) : Option (ResourceRecord × Nat) :=
  (skipName msg pos).bind fun p =>
    (range? msg p (p + 10)).bind fun fixed =>
      if p + (10 + word fixed 8) > msg.length then none
      else some (⟨u16FromBeBytes (fixed.getD 0 0) (fixed.getD 1 0), fixed.getD 4 0⟩, p + (10 + word fixed 8))

/-- So many records from a position on, and the position behind them. -/
def recordsAt (msg : Bytes) : Nat → Nat → Option (List ResourceRecord × Nat)
  | 0, pos => some ([], pos)
  | n + 1, pos => (recordAt msg pos).bind fun (r, p) => (recordsAt msg n p).map fun (rs, e) => (r :: rs, e)

structure Sections where
  answers : List ResourceRecord
  authorities : List ResourceRecord
  additionals : List ResourceRecord
  deriving DecidableEq, Repr

/-- The records behind the questions, by the counts of the header. -/
def sections (msg : Bytes) : Option Sections :=
  (skipQuestions msg (word msg 4) 12).bind fun pos =>
    (recordsAt msg (word msg 6) pos).bind fun (answers, pos) =>
      (recordsAt msg (word msg 8) pos).bind fun (authorities, pos) =>
        (recordsAt msg (word msg 10) pos).map fun (additionals, _) => { answers, authorities, additionals }

/-- The top bytes of the TTLs of the records of type 41. -/
def optTops (rs : List ResourceRecord) : List UInt8 := (rs.filter (·.rtype = 41)).map ResourceRecord.ttlTop

theorem optTops_append (rs rs' : List ResourceRecord) : optTops (rs ++ rs') = optTops rs ++ optTops rs' := by
  rw [optTops, List.filter_append, List.map_append, optTops, optTops]

theorem optTops_cons (r : ResourceRecord) (rs : List ResourceRecord) :
    optTops (r :: rs) = if r.rtype = 41 then r.ttlTop :: optTops rs else optTops rs := by
  unfold optTops
  rw [List.filter_cons]
  split <;> simp_all

/-! ## The scan -/

theorem recordsAt_add (msg : Bytes) (m n pos : Nat) :
    recordsAt msg (m + n) pos =
      (recordsAt msg m pos).bind fun (rs, p) => (recordsAt msg n p).map fun (rs', e) => (rs ++ rs', e) := by
  induction m generalizing pos with
  | zero => simp [recordsAt]
  | succ m ih =>
    rw [show m + 1 + n = m + n + 1 by omega, recordsAt, recordsAt]
    cases recordAt msg pos with
    | none => rfl
    | some rp =>
      simp only [Option.bind_some, ih]
      cases recordsAt msg m rp.2 with
      | none => rfl
      | some rsp =>
        simp only [Option.bind_some, Option.map_some]
        cases recordsAt msg n rsp.2 <;> rfl

theorem optTtlTop_eq {fixed : Bytes} (h : fixed.length = 10) (extended : Option UInt8) :
    optTtlTop fixed extended =
      .ok (if u16FromBeBytes (fixed.getD 0 0) (fixed.getD 1 0) = 41 then some (fixed.getD 4 0) else extended) := by
  have hget {i : Nat} (hi : i < fixed.length) : Checked.index fixed i = .ok (fixed.getD i 0) := by
    rw [index_of_lt hi, List.getD_eq_getElem?_getD, List.getElem?_eq_getElem hi, Option.getD_some]
  simp only [optTtlTop, readU16, hget (show 0 < fixed.length by omega), hget (show 0 + 1 < fixed.length by omega),
    hget (show 4 < fixed.length by omega), bind, Except.bind, pure, Except.pure]
  split <;> rfl

/-- The loop over the records ends with the last of the top bytes. -/
theorem scanRecords_eq (msg : Bytes) (n : Nat) : ∀ (pos : Nat) (extended : Option UInt8),
    scanRecords msg n pos extended =
      .ok (match recordsAt msg n pos with
        | some (rs, _) => .ok ((optTops rs).getLast?.or extended)
        | none => .error invalidBody) := by
  induction n with
  | zero => exact fun pos extended => rfl
  | succ n ih =>
    intro pos extended
    rw [scanRecords, recordsAt, recordAt]
    cases skipName msg pos with
    | none => rfl
    | some p =>
      simp only [Option.bind_some]
      cases hr : range? msg p (p + 10) with
      | none => rfl
      | some fixed =>
        have hlen : fixed.length = 10 := by
          obtain ⟨-, h10, rfl⟩ := range?_eq_some.mp hr
          rw [List.length_take, List.length_drop]
          omega
        obtain ⟨rdlen, hrd, hrdlen⟩ := readU16_of_lt (show 8 + 1 < fixed.length by omega)
        simp only [optTtlTop_eq hlen, hrd, hrdlen, bind, Except.bind, Option.bind_some]
        split
        · rfl
        · rw [ih, Option.bind_some]
          cases recordsAt msg n (p + (10 + word fixed 8)) with
          | none => rfl
          | some rsp =>
            simp only [Option.map_some, optTops_cons]
            split
            · cases optTops rsp.1 with
              | nil => rfl
              | cons top tops => rw [List.getLast?_cons_cons, List.getLast?_cons]; rfl
            · rfl

/-- What the scan finds in a message that it accepts. -/
theorem optExtendedRcode_eq_ok {msg : Bytes} {extended : Option UInt8} (h : optExtendedRcode msg = .ok (.ok extended)) :
    ∃ s, sections msg = some s ∧
      extended = (optTops (s.answers ++ s.authorities ++ s.additionals)).getLast? := by
  unfold optExtendedRcode at h
  split at h
  · cases h
  · obtain ⟨qd, hqd, eqd⟩ := readU16_of_lt (show 4 + 1 < msg.length by omega)
    obtain ⟨an, han, ean⟩ := readU16_of_lt (show 6 + 1 < msg.length by omega)
    obtain ⟨ns, hns, ens⟩ := readU16_of_lt (show 8 + 1 < msg.length by omega)
    obtain ⟨ar, har, ear⟩ := readU16_of_lt (show 10 + 1 < msg.length by omega)
    simp only [hqd, han, hns, har, eqd, ean, ens, ear, bind, Except.bind] at h
    unfold sections
    cases hq : skipQuestions msg (word msg 4) 12 with
    | none =>
      rw [hq] at h
      cases h
    | some pos =>
      rw [hq] at h
      simp only [scanRecords_eq, recordsAt_add] at h
      simp only [Option.bind_some]
      cases h1 : recordsAt msg (word msg 6) pos with
      | none => simp [h1] at h
      | some rs1 =>
        simp only [h1, Option.bind_some] at h ⊢
        cases h2 : recordsAt msg (word msg 8) rs1.2 with
        | none => simp [h2] at h
        | some rs2 =>
          simp only [h2, Option.bind_some, Option.map_some] at h ⊢
          cases h3 : recordsAt msg (word msg 10) rs2.2 with
          | none => simp [h3] at h
          | some rs3 =>
            simp only [h3, Option.map_some, Except.ok.injEq, Option.or_none] at h ⊢
            exact ⟨_, rfl, h.symm⟩

/-! ## The extended RCODE -/

/-- The low four bits of a header's RCODE. -/
def lowRcode (msg : Bytes) : Nat := (msg.getD 3 0).toNat % 16

/-- The top TTL byte of the OPT record of the additional section, zero when there is none. -/
def Sections.optTop (s : Sections) : Nat := ((optTops s.additionals).headD 0).toNat

/-- The decoder reads a header as RFC 1035 lays it out. -/
def DecodesHeader (decode : HeaderDecoder) : Prop :=
  ∀ msg header, decode msg = .ok header → rfc1035Header msg = .ok header

theorem toNat_rcode (b top : UInt8) :
    ((b &&& 0x0F).toUInt16 ||| (top.toUInt16 <<< 4)).toNat = b.toNat % 16 + 16 * top.toNat := by
  have ht := top.toNat_lt
  have hb : (b &&& 0x0F).toNat = b.toNat % 16 := Nat.and_two_pow_sub_one_eq_mod _ 4
  have hs : top.toNat <<< 4 = top.toNat * 16 := Nat.shiftLeft_eq _ _
  have hm : top.toNat <<< 4 % 2 ^ 16 = top.toNat <<< 4 := Nat.mod_eq_of_lt (by rw [hs]; omega)
  rw [UInt16.toNat_or, UInt16.toNat_shiftLeft, UInt8.toNat_toUInt16, UInt8.toNat_toUInt16, hb,
    show (4 : UInt16).toNat % 16 = 4 from rfl, hm, Nat.or_comm, ← Nat.shiftLeft_add_eq_or_of_lt (by omega), hs]
  omega

theorem rfc1035Header_rcode {msg : Bytes} {header : Header} (h : rfc1035Header msg = .ok header) :
    header.responseCode = (msg.getD 3 0 &&& 0x0F).toUInt16 := by
  unfold rfc1035Header at h
  split at h
  · cases h
    rfl
  · cases h

/-- The RCODE of a response that is accepted. -/
theorem parseResponseHeader_rcode {decode : HeaderDecoder} (hd : DecodesHeader decode) {response : Bytes}
    {expectedId : Option UInt16} {header : ResponseHeader}
    (h : parseResponseHeader decode response expectedId = .ok (.ok header)) :
    ∃ s, sections response = some s ∧ header.rcode.toNat = lowRcode response +
      16 * ((optTops (s.answers ++ s.authorities ++ s.additionals)).getLast?.getD 0).toNat := by
  unfold parseResponseHeader at h
  split at h
  · cases h
  · rename_i decoded hdecoded
    split at h
    · cases h
    · split at h
      · cases h
      · split at h
        · cases h
        · obtain ⟨result, hresult⟩ := (optExtendedRcode_ok_iff response).1
          rw [hresult] at h
          cases result with
          | error error => cases h
          | ok extended =>
            obtain ⟨s, hs, rfl⟩ := optExtendedRcode_eq_ok hresult
            cases h
            refine ⟨s, hs, ?_⟩
            rw [rfc1035Header_rcode (hd _ _ hdecoded), toNat_rcode, lowRcode]

/-- The RCODE reported is the header's and the OPT record's, and the response
counts as goodput when both are zero. -/
def Reported (response : Bytes) (s : Sections) (rcode : UInt16) : Prop :=
  rcode.toNat = lowRcode response + 16 * s.optTop ∧
    ∀ (r : LoadRecorder) (truncated : Bool) (bytesIn latencyUs : Nat),
      (r.onResponse rcode truncated bytesIn latencyUs).goodput = r.goodput + 1 ↔
        lowRcode response = 0 ∧ s.optTop = 0

theorem goodput_onResponse (r : LoadRecorder) (rcode : UInt16) (truncated : Bool) (bytesIn latencyUs : Nat) :
    (r.onResponse rcode truncated bytesIn latencyUs).goodput = r.goodput + 1 ↔ rcode.toNat = 0 := by
  have hbucket : LoadRecorder.bucket rcode = 0 ↔ rcode.toNat = 0 := by
    rw [LoadRecorder.bucket, Fin.ext_iff]
    show min rcode.toNat 16 = 0 ↔ _
    omega
  rw [← hbucket]
  by_cases h : LoadRecorder.bucket rcode = 0
  · simp [LoadRecorder.goodput, LoadRecorder.onResponse, h]
  · simp [LoadRecorder.goodput, LoadRecorder.onResponse, h, Function.update_of_ne (Ne.symm h)]

/-- In a response with at most one OPT record in its additional section, a record
of type 41 in another section changes the RCODE when there is no OPT record behind
it, and the last such record has something in the top byte of its TTL. -/
theorem extended_rcode_iff {decode : HeaderDecoder} (hd : DecodesHeader decode) {response : Bytes}
    {expectedId : Option UInt16} {header : ResponseHeader}
    (h : parseResponseHeader decode response expectedId = .ok (.ok header)) :
    ∃ s, sections response = some s ∧ ((optTops s.additionals).length ≤ 1 →
      (Reported response s header.rcode ↔
        optTops s.additionals ≠ [] ∨ (optTops (s.answers ++ s.authorities)).getLast?.getD 0 = 0)) := by
  obtain ⟨s, hs, hrcode⟩ := parseResponseHeader_rcode hd h
  refine ⟨s, hs, fun hone => ?_⟩
  rw [optTops_append] at hrcode
  have hreported : Reported response s header.rcode ↔ header.rcode.toNat = lowRcode response + 16 * s.optTop := by
    refine ⟨And.left, fun heq => ⟨heq, fun r truncated bytesIn latencyUs => ?_⟩⟩
    rw [goodput_onResponse, heq]
    omega
  rw [hreported]
  unfold Sections.optTop at *
  match hadd : optTops s.additionals, hone with
  | [], _ =>
    rw [hadd, List.append_nil] at hrcode
    rw [hrcode, ← UInt8.toNat_inj]
    simp only [List.headD_nil, ne_eq, not_true_eq_false, false_or, UInt8.toNat_zero]
    omega
  | [top], _ =>
    rw [hadd, List.getLast?_concat] at hrcode
    exact iff_of_true hrcode (.inl (by simp))

/-- `extended_rcode_iff` on BADVERS: RCODE 0 in the header and an OPT record with the rest. -/
theorem extended_rcode_badvers :
    ∃ s, sections [0, 0, 0x81, 0, 0, 0, 0, 0, 0, 0, 0, 1, 0, 0, 41, 4, 208, 1, 0, 0, 0, 0, 0] = some s ∧
      Reported [0, 0, 0x81, 0, 0, 0, 0, 0, 0, 0, 0, 1, 0, 0, 41, 4, 208, 1, 0, 0, 0, 0, 0] s 16 := by
  have hsections : sections [0, 0, 0x81, 0, 0, 0, 0, 0, 0, 0, 0, 1, 0, 0, 41, 4, 208, 1, 0, 0, 0, 0, 0] =
      some ⟨[], [], [⟨41, 1⟩]⟩ := by decide +kernel
  have hparse : parseResponseHeader rfc1035Header
      [0, 0, 0x81, 0, 0, 0, 0, 0, 0, 0, 0, 1, 0, 0, 41, 4, 208, 1, 0, 0, 0, 0, 0] none = .ok (.ok ⟨16, false⟩) := by
    decide +kernel
  obtain ⟨s, hs, hiff⟩ := extended_rcode_iff (fun _ _ h => h) hparse
  cases hsections.symm.trans hs
  exact ⟨_, hs, (hiff (by decide)).mpr (.inl (by decide))⟩

/-- With the same record in the answer section, and no other, the RCODE is 16 as well. -/
theorem extended_rcode_answer :
    ∃ response header s, parseResponseHeader rfc1035Header response none = .ok (.ok header) ∧
      sections response = some s ∧ (optTops s.additionals).length ≤ 1 ∧ ¬ Reported response s header.rcode := by
  refine ⟨[0, 0, 0x81, 0, 0, 0, 0, 1, 0, 0, 0, 0, 0, 0, 41, 4, 208, 1, 0, 0, 0, 0, 0], ⟨16, false⟩,
    ⟨[⟨41, 1⟩], [], []⟩, by decide +kernel, by decide +kernel, by decide, fun h => ?_⟩
  exact absurd h.1 (by decide)

end WireSurge.Dns
