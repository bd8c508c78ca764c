import WireSurge.Dns.Query
import WireSurge.Dns.Question
import WireSurge.Dns.Sections

/-!
# Queries and their replies

What `build_query` has built keeps its question where the client looks for it, and within
the buffer of a slot (`Asks.questionBytes_eq`, `Asks.fits`). A response to it is accepted
if it is a response to a standard query, with that question and no other, and with a
body as its header counts it (`Conforms`): by the correlator of Do53 and DoT, to
which it comes with the id of the query, and by DoH, where its id does not matter
(`accepted_iff`). Both report the same of it.
-/

namespace WireSurge.Dns

open Checked (index range? range?_eq_some)
open Correlator (Registered)
open Engine (EdnsOption)

/-! ## The question of a packet -/

/-- The walk goes over the labels of a name, to the byte behind the root. -/
theorem walk_labels (ls : List Rfc1035.Label) (pre post : Bytes) :
    walkUncompressedName (pre ++ (Rfc1035.labels.write ls ++ post)) pre.length =
      some (pre.length + (Rfc1035.labels.write ls).length) := by
  induction ls generalizing pre with
  | nil =>
    have hget : (pre ++ (Rfc1035.labels.write [] ++ post))[pre.length]? = some 0 := by
      rw [Rfc1035.write_labels_nil, List.getElem?_append_right (Nat.le_refl _), Nat.sub_self]
      rfl
    rw [walkUncompressedName_of_some hget]
    rfl
  | cons l ls ih =>
    have hl := l.2
    have hbyte := Rfc1035.toNat_lengthByte l
    have hget : (pre ++ (Rfc1035.labels.write (l :: ls) ++ post))[pre.length]? =
        some (Rfc1035.lengthByte (some l)) := by
      rw [Rfc1035.write_labels_cons, List.getElem?_append_right (Nat.le_refl _), Nat.sub_self]
      rfl
    have hlow : Rfc1035.lengthByte (some l) &&& 0xC0 = 0 := (and_C0_eq_zero _).mpr (by omega)
    have hne : Rfc1035.lengthByte (some l) ≠ 0 := by
      intro h0
      rw [h0] at hbyte
      have hzero : l.1.length = 0 := hbyte.symm
      omega
    have hpre : pre ++ (Rfc1035.labels.write (l :: ls) ++ post) =
        (pre ++ Rfc1035.lengthByte (some l) :: l.1) ++ (Rfc1035.labels.write ls ++ post) := by
      simp [Rfc1035.write_labels_cons]
    have hlen : (pre ++ Rfc1035.lengthByte (some l) :: l.1).length = pre.length + (1 + l.1.length) := by
      rw [List.length_append, List.length_cons, Nat.add_comm l.1.length 1]
    have hnext := ih (pre ++ Rfc1035.lengthByte (some l) :: l.1)
    rw [walkUncompressedName_of_some hget, if_neg (not_not.mpr hlow), if_neg hne, hbyte, hpre, ← hlen, hnext,
      if_neg (by simp), Rfc1035.write_labels_cons, hlen]
    simp only [List.length_cons, List.length_append, Option.some.injEq]
    omega

variable {packet : Bytes} {id qtype : UInt16} {name : Rfc1035.Name} {options : List EdnsOption}

theorem word_append {header rest : Bytes} {i : Nat} (h : i + 1 < header.length) :
    word (header ++ rest) i = word header i := by
  simp only [word, List.getD_eq_getElem?_getD, List.getElem?_append_left h,
    List.getElem?_append_left (Nat.lt_of_succ_lt h)]

/-- The header of a packet, its one question, and what is behind it. -/
theorem Asks.split (h : Asks packet id name qtype options) : ∃ (header rest : Bytes), header.length = 12 ∧
    word header 4 = 1 ∧ packet = header ++ (Rfc1035.question.write ⟨name, qtype, 1⟩ ++ rest) := by
  obtain ⟨m, hread, -, -, hq, -⟩ := h
  have hpacket := Rfc1035.message.read_iff.mp hread
  rw [Rfc1035.write_message, hq, List.flatMap_singleton, List.append_nil] at hpacket
  refine ⟨_, _, rfl, ?_, hpacket⟩
  have hcount : (Rfc1035.Message.header m).qdcount = 1 := by
    rw [Rfc1035.Message.header, hq]
    rfl
  show be16 (UInt8.ofNat (m.header.qdcount.toNat / 256)) (UInt8.ofNat (m.header.qdcount.toNat % 256)) = 1
  rw [hcount]
  rfl

theorem questionRange_of_split {header rest : Bytes} {q : Rfc1035.Question} (hlen : header.length = 12)
    (hcount : word header 4 = 1) : questionRange (header ++ (Rfc1035.question.write q ++ rest)) =
      .ok (some (12, 12 + (Rfc1035.question.write q).length)) := by
  have hq := Rfc1035.length_write_question q
  have hmsg : header ++ (Rfc1035.labels.write q.name.1 ++
      (Codec.u16.write q.qtype ++ Codec.u16.write q.qclass ++ rest)) = header ++ (Rfc1035.question.write q ++ rest) :=
    congrArg (header ++ ·) (List.append_assoc (Rfc1035.labels.write q.name.1) _ rest).symm
  have hwalk := walk_labels q.name.1 header (Codec.u16.write q.qtype ++ Codec.u16.write q.qclass ++ rest)
  rw [hlen, hmsg] at hwalk
  have hle : 12 + (Rfc1035.labels.write q.name.1).length + 4 ≤
      (header ++ (Rfc1035.question.write q ++ rest)).length := by
    rw [List.length_append, List.length_append, hlen, hq]
    omega
  obtain ⟨qd, hqd, hone⟩ := readU16_of_lt
    (show 4 + 1 < (header ++ (Rfc1035.question.write q ++ rest)).length by omega)
  rw [word_append (by omega), hcount] at hone
  have hqd1 : qd = 1 := UInt16.toNat_inj.mp hone
  rw [questionRange, if_neg (by omega), hq, ← Nat.add_assoc]
  simp only [hqd, hqd1, hwalk, hle, bind, Except.bind, ne_eq, not_true_eq_false, if_false, if_true]
  rfl

theorem questionBytes_of_split {header rest : Bytes} {q : Rfc1035.Question} (hlen : header.length = 12)
    (hcount : word header 4 = 1) : questionBytes (header ++ (Rfc1035.question.write q ++ rest)) =
      some (Rfc1035.question.write q) := by
  rw [questionBytes, questionRange_of_split hlen hcount]
  refine range?_eq_some.mpr ⟨Nat.le_add_right _ _, ?_, ?_⟩
  · simp only [List.length_append]
    omega
  · rw [Nat.add_sub_cancel_left, ← hlen, List.drop_left, List.take_left]

/-- The question of a packet is found in it. -/
theorem Asks.questionBytes_eq (h : Asks packet id name qtype options) :
    questionBytes packet = some (Rfc1035.question.write ⟨name, qtype, 1⟩) := by
  obtain ⟨header, rest, hlen, hcount, rfl⟩ := h.split
  exact questionBytes_of_split hlen hcount

/-- It fits the buffer of a slot, as the name has at most 255 bytes. -/
theorem Asks.fits (h : Asks packet id name qtype options) : Fits packet := by
  obtain ⟨header, rest, hlen, hcount, rfl⟩ := h.split
  intro range hrange
  cases (questionRange_of_split hlen hcount).symm.trans hrange
  have hq := Rfc1035.length_write_question ⟨name, qtype, 1⟩
  have hname : (Rfc1035.labels.write name.1).length ≤ 255 := name.2
  rw [hq, Nat.add_sub_cancel_left]
  exact Nat.add_le_add_right hname 4

/-! ## Responses -/

/-- The decoder reads a header as RFC 1035 lays it out, and all those of standard queries. -/
structure ReadsHeaders (decode : HeaderDecoder) : Prop where
  sound : DecodesHeader decode
  query {msg : Bytes} {header : Header} :
    rfc1035Header msg = .ok header → header.opCode = .query → decode msg = .ok header

/-- A response to a standard query with the question `q`, and a body as its header counts it. -/
structure Conforms (q : Rfc1035.Question) (response : Bytes) : Prop where
  isResponse : response.getD 2 0 &&& 0x80 ≠ 0
  isQuery : response.getD 2 0 >>> 3 &&& 0x0F = 0
  question : ∃ header rest : Bytes, header.length = 12 ∧ word header 4 = 1 ∧
    response = header ++ (Rfc1035.question.write q ++ rest)
  body : response.drop 12 ∈ Body response

theorem count_of_range {msg : Bytes} {range : Nat × Nat} (h : questionRange msg = .ok (some range)) :
    word msg 4 = 1 := by
  rw [questionRange] at h
  split at h
  · cases h
  · rename_i hlen
    obtain ⟨qd, hqd, hword⟩ := readU16_of_lt (show 4 + 1 < msg.length by omega)
    simp only [hqd, bind, Except.bind] at h
    split at h
    · cases h
    · rename_i hone
      rw [← hword, not_not.mp hone]
      rfl

theorem questionBytes_eq_iff {response : Bytes} {q : Rfc1035.Question} :
    questionBytes response = some (Rfc1035.question.write q) ↔ ∃ header rest : Bytes, header.length = 12 ∧
      word header 4 = 1 ∧ response = header ++ (Rfc1035.question.write q ++ rest) := by
  constructor
  · intro h
    rcases questionBytes_spec response with ⟨-, hnone⟩ | ⟨e, bytes, hrange, h12, hle, hr, hb, -⟩
    · rw [hnone] at h
      cases h
    · rw [hb, Option.some.injEq] at h
      subst h
      obtain ⟨-, -, htake⟩ := range?_eq_some.mp hr
      refine ⟨response.take 12, (response.drop 12).drop (e - 12), ?_, ?_, ?_⟩
      · rw [List.length_take]
        omega
      · rw [← count_of_range hrange, ← List.take_append_drop 12 response, word_append, List.take_append_drop]
        rw [List.length_take]
        omega
      · rw [htake, List.take_append_drop, List.take_append_drop]
  · rintro ⟨header, rest, hlen, hcount, rfl⟩
    exact questionBytes_of_split hlen hcount

/-- With the id of the response itself, or with none, the header is accepted alike. -/
theorem parseResponseHeader_txid {decode : HeaderDecoder} (hd : DecodesHeader decode) {response : Bytes} {rid : UInt16}
    (hid : txid response = some rid) :
    parseResponseHeader decode response (some rid) = parseResponseHeader decode response none := by
  unfold parseResponseHeader
  cases hdecode : decode response with
  | error e => rfl
  | ok header =>
    have hheader := hd _ _ hdecode
    have hrid : header.id = rid := by
      unfold rfc1035Header at hheader
      split at hheader
      · cases hheader
        cases hid
        rfl
      · cases hheader
    have hnone : (some rid).filter (· ≠ header.id) = none := by simp [hrid]
    simp only [hnone]
    rfl

theorem length_of_rfc1035Header {msg : Bytes} : (∃ header, rfc1035Header msg = .ok header) ↔ 12 ≤ msg.length := by
  constructor
  · rintro ⟨header, h⟩
    unfold rfc1035Header at h
    split at h
    · simp only [List.length_cons]
      omega
    · cases h
  · intro h
    match msg, h with
    | _ :: _ :: _ :: _ :: _ :: _ :: _ :: _ :: _ :: _ :: _ :: _ :: _, _ => exact ⟨_, rfl⟩

/-- The two fields that tell a response to a standard query. -/
theorem bits_of_rfc1035Header {msg : Bytes} {header : Header} (h : rfc1035Header msg = .ok header) :
    (header.messageType = .response ↔ msg.getD 2 0 &&& 0x80 ≠ 0) ∧
      (header.opCode = .query ↔ msg.getD 2 0 >>> 3 &&& 0x0F = 0) := by
  unfold rfc1035Header at h
  split at h
  · rename_i b2 _ _ _ _ _ _ _ _ _ _
    cases h
    constructor
    · show (if b2 &&& 0x80 = 0 then MessageType.query else MessageType.response) = .response ↔ b2 &&& 0x80 ≠ 0
      split <;> simp_all
    · simp only [List.getD_cons_succ, List.getD_cons_zero]
      split <;> simp_all
  · cases h

theorem parseResponseHeader_ok_iff {decode : HeaderDecoder} (hd : ReadsHeaders decode) (response : Bytes) :
    (∃ header, parseResponseHeader decode response none = .ok (.ok header)) ↔
      response.getD 2 0 &&& 0x80 ≠ 0 ∧ response.getD 2 0 >>> 3 &&& 0x0F = 0 ∧ 12 ≤ response.length ∧
        response.drop 12 ∈ Body response := by
  obtain ⟨⟨result, hresult⟩, hbody⟩ := optExtendedRcode_ok_iff response
  rw [← hbody, hresult]
  cases hdecode : decode response with
  | error e =>
    refine iff_of_false ?_ ?_
    · rintro ⟨header, h⟩
      simp only [parseResponseHeader, hdecode] at h
      cases h
    · rintro ⟨-, hquery, extended, hok⟩
      have hlen : 12 ≤ response.length := (hbody.mp ⟨extended, hresult.trans hok⟩).1
      obtain ⟨header, hheader⟩ := length_of_rfc1035Header.mpr hlen
      have hdecoded := hd.query hheader ((bits_of_rfc1035Header hheader).2.mpr hquery)
      rw [hdecode] at hdecoded
      cases hdecoded
  | ok header =>
    obtain ⟨htype, hquery⟩ := bits_of_rfc1035Header (hd.sound _ _ hdecode)
    simp only [parseResponseHeader, hdecode, Option.filter_none, ← htype, ← hquery]
    by_cases ht : header.messageType = .response
    · by_cases hq : header.opCode = .query
      · simp only [ht, hq, hresult, ne_eq, not_true_eq_false, if_false, true_and, bind, Except.bind]
        cases result with
        | error e => simp [pure, Except.pure]
        | ok extended => simp [pure, Except.pure]
      · simp [ht, hq, pure, Except.pure]
    · simp [ht, pure, Except.pure]

theorem conforms_iff {decode : HeaderDecoder} (hd : ReadsHeaders decode) {response : Bytes} {q : Rfc1035.Question} :
    Conforms q response ↔ (∃ header, parseResponseHeader decode response none = .ok (.ok header)) ∧
      questionBytes response = some (Rfc1035.question.write q) := by
  rw [parseResponseHeader_ok_iff hd, questionBytes_eq_iff]
  constructor
  · rintro ⟨hr, hq, ⟨header, rest, hlen, hcount, heq⟩, hbody⟩
    refine ⟨⟨hr, hq, ?_, hbody⟩, header, rest, hlen, hcount, heq⟩
    rw [heq, List.length_append]
    omega
  · rintro ⟨⟨hr, hq, -, hbody⟩, hquestion⟩
    exact ⟨hr, hq, hquestion, hbody⟩

/-! ## What is accepted -/

/-- What the client makes of a response to the query with the id `id`. -/
def Reads (decode : HeaderDecoder) (q : Rfc1035.Question) (id : UInt16) (response : Bytes) (r : DnsResponse) : Prop :=
  ∃ header, parseResponseHeader decode response none = .ok (.ok header) ∧
    questionBytes response = some (Rfc1035.question.write q) ∧
    r = { correlation := id, rcode := header.rcode, truncated := header.truncated, bytesIn := response.length }

theorem conforms_iff_reads {decode : HeaderDecoder} (hd : ReadsHeaders decode) {response : Bytes} {q : Rfc1035.Question}
    (id : UInt16) : Conforms q response ↔ ∃ r, Reads decode q id response r := by
  rw [conforms_iff hd]
  constructor
  · rintro ⟨⟨header, hparse⟩, hquestion⟩
    exact ⟨_, header, hparse, hquestion, rfl⟩
  · rintro ⟨r, header, hparse, hquestion, -⟩
    exact ⟨⟨header, hparse⟩, hquestion⟩

/-- The id of the query stands in front. -/
theorem Asks.cons (h : Asks packet id name qtype options) :
    ∃ hi lo rest, packet = hi :: lo :: rest ∧ u16FromBeBytes hi lo = id := by
  obtain ⟨m, hread, rfl, -⟩ := h
  have hpacket := Rfc1035.message.read_iff.mp hread
  rw [Rfc1035.write_message, List.append_nil] at hpacket
  refine ⟨_, _, _, hpacket, UInt16.toNat_inj.mp ?_⟩
  have hlt := m.id.toNat_lt
  rw [toNat_u16FromBeBytes, be16]
  show 256 * (UInt8.ofNat (m.id.toNat / 256)).toNat + (UInt8.ofNat (m.id.toNat % 256)).toNat = m.id.toNat
  rw [UInt8.toNat_ofNat', UInt8.toNat_ofNat']
  omega

theorem dohOutcome_ok_iff {decode : HeaderDecoder} (h : Asks packet id name qtype options) {status : Nat}
    (hstatus : 200 ≤ status ∧ status < 300) {response : Bytes} {r : DnsResponse} :
    dohOutcome decode packet status response = .ok (.ok r) ↔ Reads decode ⟨name, qtype, 1⟩ id response r := by
  obtain ⟨hi, lo, rest, rfl, hid⟩ := h.cons
  have h0 : index (hi :: lo :: rest) 0 = .ok hi := rfl
  have h1 : index (hi :: lo :: rest) 1 = .ok lo := rfl
  obtain ⟨result, hresult⟩ := parseResponseHeader_returns decode response none
  simp only [dohOutcome, hstatus.1, hstatus.2, and_self, not_true_eq_false, if_false, h0, h1, hid, hresult,
    responseQuestionMatches_eq, h.questionBytes_eq, bind, Except.bind, Reads]
  cases result with
  | error e => simp [pure, Except.pure]
  | ok header =>
    by_cases hq : questionBytes response = some (Rfc1035.question.write ⟨name, qtype, 1⟩)
    · simp [hq, pure, Except.pure, eq_comm]
    · simp [hq, pure, Except.pure]

theorem answer_ok_iff {decode : HeaderDecoder} (hd : DecodesHeader decode) {q : Rfc1035.Question} {rid : UInt16}
    {response : Bytes} (hid : txid response = some rid) {r : DnsResponse} :
    answer decode response (Rfc1035.question.write q) = some (.ok r) ↔ Reads decode q rid response r := by
  obtain ⟨result, hresult⟩ := parseResponseHeader_returns decode response none
  simp only [answer, hid, headerOf, parseResponseHeader_txid hd hid, hresult, Option.bind_some, Reads]
  cases result with
  | error e => simp
  | ok header =>
    by_cases hq : questionBytes response = some (Rfc1035.question.write q)
    · simp [hq, responseOf, eq_comm]
    · simp [hq, responseOf]

/-- `complete` stores the response in the slot of its id, and wakes who waits for it. -/
def Stores (decode : HeaderDecoder) (c : Correlator) (reg : Registered) (response : Bytes) (r : DnsResponse) : Prop :=
  ∃ c' slot, c.complete decode response = .ok (c', some reg.notify) ∧ c'.pending.find reg.id = some slot ∧
    slot.response = some (.ok r)

theorem stores_iff {decode : HeaderDecoder} (hd : DecodesHeader decode) (h : Asks packet id name qtype options)
    {c c' : Correlator} {reg : Registered} (hreg : c.register packet = some (.ok (reg, c'))) {response : Bytes}
    (hid : txid response = some reg.id) {r : DnsResponse} :
    Stores decode c' reg response r ↔ Reads decode ⟨name, qtype, 1⟩ reg.id response r := by
  obtain ⟨-, -, -, -, slot, hpending, hnotify, hresponse, hexpected⟩ := Correlator.register_spec hreg
  obtain ⟨b0, b1, rest, -, rfl, hwire, -⟩ := Correlator.register_inv hreg
  rw [hwire, questionBytes_patch _ _ b0 b1, h.questionBytes_eq, Option.getD_some] at hexpected
  have hfind : c'.pending.find reg.id = some slot := by rw [hpending, Pending.find_insert]
  rw [← answer_ok_iff hd hid, ← hexpected]
  rcases Correlator.complete_spec decode c' response with ⟨hc, hnone⟩ | ⟨id', slot', outcome, hid', hfind', ha, hc⟩
  · rw [hnone _ _ hid hfind]
    refine iff_of_false ?_ nofun
    rintro ⟨c'', slot', hc', -⟩
    cases hc.symm.trans hc'
  · cases hid.symm.trans hid'
    cases hfind.symm.trans hfind'
    rw [ha]
    constructor
    · rintro ⟨c'', slot', hc', hslot', hr⟩
      obtain ⟨rfl, -⟩ := Prod.mk.inj (Except.ok.inj (hc.symm.trans hc'))
      rw [Pending.find_insert] at hslot'
      cases hslot'
      exact hr
    · rintro ⟨⟩
      exact ⟨_, _, by rw [hc, hnotify], Pending.find_insert, rfl⟩

/-- A response to a query that was built is accepted exactly if it conforms: over Do53 and
DoT when it comes with the id that `register` gave the query, and over DoH whatever its
id. What the two report of it is the same. -/
theorem accepted_iff {decode : HeaderDecoder} {lib : MessageLib} (hd : ReadsHeaders decode) (hlib : lib.Documented)
    {qname : String} (hbuild : buildQuery lib id qname qtype options = .ok packet) {c c' : Correlator}
    {reg : Registered} (hreg : c.register packet = some (.ok (reg, c'))) {status : Nat}
    (hstatus : 200 ≤ status ∧ status < 300) (response : Bytes) :
    ∃ name, lib.fromAscii (absoluteName qname) = .ok name ∧
      (txid response = some reg.id → ((∃ r, Stores decode c' reg response r) ↔ Conforms ⟨name, qtype, 1⟩ response)) ∧
      ((∃ r, dohOutcome decode packet status response = .ok (.ok r)) ↔ Conforms ⟨name, qtype, 1⟩ response) ∧
      ∀ r r', txid response = some reg.id → Stores decode c' reg response r →
        dohOutcome decode packet status response = .ok (.ok r') →
          r = { r' with correlation := reg.id } ∧ r'.correlation = id := by
  rcases buildQuery_cases hlib id qtype qname options with ⟨name, packet', hname, -, hasks, hb⟩ | ⟨e, -, hb⟩
  · cases hb.symm.trans hbuild
    refine ⟨name, hname, fun hid => ?_, ?_, fun r r' hid hstores hdoh => ?_⟩
    · simp only [stores_iff hd.sound hasks hreg hid, ← conforms_iff_reads hd]
    · simp only [dohOutcome_ok_iff hasks hstatus, ← conforms_iff_reads hd]
    · obtain ⟨header, hparse, -, rfl⟩ := (stores_iff hd.sound hasks hreg hid).mp hstores
      obtain ⟨header', hparse', -, rfl⟩ := (dohOutcome_ok_iff hasks hstatus).mp hdoh
      cases hparse.symm.trans hparse'
      exact ⟨rfl, rfl⟩
  · cases hb.symm.trans hbuild

theorem rfc1035Header_reads : ReadsHeaders rfc1035Header := ⟨fun _ _ h => h, fun h _ => h⟩

/-- An empty answer to `queryAaaa`, of the code 3. -/
def replyAaaa : Bytes := [0, 0, 0x81, 0x83, 0, 1, 0, 0, 0, 0, 0, 0, 2, 97, 98, 0, 0, 28, 0, 1]

/-- `accepted_iff` for it, on a fresh connection. -/
theorem accepted_iff_aaaa : ∃ reg c' name r, Correlator.new.register queryAaaa = some (.ok (reg, c')) ∧
    plainName "ab." = .ok name ∧ Conforms ⟨name, 28, 1⟩ replyAaaa ∧ Stores rfc1035Header c' reg replyAaaa r ∧
      r.rcode = 3 := by
  have hbuild : buildQuery plainLib 0x1234 "ab" 28 [⟨65001, [0xab, 0xcd]⟩] = .ok queryAaaa := by decide +kernel
  have hid : ((Correlator.new.register queryAaaa).bind fun x => x.toOption.map fun y => y.1.id) = some 0 := by
    decide +kernel
  have hdoh : dohOutcome rfc1035Header queryAaaa 200 replyAaaa = .ok (.ok ⟨0x1234, 3, false, 20⟩) := by decide +kernel
  obtain ⟨x, hx, hreg⟩ := Option.bind_eq_some_iff.mp hid
  cases x with
  | error e => cases hreg
  | ok y =>
    obtain ⟨reg, c'⟩ := y
    obtain ⟨name, hname, hdo53, hdoh', hsame⟩ := accepted_iff rfc1035Header_reads plainLib_documented hbuild hx
      (show 200 ≤ 200 ∧ 200 < 300 by decide) replyAaaa
    have hconforms := hdoh'.mp ⟨_, hdoh⟩
    have htxid : txid replyAaaa = some reg.id := hreg.symm
    obtain ⟨r, hr⟩ := (hdo53 htxid).mpr hconforms
    obtain ⟨rfl, -⟩ := hsame r _ htxid hr hdoh
    exact ⟨reg, c', name, _, hx, hname, hconforms, hr, rfl⟩

end WireSurge.Dns
