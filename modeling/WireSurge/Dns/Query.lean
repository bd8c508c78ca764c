import WireSurge.Dns.Stream
import WireSurge.Engine.Plan
import WireSurge.Lib.Rfc1035

/-!
# Queries

`build_query` over the message library, which parses the name and writes the message
(`MessageLib`, a parameter). The library leaves out the OPT record of a message that
would be too long, without an error, and `build_query` looks for this in the packet.
So a packet comes out exactly if one fits that asks for what the caller asks, with
all the options in their order, and it is that packet (`buildQuery_reads`).
-/

namespace WireSurge.Dns

open Rfc1035 (Message Section optRecord optType readOptions readOptions_iff root writeOptions)
open WireSurge.Core (WireSurgeError)
open WireSurge.Engine (EdnsOption)

/-! ## The message library -/

/-- The `Message` that `build_query` puts together: a query for one name, with the
recursion bit, and an EDNS extension with its payload size and its options. -/
structure QueryMessage where
  id : UInt16
  name : Rfc1035.Name
  qtype : UInt16
  edns : Option (UInt16 × List EdnsOption)

/-- What `to_vec` gives begins with a header. -/
abbrev Packet := { bytes : Bytes // 12 ≤ bytes.length }

/-- The DNS message library. -/
structure MessageLib where
  /-- `Name::from_ascii`. -/
  fromAscii : String → Except String Rfc1035.Name
  /-- `Message::to_vec`. -/
  toVec : QueryMessage → Except String Packet

/-- `u16::from_be_bytes([packet[10], packet[11]])`. -/
def Packet.arcount (packet : Packet) : UInt16 :=
  u16FromBeBytes (packet.1.get ⟨10, by have := packet.2; omega⟩) (packet.1.get ⟨11, by have := packet.2; omega⟩)

/-! ## Building -/

/-- `MAX_EDNS_OPTION_PAYLOAD_LEN`. -/
def maxEdnsOptionPayloadLen : Nat := 65535 - 4

/-- The name with a dot at its end. -/
def absoluteName (qname : String) : String :=
  if qname.toList.getLast? = some '.' then qname else qname ++ "."

/-- `parse_dns_name`. -/
def parseDnsName (lib : MessageLib) (qname : String) : Except WireSurgeError Rfc1035.Name :=
  match lib.fromAscii (absoluteName qname) with
  | .ok name => .ok name
  | .error error => .error ((WireSurgeError.new "invalid_dns_name" error).atPath "qname")

/-- The error of an option that is too long. -/
def invalidEdnsPayload : WireSurgeError :=
  (WireSurgeError.new "invalid_edns_payload" "EDNS option payload exceeds 65531 bytes").atPath "edns_payload"

/-- The loop over the options, with those inserted so far. -/
def insertOptions : List EdnsOption → List EdnsOption → Except WireSurgeError (List EdnsOption)
  | inserted, [] => .ok inserted
  | inserted, option :: options =>
    if option.payload.length > maxEdnsOptionPayloadLen then .error invalidEdnsPayload
    else insertOptions (inserted ++ [option]) options

/-- The EDNS extension, if there is an option. -/
def extension (options : List EdnsOption) : Except WireSurgeError (Option (UInt16 × List EdnsOption)) :=
  if options.isEmpty then .ok none else (insertOptions [] options).map fun inserted => some (1232, inserted)

/-- The error of options for which the message has no room. -/
def ednsOptionDropped : WireSurgeError :=
  (WireSurgeError.new "edns_option_dropped"
    "EDNS option does not fit within the 65535-byte message limit for this query name").atPath "edns_payload"

/-- `build_query`; options that the library has left out for want of room are an error. -/
def buildQuery (lib : MessageLib) (transactionId : UInt16) (qname : String) (qtype : UInt16)
    (ednsOptions : List EdnsOption) : Except WireSurgeError Bytes := do
  let name ← parseDnsName lib qname
  let edns ← extension ednsOptions
  match lib.toVec { id := transactionId, name, qtype, edns } with
  | .error error => .error ((WireSurgeError.new "dns_encode_failed" error).atPath "qname")
  | .ok packet =>
    if packet.1.length > maxDnsMessageLen then
      .error (.new "dns_message_too_large" "DNS query exceeds the 65535-byte message limit")
    -- the library has left the OPT record out
    else if !ednsOptions.isEmpty && packet.arcount == 0 then .error ednsOptionDropped
    else .ok packet.1

/-! ## The layout of a query -/

/-- The options as an OPT record has them, if two bytes can count each and all of them. -/
def sizedOption (option : EdnsOption) : Option (UInt16 × Codec.Sized) :=
  if h : option.payload.length < 2 ^ 16 then some (option.code, ⟨option.payload, h⟩) else none

/-- The OPT record of the options, if they have the room. -/
def optOf (udpPayload : UInt16) (options : List EdnsOption) : Option Rfc1035.Record :=
  (options.mapM sizedOption).bind fun os =>
    if h : (writeOptions os).length < 2 ^ 16 then some (optRecord udpPayload ⟨os, h⟩) else none

/-- The additional section: an OPT record or nothing. -/
def additionalsOf : Option (UInt16 × List EdnsOption) → Option (Section Rfc1035.Record)
  | none => some ⟨[], by decide⟩
  | some (udpPayload, options) => (optOf udpPayload options).map fun opt => ⟨[opt], by simp⟩

/-- The message on the wire: a standard query that desires recursion, for a name in
class IN, and with an OPT record for the extension. -/
def QueryMessage.layout (m : QueryMessage) : Option Message :=
  (additionalsOf m.edns).map fun additionals => {
    id := m.id
    flags := 0x0100
    questions := ⟨[⟨m.name, m.qtype, 1⟩], by simp⟩
    answers := ⟨[], by decide⟩
    authorities := ⟨[], by decide⟩
    additionals }

/-- A message that fits is written as it is laid out; of one that does not, the OPT
record is left out. -/
structure MessageLib.Documented (lib : MessageLib) : Prop where
  fits {m : QueryMessage} {laid : Message} : m.layout = some laid →
    (Rfc1035.message.write laid).length ≤ maxDnsMessageLen →
      ∃ packet, lib.toVec m = .ok packet ∧ packet.1 = Rfc1035.message.write laid
  dropped {m : QueryMessage} :
    (∀ laid, m.layout = some laid → maxDnsMessageLen < (Rfc1035.message.write laid).length) →
      ∃ packet, lib.toVec m = .ok packet ∧ packet.1.length ≤ maxDnsMessageLen ∧ packet.arcount = 0

/-! ## What a packet asks -/

/-- The option as the caller gave it. -/
def optionOf (o : UInt16 × Codec.Sized) : EdnsOption := ⟨o.1, o.2.1⟩

/-- The additional section has no record when there is no option to send, or else an
OPT record, of which the data are the options. -/
def CarriesOptions (options : List EdnsOption) (additionals : List Rfc1035.Record) : Prop :=
  if options = [] then additionals = []
  else ∃ opt os, additionals = [opt] ∧ opt.name = root ∧ opt.rtype = optType ∧ opt.rclass = 1232 ∧ opt.ttl = 0 ∧
    readOptions opt.rdata.1 = some os ∧ os.map optionOf = options

/-- All of the packet reads as one standard query that desires recursion, with one
question, in class IN, and the options. -/
def Asks (packet : Bytes) (id : UInt16) (name : Rfc1035.Name) (qtype : UInt16) (options : List EdnsOption) : Prop :=
  ∃ m : Message, Rfc1035.message.read packet = some (m, []) ∧ m.id = id ∧ m.flags = 0x0100 ∧
    m.questions.1 = [⟨name, qtype, 1⟩] ∧ m.answers.1 = [] ∧ m.authorities.1 = [] ∧
    CarriesOptions options m.additionals.1

theorem mapM_sizedOption {options : List EdnsOption} {os : List (UInt16 × Codec.Sized)} :
    options.mapM sizedOption = some os ↔ os.map optionOf = options := by
  have hone {option : EdnsOption} {o : UInt16 × Codec.Sized} : sizedOption option = some o ↔ optionOf o = option := by
    obtain ⟨code, payload⟩ := option
    obtain ⟨code', payload', h'⟩ := o
    rw [sizedOption]
    split
    · simp [optionOf, eq_comm]
    · rename_i h
      refine iff_of_false nofun fun heq => ?_
      cases heq
      exact h h'
  induction options generalizing os with
  | nil => cases os <;> simp
  | cons option options ih =>
    cases os with
    | nil => simp [List.mapM_cons, Option.bind_eq_some_iff]
    | cons o os => simp [List.mapM_cons, Option.bind_eq_some_iff, hone, ih]

theorem carriesOptions_iff {options : List EdnsOption} {additionals : Section Rfc1035.Record} :
    additionalsOf (if options = [] then none else some (1232, options)) = some additionals ↔
      CarriesOptions options additionals.1 := by
  obtain ⟨additionals, hlen⟩ := additionals
  rw [CarriesOptions]
  split
  · simp [additionalsOf, eq_comm]
  · simp only [additionalsOf, optOf, Option.map_eq_some_iff, Option.bind_eq_some_iff, mapM_sizedOption,
      Subtype.mk.injEq]
    constructor
    · rintro ⟨opt, ⟨os, hos, hopt⟩, rfl⟩
      split at hopt
      · cases hopt
        exact ⟨_, os, rfl, rfl, rfl, rfl, rfl, readOptions_iff.mpr rfl, hos⟩
      · cases hopt
    · rintro ⟨⟨name, rtype, rclass, ttl, rdata, hrdata⟩, os, rfl, hname, htype, hclass, httl, hread, hos⟩
      obtain rfl : rdata = writeOptions os := readOptions_iff.mp hread
      cases hname
      cases htype
      cases hclass
      cases httl
      exact ⟨_, ⟨os, hos, dif_pos hrdata⟩, rfl⟩

/-- The message as it goes into `to_vec`. -/
def queryMessage (id : UInt16) (name : Rfc1035.Name) (qtype : UInt16) (options : List EdnsOption) : QueryMessage :=
  { id, name, qtype, edns := if options = [] then none else some (1232, options) }

/-- A packet asks so exactly if it is the layout of the message. -/
theorem asks_iff {packet : Bytes} {id qtype : UInt16} {name : Rfc1035.Name} {options : List EdnsOption} :
    Asks packet id name qtype options ↔ ∃ laid, (queryMessage id name qtype options).layout = some laid ∧
      packet = Rfc1035.message.write laid := by
  simp only [QueryMessage.layout, queryMessage, Option.map_eq_some_iff, carriesOptions_iff, Asks,
    Rfc1035.message.read_iff, List.append_nil]
  constructor
  · rintro ⟨⟨id', flags, ⟨questions, hq⟩, ⟨answers, ha⟩, ⟨authorities, hn⟩, additionals⟩, rfl, rfl, hflags, hqs, has,
      hns, hopts⟩
    cases hflags
    cases hqs
    cases has
    cases hns
    exact ⟨_, ⟨additionals, hopts, rfl⟩, rfl⟩
  · rintro ⟨_, ⟨additionals, hopts, rfl⟩, rfl⟩
    exact ⟨_, rfl, rfl, rfl, rfl, rfl, rfl, hopts⟩

/-! ## What is built -/

theorem insertOptions_eq (inserted options : List EdnsOption) : insertOptions inserted options =
    if ∀ o ∈ options, o.payload.length ≤ maxEdnsOptionPayloadLen then .ok (inserted ++ options)
    else .error invalidEdnsPayload := by
  induction options generalizing inserted with
  | nil => simp [insertOptions]
  | cons option options ih =>
    rw [insertOptions, ih]
    by_cases h : option.payload.length ≤ maxEdnsOptionPayloadLen
    · rw [if_neg (not_lt.mpr h)]
      simp [h]
    · rw [if_pos (not_le.mp h), if_neg fun hall => h (hall option List.mem_cons_self)]

theorem extension_eq (options : List EdnsOption) : extension options =
    if ∀ o ∈ options, o.payload.length ≤ maxEdnsOptionPayloadLen then
      .ok (if options = [] then none else some (1232, options))
    else .error invalidEdnsPayload := by
  cases options with
  | nil => simp [extension]
  | cons option options =>
    rw [extension, insertOptions_eq, List.isEmpty_cons, if_neg Bool.false_ne_true,
      if_neg (List.cons_ne_nil option options)]
    split <;> rfl

/-- The count of additional records stands in the header. -/
theorem arcount_of_write {packet : Packet} {m : Message} (h : packet.1 = Rfc1035.message.write m) :
    packet.arcount.toNat = m.additionals.1.length := by
  obtain ⟨bytes, hlen⟩ := packet
  obtain rfl : bytes = _ := h
  have hlt := m.additionals.2
  show (u16FromBeBytes (UInt8.ofNat ((UInt16.ofNat m.additionals.1.length).toNat / 256))
    (UInt8.ofNat ((UInt16.ofNat m.additionals.1.length).toNat % 256))).toNat = _
  rw [toNat_u16FromBeBytes, be16, UInt8.toNat_ofNat', UInt8.toNat_ofNat', UInt16.toNat_ofNat']
  omega

theorem arcount_of_layout {id qtype : UInt16} {name : Rfc1035.Name} {options : List EdnsOption} {laid : Message}
    {packet : Packet} (h : (queryMessage id name qtype options).layout = some laid) (hne : options ≠ [])
    (hp : packet.1 = Rfc1035.message.write laid) : packet.arcount.toNat = 1 := by
  obtain ⟨additionals, hopts, rfl⟩ := Option.map_eq_some_iff.mp h
  have hcarries := carriesOptions_iff.mp hopts
  rw [CarriesOptions, if_neg hne] at hcarries
  obtain ⟨opt, -, hone, -⟩ := hcarries
  rw [arcount_of_write hp]
  show additionals.1.length = 1
  rw [hone, List.length_singleton]

/-- An option that is in a packet is within the bound on its payload. -/
theorem payload_le_of_layout {id qtype : UInt16} {name : Rfc1035.Name} {options : List EdnsOption} {laid : Message}
    (h : (queryMessage id name qtype options).layout = some laid) :
    ∀ o ∈ options, o.payload.length ≤ maxEdnsOptionPayloadLen := by
  obtain ⟨additionals, hopts, -⟩ := Option.map_eq_some_iff.mp h
  have hcarries := carriesOptions_iff.mp hopts
  intro o ho
  rw [CarriesOptions, if_neg (List.ne_nil_of_mem ho)] at hcarries
  obtain ⟨opt, os, -, -, -, -, -, hread, rfl⟩ := hcarries
  obtain ⟨x, hx, rfl⟩ := List.mem_map.mp ho
  have hle := Rfc1035.length_le_writeOptions hx
  rw [← readOptions_iff.mp hread] at hle
  have hdata := opt.rdata.2
  show x.2.1.length ≤ 65535 - 4
  omega

/-- Without an option the packet has the question only, which is short. -/
theorem layout_of_no_option (id qtype : UInt16) (name : Rfc1035.Name) :
    ∃ laid, (queryMessage id name qtype []).layout = some laid ∧
      (Rfc1035.message.write laid).length ≤ maxDnsMessageLen := by
  refine ⟨_, rfl, ?_⟩
  have hname : (Rfc1035.labels.write (queryMessage id name qtype []).name.1).length ≤ 255 := name.2
  rw [Rfc1035.write_message]
  simp only [List.length_append, List.flatMap_cons, List.flatMap_nil, List.length_nil, Rfc1035.length_write_question]
  show 12 + _ ≤ 65535
  omega

variable {lib : MessageLib} {id qtype : UInt16} {qname : String} {options : List EdnsOption}

/-- The packet that fits, or the error that stands for the OPT record left out. -/
theorem buildQuery_of_name (hlib : lib.Documented) {name : Rfc1035.Name}
    (hname : lib.fromAscii (absoluteName qname) = .ok name)
    (hpayload : ∀ o ∈ options, o.payload.length ≤ maxEdnsOptionPayloadLen) :
    (∃ laid, (queryMessage id name qtype options).layout = some laid ∧
      (Rfc1035.message.write laid).length ≤ maxDnsMessageLen ∧
      buildQuery lib id qname qtype options = .ok (Rfc1035.message.write laid)) ∨
    ((∀ laid, (queryMessage id name qtype options).layout = some laid →
      maxDnsMessageLen < (Rfc1035.message.write laid).length) ∧
      buildQuery lib id qname qtype options = .error ednsOptionDropped) := by
  have hedns : extension options = .ok (if options = [] then none else some (1232, options)) := by
    rw [extension_eq, if_pos hpayload]
  have hbuild : buildQuery lib id qname qtype options = match lib.toVec (queryMessage id name qtype options) with
      | .error error => .error ((WireSurgeError.new "dns_encode_failed" error).atPath "qname")
      | .ok packet =>
        if packet.1.length > maxDnsMessageLen then
          .error (.new "dns_message_too_large" "DNS query exceeds the 65535-byte message limit")
        else if !options.isEmpty && packet.arcount == 0 then .error ednsOptionDropped
        else .ok packet.1 := by
    simp only [buildQuery, parseDnsName, hname, hedns, bind, Except.bind]
    rfl
  by_cases hfits : ∃ laid, (queryMessage id name qtype options).layout = some laid ∧
      (Rfc1035.message.write laid).length ≤ maxDnsMessageLen
  · obtain ⟨laid, hlaid, hle⟩ := hfits
    obtain ⟨packet, hpacket, hwrite⟩ := hlib.fits hlaid hle
    refine .inl ⟨laid, hlaid, hle, ?_⟩
    have hkept : (!options.isEmpty && packet.arcount == 0) = false := by
      cases options with
      | nil => rfl
      | cons option options =>
        have hone := arcount_of_layout hlaid (List.cons_ne_nil option options) hwrite
        rw [List.isEmpty_cons, Bool.not_false, Bool.true_and, beq_eq_false_iff_ne]
        rintro hzero
        rw [hzero] at hone
        cases hone
    rw [hbuild, hpacket]
    simp only [hwrite, hkept]
    rw [if_neg (not_lt.mpr hle)]
    rfl
  · have hlong : ∀ laid, (queryMessage id name qtype options).layout = some laid →
        maxDnsMessageLen < (Rfc1035.message.write laid).length :=
      fun laid hlaid => not_le.mp fun hle => hfits ⟨laid, hlaid, hle⟩
    obtain ⟨packet, hpacket, hle, hcount⟩ := hlib.dropped hlong
    refine .inr ⟨hlong, ?_⟩
    have hsome : options ≠ [] := by
      rintro rfl
      exact hfits (layout_of_no_option id qtype name)
    rw [hbuild, hpacket]
    simp only [hcount]
    rw [if_neg (not_lt.mpr hle)]
    simp [hsome]

/-- Why there is no query. -/
inductive Refused (lib : MessageLib) (id : UInt16) (qname : String) (qtype : UInt16) (options : List EdnsOption) :
    WireSurgeError → Prop
  | name {error : String} : lib.fromAscii (absoluteName qname) = .error error →
      Refused lib id qname qtype options ((WireSurgeError.new "invalid_dns_name" error).atPath "qname")
  | payload {name : Rfc1035.Name} {option : EdnsOption} : lib.fromAscii (absoluteName qname) = .ok name →
      option ∈ options → maxEdnsOptionPayloadLen < option.payload.length →
      Refused lib id qname qtype options invalidEdnsPayload
  | tooLong {name : Rfc1035.Name} : lib.fromAscii (absoluteName qname) = .ok name →
      (∀ option ∈ options, option.payload.length ≤ maxEdnsOptionPayloadLen) →
      (∀ packet, Asks packet id name qtype options → maxDnsMessageLen < packet.length) →
      Refused lib id qname qtype options ednsOptionDropped

namespace Refused

variable {name : Rfc1035.Name} {error error' : WireSurgeError}

/-- There is no packet then. -/
theorem excludes (h : Refused lib id qname qtype options error) (hname : lib.fromAscii (absoluteName qname) = .ok name)
    {packet : Bytes} (hasks : Asks packet id name qtype options) : maxDnsMessageLen < packet.length := by
  rcases h with h | ⟨-, hmem, hgt⟩ | ⟨h, -, hlong⟩
  · cases hname.symm.trans h
  · obtain ⟨laid, hlaid, -⟩ := asks_iff.mp hasks
    exact absurd (payload_le_of_layout hlaid _ hmem) (not_le.mpr hgt)
  · cases hname.symm.trans h
    exact hlong packet hasks

theorem unique (h : Refused lib id qname qtype options error) (h' : Refused lib id qname qtype options error') :
    error = error' := by
  rcases h with h | ⟨h, hmem, hgt⟩ | ⟨h, hall, -⟩ <;> rcases h' with h' | ⟨h', hmem', hgt'⟩ | ⟨h', hall', -⟩
  · cases h.symm.trans h'
    rfl
  · cases h.symm.trans h'
  · cases h.symm.trans h'
  · cases h.symm.trans h'
  · rfl
  · exact absurd (hall' _ hmem) (not_le.mpr hgt)
  · cases h.symm.trans h'
  · exact absurd (hall _ hmem') (not_le.mpr hgt')
  · rfl

end Refused

theorem buildQuery_cases (hlib : lib.Documented) (id qtype : UInt16) (qname : String) (options : List EdnsOption) :
    (∃ name packet, lib.fromAscii (absoluteName qname) = .ok name ∧ packet.length ≤ maxDnsMessageLen ∧
      Asks packet id name qtype options ∧ buildQuery lib id qname qtype options = .ok packet) ∨
    ∃ error, Refused lib id qname qtype options error ∧ buildQuery lib id qname qtype options = .error error := by
  cases hname : lib.fromAscii (absoluteName qname) with
  | error text =>
    refine .inr ⟨_, .name hname, ?_⟩
    simp only [buildQuery, parseDnsName, hname]
    rfl
  | ok name =>
    by_cases hpayload : ∀ o ∈ options, o.payload.length ≤ maxEdnsOptionPayloadLen
    · rcases buildQuery_of_name hlib hname hpayload with ⟨laid, hlaid, hle, hbuild⟩ | ⟨hlong, hbuild⟩
      · exact .inl ⟨name, _, rfl, hle, asks_iff.mpr ⟨laid, hlaid, rfl⟩, hbuild⟩
      · refine .inr ⟨_, .tooLong hname hpayload fun packet hasks => ?_, hbuild⟩
        obtain ⟨laid, hlaid, rfl⟩ := asks_iff.mp hasks
        exact hlong laid hlaid
    · have hgt := hpayload
      simp only [not_forall, not_le, exists_prop] at hgt
      obtain ⟨option, hmem, hgt⟩ := hgt
      refine .inr ⟨_, .payload hname hmem hgt, ?_⟩
      simp only [buildQuery, parseDnsName, hname, extension_eq, if_neg hpayload]
      rfl

theorem Asks.unique {name : Rfc1035.Name} {packet packet' : Bytes} (h : Asks packet id name qtype options)
    (h' : Asks packet' id name qtype options) : packet = packet' := by
  obtain ⟨laid, hlaid, rfl⟩ := asks_iff.mp h
  obtain ⟨laid', hlaid', rfl⟩ := asks_iff.mp h'
  cases hlaid.symm.trans hlaid'
  rfl

/-- `build_query` answers with a packet exactly if it fits and reads, all of it, as the
query asked for, with every option in its place; and otherwise with the error of the
name, of a payload, or of options that do not fit. -/
theorem buildQuery_reads (hlib : lib.Documented) (id qtype : UInt16) (qname : String) (options : List EdnsOption) :
    (∀ packet, buildQuery lib id qname qtype options = .ok packet ↔
      ∃ name, lib.fromAscii (absoluteName qname) = .ok name ∧ packet.length ≤ maxDnsMessageLen ∧
        Asks packet id name qtype options) ∧
    ∀ error, buildQuery lib id qname qtype options = .error error ↔ Refused lib id qname qtype options error := by
  rcases buildQuery_cases hlib id qtype qname options with
    ⟨name, packet, hname, hle, hasks, hbuild⟩ | ⟨error, hr, hbuild⟩
  · rw [hbuild]
    refine ⟨fun packet' => ⟨?_, ?_⟩, fun error => iff_of_false nofun fun hr => ?_⟩
    · rintro ⟨⟩
      exact ⟨name, hname, hle, hasks⟩
    · rintro ⟨name', hname', -, hasks'⟩
      cases hname.symm.trans hname'
      rw [hasks.unique hasks']
    · exact absurd (hr.excludes hname hasks) (not_lt.mpr hle)
  · rw [hbuild]
    refine ⟨fun packet => iff_of_false nofun ?_, fun error' => ⟨?_, fun hr' => congrArg _ (hr.unique hr')⟩⟩
    · rintro ⟨name, hname, hle, hasks⟩
      exact absurd (hr.excludes hname hasks) (not_lt.mpr hle)
    · rintro ⟨⟩
      exact hr

/-! ## A plain message library -/

/-- The labels between the dots; an absolute name ends in one. -/
def plainName (text : String) : Except String Rfc1035.Name :=
  let parts := (text.toList.splitOn '.').dropLast
  match parts.mapM fun part =>
      let bytes := part.map fun c => UInt8.ofNat c.toNat
      if h : 1 ≤ bytes.length ∧ bytes.length ≤ 63 then some (⟨bytes, h⟩ : Rfc1035.Label) else none with
  | none => .error "label"
  | some ls => if h : (Rfc1035.labels.write ls).length ≤ 255 then .ok ⟨ls, h⟩ else .error "name too long"

theorem header_le (m : Message) : 12 ≤ (Rfc1035.message.write m).length := by
  rw [Rfc1035.write_message, List.length_append]
  exact Nat.le_add_right 12 _

/-- A message as bytes. -/
def packetOf (m : Message) : Packet := ⟨Rfc1035.message.write m, header_le m⟩

/-- The message without its extension. -/
def QueryMessage.bare (m : QueryMessage) : Message where
  id := m.id
  flags := 0x0100
  questions := ⟨[⟨m.name, m.qtype, 1⟩], by simp⟩
  answers := ⟨[], by decide⟩
  authorities := ⟨[], by decide⟩
  additionals := ⟨[], by decide⟩

/-- A message library that does what is documented. -/
def plainLib : MessageLib where
  fromAscii := plainName
  toVec m :=
    match m.layout.filter fun laid => (Rfc1035.message.write laid).length ≤ maxDnsMessageLen with
    | some laid => .ok (packetOf laid)
    | none => .ok (packetOf m.bare)

theorem plainLib_documented : plainLib.Documented where
  fits {m laid} hlaid hle := by
    refine ⟨packetOf laid, ?_, rfl⟩
    simp only [plainLib, hlaid, Option.filter_some, hle, decide_true, if_true]
  dropped {m} hlong := by
    have hnone : m.layout.filter (fun laid => (Rfc1035.message.write laid).length ≤ maxDnsMessageLen) = none := by
      rw [Option.filter_eq_none_iff]
      exact fun laid hlaid => by simpa using hlong laid hlaid
    refine ⟨packetOf m.bare, by simp only [plainLib, hnone], ?_, ?_⟩
    · obtain ⟨_, ⟨⟩, hle⟩ := layout_of_no_option m.id m.qtype m.name
      exact hle
    · exact UInt16.toNat_inj.mp (arcount_of_write (show (packetOf m.bare).1 = Rfc1035.message.write m.bare from rfl))

/-- A query for the type AAAA of `ab.`, with one option of two bytes. -/
def queryAaaa : Bytes :=
  [0x12, 0x34, 1, 0, 0, 1, 0, 0, 0, 0, 0, 1, 2, 97, 98, 0, 0, 28, 0, 1,
    0, 0, 41, 4, 208, 0, 0, 0, 0, 0, 6, 0xfd, 0xe9, 0, 2, 0xab, 0xcd]

/-- `buildQuery_reads` for it. -/
theorem buildQuery_reads_aaaa :
    ∃ name, plainName "ab." = .ok name ∧ Asks queryAaaa 0x1234 name 28 [⟨65001, [0xab, 0xcd]⟩] := by
  have hbuild : buildQuery plainLib 0x1234 "ab" 28 [⟨65001, [0xab, 0xcd]⟩] = .ok queryAaaa := by decide +kernel
  obtain ⟨name, hname, -, hasks⟩ := ((buildQuery_reads plainLib_documented 0x1234 28 "ab" _).1 queryAaaa).mp hbuild
  exact ⟨name, hname, hasks⟩

end WireSurge.Dns
