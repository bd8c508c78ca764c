import WireSurge.Core.Error
import WireSurge.Lib.Checked

/-!
# DNS messages

What the client reads of a message on the wire: the header, by the message
library's decoder (`HeaderDecoder`, a parameter), the walk over the records
behind it for the extended RCODE (`optExtendedRcode`), and the range of the
question (`questionRange`) that ties a reply to its query. Positions are
`usize` in the source and natural numbers here: none of them gets beyond the
length of the message by more than a few bytes.
-/

namespace WireSurge.Dns

open WireSurge.Core (WireSurgeError)
open Checked (Checked index range?)

abbrev Bytes := List UInt8

/-- `u16::from_be_bytes`. -/
def u16FromBeBytes (hi lo : UInt8) : UInt16 := hi.toUInt16 <<< 8 ||| lo.toUInt16

/-- The big-endian word at `i`, by two indexed reads. -/
def readU16 (msg : Bytes) (i : Nat) : Checked UInt16 := do
  let hi ← index msg i
  let lo ← index msg (i + 1)
  return u16FromBeBytes hi lo

/-! ## Names -/

/-- RFC 1035 label walk; a compression pointer occupies 2 bytes. The position
after a pointer may be one past the end of the message. -/
def skipName (msg : Bytes) (pos : Nat) : Option Nat :=
  match _h : msg[pos]? with
  | none => none
  | some len =>
    if len &&& 0xC0 = 0xC0 then some (pos + 2)
    else if len &&& 0xC0 = 0 then
      if len = 0 then some (pos + 1)
      else if pos + (1 + len.toNat) > msg.length then none
      else skipName msg (pos + (1 + len.toNat))
    else none
termination_by msg.length - pos
decreasing_by
  have := (List.getElem?_eq_some_iff.mp _h).1
  omega

/-- `walk_uncompressed_name`: the place behind the name at `pos`, with no pointer in it. -/
def walkUncompressedName (msg : Bytes) (pos : Nat) : Option Nat :=
  match _h : msg[pos]? with
  | none => none
  | some len =>
    if len &&& 0xC0 ≠ 0 then none
    else if len = 0 then some (pos + 1)
    else if pos + (1 + len.toNat) > msg.length then none
    else walkUncompressedName msg (pos + (1 + len.toNat))
termination_by msg.length - pos
decreasing_by
  have := (List.getElem?_eq_some_iff.mp _h).1
  omega

/-! ## The extended RCODE -/

/-- The text of the error where a message is cut off. -/
def invalidBody : String := "malformed DNS response body"

/-- The loop over the questions: the position after `qd` of them. -/
def skipQuestions (msg : Bytes) : Nat → Nat → Option Nat
  | 0, pos => some pos
  | qd + 1, pos =>
    match skipName msg pos with
    | none => none
    | some pos => if pos + 4 > msg.length then none else skipQuestions msg qd (pos + 4)

/-- What a record's fixed bytes make of `extended`: those of type 41 (OPT) put
the top byte of their TTL there. -/
def optTtlTop (rest : Bytes) (extended : Option UInt8) : Checked (Option UInt8) := do
  let rtype ← readU16 rest 0
  if rtype = 41 then
    let top ← index rest 4
    return some top
  else return extended

/-- The loop over the records. -/
def scanRecords (msg : Bytes) : Nat → Nat → Option UInt8 → Checked (Except String (Option UInt8))
  | 0, _, extended => return .ok extended
  | n + 1, pos, extended =>
    match skipName msg pos with
    | none => return .error invalidBody
    | some pos =>
      match range? msg pos (pos + 10) with
      | none => return .error invalidBody
      | some rest => do
        let extended ← optTtlTop rest extended
        let rdlen ← readU16 rest 8
        if pos + (10 + rdlen.toNat) > msg.length then return .error invalidBody
        else scanRecords msg n (pos + (10 + rdlen.toNat)) extended

/-- `opt_extended_rcode`: the upper bits of the RCODE, where there is an OPT record. -/
def optExtendedRcode (msg : Bytes) : Checked (Except String (Option UInt8)) := do
  if msg.length < 12 then return .error invalidBody
  else
    let qd ← readU16 msg 4
    let an ← readU16 msg 6
    let ns ← readU16 msg 8
    let ar ← readU16 msg 10
    match skipQuestions msg qd.toNat 12 with
    | none => return .error invalidBody
    | some pos => scanRecords msg (an.toNat + ns.toNat + ar.toNat) pos none

/-! ## The header -/

/-- The decoder's message types. -/
inductive MessageType
  | query
  | response
  deriving DecidableEq, Repr

/-- The decoder's opcodes. -/
inductive OpCode
  | query
  | status
  | notify
  | update
  | unknown (code : UInt8)
  deriving DecidableEq, Repr

/-- The fields the client reads of the header the message library decodes. -/
structure Header where
  id : UInt16
  messageType : MessageType
  opCode : OpCode
  truncation : Bool
  responseCode : UInt16
  deriving DecidableEq, Repr

/-- `Header::from_bytes` of the message library. -/
abbrev HeaderDecoder := Bytes → Except String Header

/-- `ResponseHeader`. -/
structure ResponseHeader where
  rcode : UInt16
  truncated : Bool
  deriving DecidableEq, Repr

/-- Validate a response header. `expectedId` is the transaction id on the
transports that correlate by it, and `none` on DoH. -/
def parseResponseHeader (decode : HeaderDecoder) (response : Bytes) (expectedId : Option UInt16) :
    Checked (Except WireSurgeError ResponseHeader) :=
  match decode response with
  | .error error => return .error ((WireSurgeError.new "invalid_dns_response" error).withRetryable false)
  | .ok header =>
    match expectedId.filter (· ≠ header.id) with
    | some expected =>
      return .error (.new "dns_id_mismatch"
        ("expected transaction ID " ++ toString expected ++ ", received " ++ toString header.id))
    | none =>
      if header.messageType ≠ .response then
        return .error (.new "invalid_dns_response" "DNS packet does not have the response bit set")
      else if header.opCode ≠ .query then
        return .error (.new "invalid_dns_response" "DNS response has an unexpected opcode")
      else do
        match ← optExtendedRcode response with
        | .error error => return .error ((WireSurgeError.new "invalid_dns_response" error).withRetryable false)
        | .ok extended =>
          return .ok {
            rcode := header.responseCode ||| ((extended.getD 0).toUInt16 <<< 4)
            truncated := header.truncation }

/-- The header as RFC 1035 lays it out, the decoder the examples run with. -/
def rfc1035Header : HeaderDecoder := fun msg =>
  match msg with
  | b0 :: b1 :: b2 :: b3 :: _ :: _ :: _ :: _ :: _ :: _ :: _ :: _ :: _ =>
    .ok {
      id := u16FromBeBytes b0 b1
      messageType := if b2 &&& 0x80 = 0 then .query else .response
      opCode := match (b2 >>> 3) &&& 0x0F with
        | 0 => .query
        | 2 => .status
        | 4 => .notify
        | 5 => .update
        | code => .unknown code
      truncation := b2 &&& 0x02 ≠ 0
      responseCode := (b3 &&& 0x0F).toUInt16 }
  | _ => .error "unexpected end of input"

/-! ## The question -/

/-- Question section byte range when `qdcount == 1` and the name is
uncompressed. -/
def questionRange (msg : Bytes) : Checked (Option (Nat × Nat)) := do
  if msg.length < 12 then return none
  else
    let qd ← readU16 msg 4
    if qd ≠ 1 then return none
    else
      match walkUncompressedName msg 12 with
      | none => return none
      | some e => return if e + 4 ≤ msg.length then some (12, e + 4) else none

/-- `response_question_matches`: the question sections are the same bytes. -/
def responseQuestionMatches (response query : Bytes) : Checked Bool := do
  match ← questionRange response with
  | none => return false
  | some rq =>
    match ← questionRange query with
    | none => return false
    | some qq => return range? response rq.1 rq.2 == range? query qq.1 qq.2

/-- The question section is the one that the slot has kept. -/
def questionMatchesResponse (response expected : Bytes) : Checked Bool := do
  match ← questionRange response with
  | none => return false
  | some range => return range? response range.1 range.2 == some expected

end WireSurge.Dns
