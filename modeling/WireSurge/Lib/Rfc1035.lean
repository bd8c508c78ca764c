import WireSurge.Lib.Codec

/-!
# DNS messages

The format of a message as RFC 1035 lays it out, without compression of names, as a
`Codec`: names with their bounds, questions, records, and the four sections behind a
header that counts them (`message`). The options of an OPT record (RFC 6891) are the
whole of its data (`readOptions`).
-/

namespace Rfc1035

open Codec (Sized byte u16 u32 raw sized)

/-! ## Names -/

/-- The bytes of a label: from 1 to 63. -/
abbrev Label := { label : List UInt8 // 1 ≤ label.length ∧ label.length ≤ 63 }

/-- The byte in front of a label, or for the root. -/
def lengthByte (l : Option Label) : UInt8 := UInt8.ofNat (l.elim 0 fun l => l.1.length)

theorem toNat_lengthByte (l : Label) : (lengthByte (some l)).toNat = l.1.length := by
  have hl := l.2.2
  show (UInt8.ofNat l.1.length).toNat = _
  rw [UInt8.toNat_ofNat']
  omega

/-- A label behind its length, or the zero of the root. -/
def label : Codec (Option Label) :=
  byte.behind lengthByte fun n => (raw n.toNat).as
    (fun bytes =>
      if h0 : n.toNat = 0 then some ⟨none, by rw [← UInt8.toNat_inj, h0]; rfl⟩
      else if h63 : n.toNat ≤ 63 then
        have hl : 1 ≤ bytes.1.length ∧ bytes.1.length ≤ 63 := by rw [bytes.2]; omega
        some ⟨some ⟨bytes.1, hl⟩, by rw [← UInt8.toNat_inj, toNat_lengthByte, bytes.2]⟩
      else none)
    (fun
      | ⟨none, h⟩ => ⟨[], by rw [← h]; rfl⟩
      | ⟨some l, h⟩ => ⟨l.1, by rw [← h, toNat_lengthByte]⟩)
    fun {bytes o} => by
      obtain ⟨bytes, hb⟩ := bytes
      obtain ⟨o, rfl⟩ := o
      cases o with
      | none =>
        have hnil : bytes = [] := List.length_eq_zero_iff.mp hb
        subst hnil
        simp [show (lengthByte none).toNat = 0 from rfl]
      | some l =>
        have h := toNat_lengthByte l
        have hl := l.2
        rw [dif_neg (by omega), dif_pos (by omega)]
        simp [Subtype.ext_iff]

theorem label_ne_nil (o : Option Label) : label.write o ≠ [] := nofun

/-- Labels up to the empty one. -/
def labels : Codec (List Label) := label.upTo label_ne_nil

theorem write_labels_nil : labels.write [] = [0] := rfl

theorem write_labels_cons (l : Label) (ls : List Label) :
    labels.write (l :: ls) = lengthByte (some l) :: (l.1 ++ labels.write ls) :=
  Codec.writeUpTo_cons label l ls

/-- The labels of a name, which has at most 255 bytes. -/
abbrev Name := { ls : List Label // (labels.write ls).length ≤ 255 }

/-- A name of at most 255 bytes. -/
def name : Codec Name := labels.only _

/-- The name without labels. -/
def root : Name := ⟨[], by decide⟩

/-! ## Questions and records -/

/-- What is asked. -/
structure Question where
  name : Name
  qtype : UInt16
  qclass : UInt16

/-- A question: its name, type and class. -/
def question : Codec Question :=
  (name.pair (u16.pair u16)).as (fun (name, qtype, qclass) => some ⟨name, qtype, qclass⟩)
    (fun q => (q.name, q.qtype, q.qclass)) fun {x q} => by
    obtain ⟨name, qtype, qclass⟩ := x
    obtain ⟨name', qtype', qclass'⟩ := q
    simp

/-- A resource record. -/
structure Record where
  name : Name
  rtype : UInt16
  rclass : UInt16
  ttl : UInt32
  rdata : Sized

/-- A record, its data behind their length. -/
def record : Codec Record :=
  (name.pair (u16.pair (u16.pair (u32.pair sized)))).as
    (fun (name, rtype, rclass, ttl, rdata) => some ⟨name, rtype, rclass, ttl, rdata⟩)
    (fun r => (r.name, r.rtype, r.rclass, r.ttl, r.rdata)) fun {x r} => by
    obtain ⟨name, rtype, rclass, ttl, rdata⟩ := x
    obtain ⟨name', rtype', rclass', ttl', rdata'⟩ := r
    simp

/-! ## Messages -/

/-- The twelve bytes in front of a message. -/
structure Header where
  id : UInt16
  flags : UInt16
  qdcount : UInt16
  ancount : UInt16
  nscount : UInt16
  arcount : UInt16

/-- A header: six numbers. -/
def header : Codec Header :=
  (u16.pair (u16.pair (u16.pair (u16.pair (u16.pair u16))))).as
    (fun (id, flags, qd, an, ns, ar) => some ⟨id, flags, qd, an, ns, ar⟩)
    (fun h => (h.id, h.flags, h.qdcount, h.ancount, h.nscount, h.arcount)) fun {x h} => by
    obtain ⟨id, flags, qd, an, ns, ar⟩ := x
    obtain ⟨id', flags', qd', an', ns', ar'⟩ := h
    simp

/-- A list that the header can count. -/
abbrev Section (α : Type) := { as : List α // as.length < 2 ^ 16 }

/-- A message with its four sections. -/
structure Message where
  id : UInt16
  flags : UInt16
  questions : Section Question
  answers : Section Record
  authorities : Section Record
  additionals : Section Record

/-- The header of a message counts the entries of its sections. -/
def Message.header (m : Message) : Header where
  id := m.id
  flags := m.flags
  qdcount := UInt16.ofNat m.questions.1.length
  ancount := UInt16.ofNat m.answers.1.length
  nscount := UInt16.ofNat m.authorities.1.length
  arcount := UInt16.ofNat m.additionals.1.length

/-- A section of which the header says the length. -/
def counted {α : Type} (c : Codec α) (n : UInt16) :
    Codec { as : Section α // UInt16.ofNat as.1.length = n } :=
  (c.times n.toNat).as
    (fun as => some ⟨⟨as.1, by rw [as.2]; exact n.toNat_lt⟩, by rw [as.2, UInt16.ofNat_toNat]⟩)
    (fun as => ⟨as.1.1, Codec.eq_toNat_of_ofNat as.1.2 as.2⟩)
    fun {a b} => by
      obtain ⟨a, ha⟩ := a
      obtain ⟨⟨b, hb⟩, hn⟩ := b
      simp

/-- A message: each section has as many entries as the header says. -/
def message : Codec Message :=
  header.behind Message.header fun h =>
    ((counted question h.qdcount).pair ((counted record h.ancount).pair
      ((counted record h.nscount).pair (counted record h.arcount)))).as
    (fun (qd, an, ns, ar) => some ⟨⟨h.id, h.flags, qd.1, an.1, ns.1, ar.1⟩, by
      rw [Message.header, qd.2, an.2, ns.2, ar.2]⟩)
    (fun m => (⟨m.1.questions, congrArg Header.qdcount m.2⟩, ⟨m.1.answers, congrArg Header.ancount m.2⟩,
      ⟨m.1.authorities, congrArg Header.nscount m.2⟩, ⟨m.1.additionals, congrArg Header.arcount m.2⟩))
    fun {x m} => by
      obtain ⟨⟨qd, hqd⟩, ⟨an, han⟩, ⟨ns, hns⟩, ⟨ar, har⟩⟩ := x
      obtain ⟨⟨id, flags, qd', an', ns', ar'⟩, rfl⟩ := m
      simp only [Message.header, Option.some.injEq, Prod.mk.injEq, Subtype.ext_iff, Message.mk.injEq, true_and]

theorem write_message (m : Message) : message.write m = header.write m.header ++
    (m.questions.1.flatMap question.write ++ (m.answers.1.flatMap record.write ++
      (m.authorities.1.flatMap record.write ++ m.additionals.1.flatMap record.write))) := by
  simp only [message, counted, Codec.behind, Codec.as, Codec.pair, Codec.write_times]

theorem length_write_question (q : Question) : (question.write q).length = (labels.write q.name.1).length + 4 :=
  List.length_append

/-! ## Options -/

/-- An option of an OPT record: its code, and its data behind the length. -/
def option : Codec (UInt16 × Sized) := u16.pair sized

theorem option_ne_nil (o : UInt16 × Sized) : option.write o ≠ [] := nofun

/-- The options of an OPT record, one behind the other. -/
def writeOptions (options : List (UInt16 × Sized)) : List UInt8 := options.flatMap option.write

/-- The options, which are all of the data. -/
def readOptions (rdata : List UInt8) : Option (List (UInt16 × Sized)) := option.readAll rdata.length rdata

theorem readOptions_iff {rdata : List UInt8} {options : List (UInt16 × Sized)} :
    readOptions rdata = some options ↔ rdata = writeOptions options :=
  Codec.readAll_iff option_ne_nil le_rfl

theorem length_le_writeOptions {o : UInt16 × Sized} {options : List (UInt16 × Sized)} (h : o ∈ options) :
    o.2.1.length + 4 ≤ (writeOptions options).length := by
  have hsub := List.sublist_flatten_of_mem (List.mem_map_of_mem h : option.write o ∈ options.map option.write)
  have hle := hsub.length_le
  rw [writeOptions, List.flatMap_def]
  exact hle

/-- `OPT`. -/
def optType : UInt16 := 41

/-- The OPT record of the options, of version 0 and without flags. -/
def optRecord (udpPayload : UInt16) (options : { os : List (UInt16 × Sized) // (writeOptions os).length < 2 ^ 16 }) :
    Record where
  name := root
  rtype := optType
  rclass := udpPayload
  ttl := 0
  rdata := ⟨writeOptions options.1, options.2⟩

end Rfc1035
