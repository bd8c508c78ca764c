import Mathlib.Data.List.AList
import WireSurge.Dns.Grammar

/-!
# The correlator

The state behind the mutex of a `Correlator` and its operations, each the
part of the source function that runs under the lock: `register`, `cancel`,
`complete`, the look at the slot in the loop of `await_response` (`check`)
and `close`. A `Notify` handle is the number of its allocation; the handles
themselves, and the tasks that park on them, are in `Exchange.lean`.

`register_spec`, `complete_eq`, `check_of_lookup` say once what each can do.
-/

namespace WireSurge.Dns

open Checked (Checked Panic index put slice range? Returns index_of_lt put_of_lt slice_of_le range?_eq_some)

/-- `DnsResponse`. -/
structure DnsResponse where
  correlation : UInt16
  rcode : UInt16
  truncated : Bool
  bytesIn : Nat
  deriving DecidableEq, Repr

/-- `TransportError`. -/
inductive TransportError
  | timeout
  | io (message : String)
  | protocol (message : String)
  | connectionClosed
  deriving DecidableEq, Repr

/-- What `exchange` answers. -/
abbrev Outcome := Except TransportError DnsResponse

/-! ## The question of a message -/

/-- The bytes of the question section, when `questionRange` finds it. -/
def questionBytes (msg : Bytes) : Option Bytes :=
  match questionRange msg with
  | .ok (some range) => range? msg range.1 range.2
  | _ => none

theorem walkUncompressedName_gt {msg : Bytes} {pos e : Nat} (h : walkUncompressedName msg pos = some e) :
    pos < e := by
  fun_induction walkUncompressedName msg pos with
  | case1 | case2 | case4 => cases h
  | case3 => obtain rfl := Option.some.inj h; omega
  | case5 _ _ _ _ _ _ ih => have := ih h; omega

/-- The range lies in the message, behind the header, and is not empty. -/
theorem questionRange_spec (msg : Bytes) :
    questionRange msg = .ok none ∨
      ∃ e, questionRange msg = .ok (some (12, e)) ∧ 12 + 4 ≤ e ∧ e ≤ msg.length := by
  unfold questionRange
  split
  · exact .inl rfl
  · rename_i h
    obtain ⟨qd, hqd, -⟩ := readU16_of_lt (show 4 + 1 < msg.length by omega)
    simp only [hqd, bind, Except.bind]
    split
    · exact .inl rfl
    · cases hw : walkUncompressedName msg 12 with
      | none => exact .inl rfl
      | some e =>
        simp only
        split
        · rename_i hle
          exact .inr ⟨e + 4, rfl, by have := walkUncompressedName_gt hw; omega, hle⟩
        · exact .inl rfl

theorem questionBytes_spec (msg : Bytes) :
    (questionRange msg = .ok none ∧ questionBytes msg = none) ∨
      ∃ e bytes, questionRange msg = .ok (some (12, e)) ∧ 12 ≤ e ∧ e ≤ msg.length ∧
        range? msg 12 e = some bytes ∧ questionBytes msg = some bytes ∧ bytes ≠ [] := by
  rcases questionRange_spec msg with h | ⟨e, h, h16, hle⟩
  · exact .inl ⟨h, by simp [questionBytes, h]⟩
  · have hr : range? msg 12 e = some ((msg.drop 12).take (e - 12)) :=
      range?_eq_some.mpr ⟨by omega, hle, rfl⟩
    refine .inr ⟨e, _, h, by omega, hle, hr, by simp [questionBytes, h, hr], fun h0 => ?_⟩
    have := congrArg List.length h0
    rw [List.length_take, List.length_drop, List.length_nil] at this
    omega

theorem walkUncompressedName_of_none {msg : Bytes} {pos : Nat} (h : msg[pos]? = none) :
    walkUncompressedName msg pos = none := by
  rw [walkUncompressedName]
  split
  · rfl
  · rename_i h'
    rw [h] at h'
    cases h'

theorem walkUncompressedName_of_some {msg : Bytes} {pos : Nat} {len : UInt8} (h : msg[pos]? = some len) :
    walkUncompressedName msg pos =
      if len &&& 0xC0 ≠ 0 then none
      else if len = 0 then some (pos + 1)
      else if pos + (1 + len.toNat) > msg.length then none
      else walkUncompressedName msg (pos + (1 + len.toNat)) := by
  rw [walkUncompressedName]
  split
  · rename_i h'
    rw [h] at h'
    cases h'
  · rename_i h'
    rw [h] at h'
    cases h'
    rfl

theorem walkUncompressedName_patch (a b a' b' : UInt8) (rest : Bytes) (pos : Nat) (h : 2 ≤ pos) :
    walkUncompressedName (a :: b :: rest) pos = walkUncompressedName (a' :: b' :: rest) pos := by
  have hget {pos : Nat} (h : 2 ≤ pos) : (a :: b :: rest)[pos]? = (a' :: b' :: rest)[pos]? := by
    obtain ⟨p, rfl⟩ : ∃ p, pos = p + 2 := ⟨pos - 2, by omega⟩
    rfl
  fun_induction walkUncompressedName (a' :: b' :: rest) pos with
  | case1 pos hp => rw [walkUncompressedName_of_none ((hget h).trans hp)]
  | case2 pos len hp h1 => rw [walkUncompressedName_of_some ((hget h).trans hp), if_pos h1]
  | case3 pos hp h1 => rw [walkUncompressedName_of_some ((hget h).trans hp), if_neg h1, if_pos rfl]
  | case4 pos len hp h1 h2 h3 =>
    rw [walkUncompressedName_of_some ((hget h).trans hp), if_neg h1, if_neg h2, if_pos (by simpa using h3)]
  | case5 pos len hp h1 h2 h3 ih =>
    rw [walkUncompressedName_of_some ((hget h).trans hp), if_neg h1, if_neg h2, if_neg (by simpa using h3),
      ih (by omega)]

/-- The id of a message has no part in where its question is. -/
theorem questionRange_patch (a b a' b' : UInt8) (rest : Bytes) :
    questionRange (a :: b :: rest) = questionRange (a' :: b' :: rest) := by
  have hr : readU16 (a :: b :: rest) 4 = readU16 (a' :: b' :: rest) 4 := rfl
  simp only [questionRange, hr, walkUncompressedName_patch a b a' b' rest 12 (by omega), List.length_cons]

theorem questionMatchesResponse_eq (response expected : Bytes) :
    questionMatchesResponse response expected = .ok (questionBytes response == some expected) := by
  rcases questionBytes_spec response with ⟨h, hb⟩ | ⟨e, bytes, h, -, -, hr, hb, -⟩
  · simp [questionMatchesResponse, h, hb, bind, Except.bind, pure, Except.pure]
  · simp [questionMatchesResponse, h, hb, hr, bind, Except.bind, pure, Except.pure]

/-! ## Datagrams -/

/-- The transaction id of a message. -/
def txid : Bytes → Option UInt16
  | hi :: lo :: _ => some (u16FromBeBytes hi lo)
  | _ => none

theorem u16FromBeBytes_split (id : UInt16) :
    u16FromBeBytes (id >>> 8).toUInt8 (id &&& 0xff).toUInt8 = id := by
  have hlt := id.toNat_lt
  have hand : id.toNat &&& 255 = id.toNat % 256 := Nat.and_two_pow_sub_one_eq_mod _ 8
  apply UInt16.toNat_inj.mp
  rw [toNat_u16FromBeBytes, be16, UInt16.toNat_toUInt8, UInt16.toNat_toUInt8, UInt16.toNat_shiftRight,
    UInt16.toNat_and, show (8 : UInt16).toNat % 16 = 8 from rfl, show (0xff : UInt16).toNat = 255 from rfl,
    hand, Nat.shiftRight_eq_div_pow]
  omega

/-- The response `complete` makes of a datagram with the id and header of a
pending query, by whether its question matches. -/
def responseOf (id : UInt16) (header : ResponseHeader) (bytesIn : Nat) (matching : Bool) : Outcome :=
  if matching then .ok { correlation := id, rcode := header.rcode, truncated := header.truncated, bytesIn }
  else .error (.protocol "response question does not match the query")

/-- The header `complete` parses, if it is valid. -/
def headerOf (decode : HeaderDecoder) (buf : Bytes) (id : UInt16) : Option ResponseHeader :=
  match parseResponseHeader decode buf (some id) with
  | .ok (.ok header) => some header
  | _ => none

/-- What `complete` stores for a datagram in the slot of its id, if it stores
anything: a reply when the question matches, and an error when it does not. -/
def answer (decode : HeaderDecoder) (buf expected : Bytes) : Option Outcome :=
  (txid buf).bind fun id => (headerOf decode buf id).map fun header =>
    responseOf id header buf.length (questionBytes buf == some expected)

theorem parseResponseHeader_returns (decode : HeaderDecoder) (response : Bytes) (expectedId : Option UInt16) :
    Returns (parseResponseHeader decode response expectedId) := by
  unfold parseResponseHeader
  cases decode response with
  | error e => exact ⟨_, rfl⟩
  | ok header =>
    simp only
    split
    · exact ⟨_, rfl⟩
    · split
      · exact ⟨_, rfl⟩
      · split
        · exact ⟨_, rfl⟩
        · obtain ⟨r, hr⟩ := (optExtendedRcode_ok_iff response).1
          rw [hr]
          cases r <;> exact ⟨_, rfl⟩

/-! ## The state -/

/-- An `Arc<Notify>`, by the number of its allocation. -/
abbrev Handle := Nat

/-- A question at its longest: a name, a type and a class. -/
def maxQuestionLen : Nat := 255 + 2 + 2

/-- One outstanding query: the reply slot the reader fills, and the handle the
waiter parks on. The question is the part of the buffer in use. -/
structure Slot where
  notify : Handle
  response : Option Outcome
  question : Bytes
  questionLen : Nat
  fits : questionLen ≤ question.length

/-- The question a reply has to carry. -/
def Slot.expected (s : Slot) : Bytes := s.question.take s.questionLen

/-- `HashMap<u16, Slot>`. -/
abbrev Pending := AList fun _ : UInt16 => Slot

namespace Pending

/-- The slot of an id. -/
def find (p : Pending) (id : UInt16) : Option Slot := p.lookup id

variable {p : Pending} {id id' : UInt16} {slot : Slot}

@[simp] theorem find_insert : Pending.find (p.insert id slot) id = some slot := AList.lookup_insert p

theorem find_insert_ne (h : id ≠ id') : Pending.find (p.insert id' slot) id = p.find id := AList.lookup_insert_ne h

@[simp] theorem find_erase : Pending.find (p.erase id) id = none := AList.lookup_erase id p

theorem find_erase_ne (h : id ≠ id') : Pending.find (p.erase id') id = p.find id := AList.lookup_erase_ne h

theorem find_eq_none : p.find id = none ↔ id ∉ p := AList.lookup_eq_none

end Pending

/-- `CorrelatorState`, the counter, and the number of handles allocated. -/
structure Correlator where
  pending : Pending
  /-- Recycled handles, the next to be popped first. -/
  free : List Handle
  closed : Bool
  counter : UInt32
  created : Nat

namespace Correlator

/-- `Correlator::new`. -/
def new : Correlator := { pending := ∅, free := [], closed := false, counter := 0, created := 0 }

/-- The loop of `register` over the counter, to the first id that is not
outstanding. The ids repeat after `fuel = 2 ^ 16` of them, so the loop that
has found none by then finds none. -/
def probe (pending : Pending) : Nat → UInt32 → Option (UInt16 × UInt32)
  | 0, _ => none
  | fuel + 1, counter =>
    if counter.toUInt16 ∈ pending then probe pending fuel (counter + 1)
    else some (counter.toUInt16, counter + 1)

/-- `free.pop()`, or a new handle: the handle, the list left, and the number of
handles allocated. -/
def popNotify (c : Correlator) : Handle × List Handle × Nat :=
  match c.free with
  | notify :: free => (notify, free, c.created)
  | [] => (c.created, [], c.created + 1)

/-- `question[..bytes.len()].copy_from_slice(bytes)` in a zeroed buffer. -/
def copyQuestion (bytes : Bytes) : Checked { q : Bytes // bytes.length ≤ q.length } :=
  if bytes.length ≤ maxQuestionLen then
    .ok ⟨bytes ++ List.replicate (maxQuestionLen - bytes.length) 0, by simp⟩
  else .error (.slice 0 bytes.length maxQuestionLen)

/-- What `register` hands to its caller: the id, the handle, and the wire with
the id written into it. -/
structure Registered where
  id : UInt16
  notify : Handle
  wire : Bytes

/-- The slot of a query with the given wire. -/
def slotFor (notify : Handle) (wire : Bytes) : Checked Slot := do
  match ← questionRange wire with
  | none => return { notify, response := none, question := List.replicate maxQuestionLen 0, questionLen := 0,
                     fits := Nat.zero_le _ }
  | some range =>
    let bytes ← slice wire range.1 range.2
    let ⟨question, fits⟩ ← copyQuestion bytes
    return { notify, response := none, question, questionLen := bytes.length, fits }

/-- `register`, or `none` when the probe never ends. -/
def register (c : Correlator) (wire : Bytes) : Option (Checked (Registered × Correlator)) :=
  (probe c.pending (2 ^ 16) c.counter).map fun (id, counter) => do
    let wire ← put wire 0 (id >>> 8).toUInt8
    let wire ← put wire 1 (id &&& 0xff).toUInt8
    let (notify, free, created) := c.popNotify
    let slot ← slotFor notify wire
    return ({ id, notify, wire }, { c with pending := c.pending.insert id slot, free, counter, created })

/-- `pending.remove(&id)` and the handle back to the free list. -/
def recycle (c : Correlator) (id : UInt16) (slot : Slot) : Correlator :=
  { c with pending := c.pending.erase id, free := slot.notify :: c.free }

@[simp] theorem find_recycle_self {c : Correlator} {id : UInt16} {slot : Slot} :
    (c.recycle id slot).pending.find id = none := Pending.find_erase ..

theorem find_recycle_of_ne {c : Correlator} {id id' : UInt16} {slot : Slot} (h : id' ≠ id) :
    (c.recycle id slot).pending.find id' = c.pending.find id' := Pending.find_erase_ne h

/-- `cancel`: the write failed before the query was sent. -/
def cancel (c : Correlator) (id : UInt16) : Correlator :=
  match c.pending.find id with
  | some slot => c.recycle id slot
  | none => c

/-- `complete`: the state, and the handle to notify once the lock is dropped. -/
def complete (decode : HeaderDecoder) (c : Correlator) (buf : Bytes) : Checked (Correlator × Option Handle) :=
  if buf.length < 2 then return (c, none)
  else do
    let id ← readU16 buf 0
    match ← parseResponseHeader decode buf (some id) with
    | .error _ => return (c, none)
    | .ok header =>
      match c.pending.find id with
      | none => return (c, none)
      | some slot =>
        let expected ← slice slot.question 0 slot.questionLen
        let response := responseOf id header buf.length (← questionMatchesResponse buf expected)
        return ({ c with pending := c.pending.insert id { slot with response := some response } },
          some slot.notify)

/-- The part of the loop of `await_response` under the lock: the result to
return, if any, and the state. -/
def check (c : Correlator) (id : UInt16) (woke : Bool) : Checked (Option Outcome × Correlator) :=
  match c.pending.find id with
  | none => throw (.expect "slot stays registered until its waiter removes it")
  | some slot =>
    match slot.response with
    | some result => return (some result, c.recycle id slot)
    | none =>
      if c.closed then return (some (.error .connectionClosed), c.recycle id slot)
      else if !woke then return (some (.error .timeout), c.recycle id slot)
      else return (none, c)

/-- `close`: the state, and the handles to notify once the lock is dropped. -/
def close (c : Correlator) : Correlator × List Handle :=
  ({ c with closed := true }, c.pending.entries.map fun entry => entry.2.notify)

/-! ## What the operations do -/

theorem probe_spec {pending : Pending} :
    ∀ {fuel : Nat} {counter : UInt32} {r : UInt16 × UInt32}, probe pending fuel counter = some r → r.1 ∉ pending
  | 0, _, _, h => by cases h
  | fuel + 1, counter, r, h => by
    simp only [probe] at h
    split at h
    · exact probe_spec h
    · obtain rfl := Option.some.inj h
      assumption

/-- The slot of a query waits for its question, and holds no reply yet. -/
theorem slotFor_spec {notify : Handle} {wire : Bytes} {slot : Slot} (h : slotFor notify wire = .ok slot) :
    slot.notify = notify ∧ slot.response = none ∧ slot.expected = (questionBytes wire).getD [] := by
  rcases questionBytes_spec wire with ⟨hq, hb⟩ | ⟨e, bytes, hq, h12, hle, hr, hb, -⟩
  · simp only [slotFor, hq, bind, Except.bind, pure, Except.pure, Except.ok.injEq] at h
    subst h
    simp [Slot.expected, hb]
  · have hs : slice wire 12 e = .ok bytes := by
      rw [slice_of_le h12 hle, (range?_eq_some.mp hr).2.2]
    simp only [slotFor, hq, hs, copyQuestion, bind, Except.bind, pure, Except.pure] at h
    split at h
    · cases h
    · rename_i q hc
      split at hc
      · cases hc
        obtain rfl := Except.ok.inj h
        simp [Slot.expected, hb]
      · cases hc

/-- Where the handle of a new query comes from: the free list, or it is new. -/
def Pops (c : Correlator) (notify : Handle) (free : List Handle) (created : Nat) : Prop :=
  (c.free = notify :: free ∧ created = c.created) ∨
    (c.free = [] ∧ free = [] ∧ notify = c.created ∧ created = c.created + 1)

theorem popNotify_pops (c : Correlator) : c.Pops c.popNotify.1 c.popNotify.2.1 c.popNotify.2.2 := by
  unfold popNotify Pops
  cases c.free with
  | nil => exact .inr ⟨rfl, rfl, rfl, rfl⟩
  | cons notify free => exact .inl ⟨rfl, rfl⟩

theorem Pops.popNotify_eq {c : Correlator} {notify : Handle} {free : List Handle} {created : Nat}
    (h : c.Pops notify free created) : c.popNotify.1 = notify := by
  rcases h with ⟨hf, -⟩ | ⟨hf, -, hn, -⟩
  · simp [popNotify, hf]
  · simp [popNotify, hf, hn]

/-- `register` on a wire that has the two bytes of an id. -/
theorem register_cons (c : Correlator) (b0 b1 : UInt8) (rest : Bytes) :
    c.register (b0 :: b1 :: rest) = (probe c.pending (2 ^ 16) c.counter).map fun (id, counter) => do
      let wire := (id >>> 8).toUInt8 :: (id &&& 0xff).toUInt8 :: rest
      let slot ← slotFor c.popNotify.1 wire
      return ({ id, notify := c.popNotify.1, wire },
        { c with pending := c.pending.insert id slot, free := c.popNotify.2.1, counter
                 created := c.popNotify.2.2 }) := by
  have h0 (a : UInt8) : put (b0 :: b1 :: rest) 0 a = .ok (a :: b1 :: rest) := put_of_lt (by simp) a
  have h1 (a b : UInt8) : put (a :: b1 :: rest) 1 b = .ok (a :: b :: rest) := put_of_lt (by simp) b
  simp only [register, h0, h1, bind, Except.bind]

theorem register_ok {c : Correlator} {b0 b1 : UInt8} {rest : Bytes} {id : UInt16} {counter : UInt32} {slot : Slot}
    (hp : probe c.pending (2 ^ 16) c.counter = some (id, counter))
    (hs : slotFor c.popNotify.1 ((id >>> 8).toUInt8 :: (id &&& 0xff).toUInt8 :: rest) = .ok slot) :
    c.register (b0 :: b1 :: rest) = some (.ok
      (⟨id, c.popNotify.1, (id >>> 8).toUInt8 :: (id &&& 0xff).toUInt8 :: rest⟩,
        { c with pending := c.pending.insert id slot, free := c.popNotify.2.1, counter
                 created := c.popNotify.2.2 })) := by
  rw [register_cons, hp, Option.map_some]
  simp only [hs, bind, Except.bind, pure, Except.pure]

/-- What has gone into a `register` that completes. -/
theorem register_inv {c c' : Correlator} {wire : Bytes} {r : Registered} (h : c.register wire = some (.ok (r, c'))) :
    ∃ b0 b1 rest slot, wire = b0 :: b1 :: rest ∧ r.wire = (r.id >>> 8).toUInt8 :: (r.id &&& 0xff).toUInt8 :: rest ∧
      r.id ∉ c.pending ∧ r.notify = c.popNotify.1 ∧ slotFor r.notify r.wire = .ok slot ∧
      c' = { c with pending := c.pending.insert r.id slot, free := c.popNotify.2.1, counter := c'.counter
                    created := c.popNotify.2.2 } := by
  match wire with
  | [] =>
    obtain ⟨_, -, h⟩ := Option.map_eq_some_iff.mp h
    cases h
  | [b] =>
    obtain ⟨_, -, h⟩ := Option.map_eq_some_iff.mp h
    cases h
  | b0 :: b1 :: rest =>
    rw [register_cons] at h
    obtain ⟨⟨id, counter⟩, hp, h⟩ := Option.map_eq_some_iff.mp h
    simp only [bind, Except.bind] at h
    split at h
    · cases h
    · rename_i slot hs
      obtain ⟨rfl, rfl⟩ := Prod.mk.inj (Except.ok.inj h)
      exact ⟨b0, b1, rest, slot, rfl, rfl, probe_spec hp, rfl, hs, rfl⟩

/-- `register` takes an id that is not pending, writes it into the wire, and
adds a slot without a reply that waits for the wire's question. -/
theorem register_spec {c c' : Correlator} {wire : Bytes} {r : Registered}
    (h : c.register wire = some (.ok (r, c'))) :
    r.id ∉ c.pending ∧ txid r.wire = some r.id ∧ c.Pops r.notify c'.free c'.created ∧ c'.closed = c.closed ∧
      ∃ slot : Slot, c'.pending = c.pending.insert r.id slot ∧ slot.notify = r.notify ∧
        slot.response = none ∧ slot.expected = (questionBytes r.wire).getD [] := by
  obtain ⟨b0, b1, rest, slot, -, hwire, hid, hnotify, hs, hc⟩ := register_inv h
  obtain ⟨hn, hr, he⟩ := slotFor_spec hs
  have htxid : txid r.wire = some r.id := by
    rw [hwire]
    exact congrArg some (u16FromBeBytes_split r.id)
  refine ⟨hid, htxid, ?_, ?_, slot, ?_, hn, hr, he⟩
  · rw [hc, hnotify]
    exact popNotify_pops c
  · rw [hc]
  · rw [hc]

/-- `complete` stores `answer` in the slot of the datagram's id and notifies its
handle, or changes nothing when there is no slot or no answer. -/
theorem complete_spec (decode : HeaderDecoder) (c : Correlator) (buf : Bytes) :
    (c.complete decode buf = .ok (c, none) ∧
      ∀ id slot, txid buf = some id → c.pending.find id = some slot → answer decode buf slot.expected = none) ∨
    ∃ id slot response, txid buf = some id ∧ c.pending.find id = some slot ∧
      answer decode buf slot.expected = some response ∧
      c.complete decode buf =
        .ok ({ c with pending := c.pending.insert id { slot with response := some response } }, some slot.notify) := by
  match buf with
  | [] => exact .inl ⟨rfl, fun _ _ h => by cases h⟩
  | [b] => exact .inl ⟨rfl, fun _ _ h => by cases h⟩
  | hi :: lo :: rest =>
    have hc : ¬ (hi :: lo :: rest).length < 2 := by simp
    obtain ⟨parsed, hp⟩ := parseResponseHeader_returns decode (hi :: lo :: rest) (some (u16FromBeBytes hi lo))
    have hid : readU16 (hi :: lo :: rest) 0 = .ok (u16FromBeBytes hi lo) := rfl
    simp only [complete, hc, if_false, hid, hp, bind, Except.bind, txid, Option.some.injEq, answer,
      Option.bind_some, headerOf]
    cases parsed with
    | error e => exact .inl ⟨rfl, fun _ _ _ _ => rfl⟩
    | ok header =>
      cases hl : c.pending.find (u16FromBeBytes hi lo) with
      | none => exact .inl ⟨by simp only; rfl, fun _ _ h h' => by rw [← h, hl] at h'; cases h'⟩
      | some slot =>
        have hs : slice slot.question 0 slot.questionLen = .ok slot.expected :=
          slice_of_le (Nat.zero_le _) slot.fits
        refine .inr ⟨_, slot, _, rfl, hl, rfl, ?_⟩
        simp only [hs, questionMatchesResponse_eq]
        rfl

/-- What the waiter finds in its slot: a reply, or that the connection is
closed, or that its time is up. -/
def verdict (slot : Slot) (closed woke : Bool) : Option Outcome :=
  match slot.response with
  | some result => some result
  | none => if closed then some (.error .connectionClosed) else if !woke then some (.error .timeout) else none

theorem check_of_lookup {c : Correlator} {id : UInt16} {slot : Slot} (h : c.pending.find id = some slot)
    (woke : Bool) :
    c.check id woke = .ok (match verdict slot c.closed woke with
      | some result => (some result, c.recycle id slot)
      | none => (none, c)) := by
  simp only [check, h, verdict]
  cases slot.response with
  | some result => rfl
  | none => cases c.closed <;> cases woke <;> rfl

theorem mem_close {c : Correlator} {id : UInt16} {slot : Slot} (h : c.pending.find id = some slot) :
    slot.notify ∈ c.close.2 :=
  List.mem_map.mpr ⟨_, AList.mem_lookup_iff.mp h, rfl⟩

end Correlator

end WireSurge.Dns
