import WireSurge.Dns.Question
import WireSurge.Lib.Chunks

/-!
# The byte stream of a framed connection

The frames that enter the channel of a `FramedConn`, the bytes that the socket
takes of them, and what a reader makes of the bytes. `Streamed` keeps with the
connection how much of the frame in hand has been written; its history is the
order in which the exchanges sent their frames, and the stream. The stream is
the frames in that order, each once (`Flow`), and `readLoop` reads their
messages from it, wherever it is cut into chunks (`framing_round_trip`).
-/

namespace WireSurge.Dns

open Checked (Checked)
open Chunks (Framing readExact readExact_eq_some)
open Function (update)
open Lts (Clocked Timed clocked Reach)

/-! ## Reading -/

/-- `MAX_DNS_MESSAGE_LEN`. -/
def maxDnsMessageLen : Nat := 65535

/-- `u16::from_be_bytes(len_buf)`. -/
def messageLen (lenBuf : Bytes) : Nat := (u16FromBeBytes (lenBuf.getD 0 0) (lenBuf.getD 1 0)).toNat

/-- The messages that `read_loop` hands to `complete`, to the end of the stream. -/
def readLoop (chunks : List Bytes) : Checked (List Bytes) :=
  match _h : readExact 2 chunks with
  | none => .ok []
  | some (lenBuf, rest) =>
    let len := messageLen lenBuf
    -- `msg[..len]`, of a buffer of fixed length
    if len ≤ maxDnsMessageLen then
      match _h' : readExact len rest with
      | none => .ok []
      | some (msg, rest) => (readLoop rest).map (msg :: ·)
    else .error (.slice 0 len maxDnsMessageLen)
termination_by chunks.flatten.length
decreasing_by
  have h := readExact_eq_some _h
  have h' := readExact_eq_some _h'
  rw [h.1, h'.1]
  simp only [List.length_append]
  omega

/-- The `[u16 len][message]` framing. -/
def lengthPrefix : Framing UInt8 where
  hdr := 1
  size := messageLen
  header msg :=
    let len := UInt16.ofNat msg.length
    [(len >>> 8).toUInt8, (len &&& 0xff).toUInt8]

theorem frame_eq : lengthPrefix.frame = frameOf := rfl

theorem fits_of_le {msg : Bytes} (h : msg.length ≤ 65535) : lengthPrefix.Fits msg where
  length := rfl
  size := by
    have hid := u16FromBeBytes_split (UInt16.ofNat msg.length)
    show (u16FromBeBytes (UInt16.ofNat msg.length >>> 8).toUInt8 (UInt16.ofNat msg.length &&& 0xff).toUInt8).toNat = _
    rw [hid, UInt16.toNat_ofNat']
    omega

/-- No length is out of range of the buffer. -/
theorem readLoop_eq (chunks : List Bytes) : readLoop chunks = .ok (lengthPrefix.readFrames chunks) := by
  have hlen (lenBuf : Bytes) : messageLen lenBuf ≤ maxDnsMessageLen := by
    have := (u16FromBeBytes (lenBuf.getD 0 0) (lenBuf.getD 1 0)).toNat_lt
    rw [messageLen, maxDnsMessageLen]
    omega
  fun_induction readLoop chunks with
  | case1 chunks h => rw [Framing.readFrames_of_none h]
  | case2 chunks lenBuf rest h len hle h' => rw [Framing.readFrames_of_head h h']
  | case3 chunks lenBuf rest h len hle msg rest' h' ih =>
    have hread : lengthPrefix.readFrames chunks = msg :: lengthPrefix.readFrames rest' :=
      Framing.readFrames_of_msg h h'
    rw [ih, hread]
    rfl
  | case4 chunks lenBuf rest h len hle => exact absurd (hlen lenBuf) hle

/-! ## Writing -/

/-- A framed connection, with how much of the frame in hand the socket has taken. -/
structure Streamed where
  conn : Framed
  offset : Nat
  /-- History: the exchanges whose frames have entered the channel, in order; the
  bytes the socket has taken; and the number of frames written whole. -/
  entered : List Token
  stream : Bytes
  written : Nat

namespace Streamed

/-- A connection on which nothing was written. -/
def spawn (maxInFlight : Nat) : Streamed :=
  { conn := .spawn maxInFlight, offset := 0, entered := [], stream := [], written := 0 }

/-- The frame that `write_all` is at. -/
def inHand (s : Streamed) : Option Bytes :=
  match s.conn.writer with
  | .writing frame => some frame
  | _ => none

/-- The messages that have entered the channel, as their exchanges registered them. -/
def messages (s : Streamed) : List Bytes := s.entered.map fun q => (s.conn.session.queries q).wire

/-- The frames of the messages that were sent. -/
def frames (s : Streamed) : List Bytes := s.messages.map frameOf

/-- The frames that enter the channel when an exchange is polled. -/
def entering (conn : Framed) : Framed.Act → List Token
  | .exchange q _ _ | .resume q =>
    match conn.calls q with
    | some call => if call.stage = .awaiting then [q] else []
    | none => []
  | _ => []

/-- An act on the connection, or a part of a write. -/
inductive Act
  | act (a : Framed.Act)
  /-- The socket takes `n` bytes of the frame in hand. -/
  | put (n : Nat)
  /-- The connection is dropped, and no frame is left. -/
  | hangUp

/-- What an act does, if it can be done. -/
def step (decode : HeaderDecoder) (now : Instant) (s : Streamed) : Act → Option Streamed
  | .act (.wrote true) =>
    -- `write_all` returns when nothing of the frame is left
    match s.inHand with
    | some frame =>
      if s.offset = frame.length then
        (s.conn.wrote true).map fun conn => { s with conn, offset := 0, written := s.written + 1 }
      else none
    | none => none
  | .act a => (s.conn.step decode now a).map fun conn => { s with conn, entered := s.entered ++ entering conn a }
  | .put n =>
    match s.inHand with
    | some frame =>
      if 0 < n ∧ s.offset + n ≤ frame.length then
        some { s with offset := s.offset + n, stream := s.stream ++ (frame.drop s.offset).take n }
      else none
    | none => none
  | .hangUp =>
    if s.conn.writer = .receiving ∧ s.conn.chan.queue = [] then
      some { s with conn := { s.conn with writer := .shuttingDown } }
    else none

/-- No write fails. -/
def Writes : Clocked Streamed → Timed Act → Prop
  | _, .act (.act (.wrote ok)) => ok = true
  | _, _ => True

end Streamed

/-! ## What enters the channel -/

/-- The wire of a query stays as it was registered. -/
theorem Session.wire_effect {decode : HeaderDecoder} {now : Instant} {s t : Session} {a : Session.Act}
    (h : Effect decode now s a t) (ha : ∀ q wire, a ≠ .register q wire) (q : Token) :
    (t.queries q).wire = (s.queries q).wire := by
  have left (q' : Token) (corr : Correlator) (phase : Phase) (source : Option Nat) :
      ((s.leave q' corr phase source).queries q).wire = (s.queries q).wire := by
    by_cases hne : q = q'
    · subst hne
      rw [leave_self]
    · rw [leave_of_ne hne]
  cases h with
  | turn ht => rw [ht.moved.kept q]
  | registered hreg => exact absurd hreg (ha _ _)
  | cancelled => exact left ..
  | returned => exact left ..
  | ignored | stored | closed => rfl

theorem Session.register_wire {s t : Session} {q : Token} {wire : Bytes} (h : s.register q wire = some t) :
    (t.queries q).wire.length = wire.length ∧ ∀ q' ≠ q, t.queries q' = s.queries q' := by
  simp only [register] at h
  split at h <;> cases h
  rename_i r corr _ hr
  obtain ⟨b0, b1, rest, -, rfl, hwire, -⟩ := Correlator.register_inv hr
  refine ⟨?_, fun q' hne => Function.update_of_ne hne ..⟩
  simp only [Function.update_self, hwire, List.length_cons]

namespace Framed

variable {decode : HeaderDecoder} {now : Instant} {s t : Framed} {entered : List Token} {q : Token} {frame : Bytes}

/-- The frame is that of the query, whose wire has a length that can be told. -/
def Frames (s : Framed) (q : Token) (frame : Bytes) : Prop :=
  frame = frameOf (s.session.queries q).wire ∧ (s.session.queries q).wire.length ≤ 65535

/-- The exchanges of a connection, those of `entered` having sent their frames. -/
structure Sending (s : Framed) (entered : List Token) : Prop where
  held : Held s.session s.calls
  awaiting {q : Token} : q ∈ entered → ∃ call, s.calls q = some call ∧ call.stage = .awaiting
  frames {q : Token} {call : Call} {frame : Bytes} : s.calls q = some call → call.stage = .sending frame →
    s.Frames q frame
  size {q : Token} : q ∈ entered → (s.session.queries q).wire.length ≤ 65535
  nodup : entered.Nodup

/-- The same, while `q`, which has not sent its frame, is polled. -/
structure Polled (s : Framed) (entered : List Token) (q : Token) : Prop where
  held : ∃ call, Held s.session (update s.calls q (some call))
  awaiting {q' : Token} : q' ∈ entered → ∃ call, s.calls q' = some call ∧ call.stage = .awaiting
  frames {q' : Token} {call : Call} {frame : Bytes} : q' ≠ q → s.calls q' = some call →
    call.stage = .sending frame → s.Frames q' frame
  size {q' : Token} : q' ∈ entered → (s.session.queries q').wire.length ≤ 65535
  nodup : entered.Nodup
  fresh : q ∉ entered

/-- What the poll does: the frames of `sent` go to the end of the channel. -/
structure Offer (s t : Framed) (entered sent : List Token) : Prop where
  sending : t.Sending (entered ++ sent)
  queue : t.chan.queue = s.chan.queue ++ sent.map fun q => frameOf (t.session.queries q).wire
  writer : t.writer = s.writer
  wires {q : Token} : q ∈ entered → (t.session.queries q).wire = (s.session.queries q).wire

/-- `q` gets to a stage without sending its frame, and the others stay where they are. -/
theorem Polled.stay (h : s.Polled entered q) {call : Call} (hheld : Held t.session t.calls)
    (hcalls : t.calls = update s.calls q (some call))
    (hwires : ∀ q', (t.session.queries q').wire = (s.session.queries q').wire)
    (hstage : ∀ f, call.stage = .sending f → s.Frames q f) : t.Sending entered := by
  refine ⟨hheld, fun {q'} hq => ?_, fun {q' call' f} hc hf => ?_, fun hq => ?_, h.nodup⟩
  · obtain ⟨call', hc, hst⟩ := h.awaiting hq
    have hne : q' ≠ q := fun heq => h.fresh (heq ▸ hq)
    exact ⟨call', by rw [hcalls, Function.update_of_ne hne, hc], hst⟩
  · rw [Frames, hwires]
    rw [hcalls] at hc
    by_cases hne : q' = q
    · subst hne
      rw [Function.update_self, Option.some.injEq] at hc
      subst hc
      exact hstage f hf
    · rw [Function.update_of_ne hne] at hc
      exact h.frames hne hc hf
  · rw [hwires]
    exact h.size hq

theorem Polled.handOver {call : Call} (h : s.Polled entered q) (hframes : s.Frames q frame)
    (hs : s.handOver now q call frame = some t) : s.Offer t entered [q] := by
  obtain ⟨call', hheld⟩ := h.held
  have hheld' := (held_handOver hheld hs).1
  obtain ⟨session, ha, rfl⟩ := Option.map_eq_some_iff.mp hs
  have heffect : Session.Effect rfc1035Header now s.session (.awaitResponse q call.timeout) session :=
    .turn (Session.awaitResponse_turn ha)
  have hwires := Session.wire_effect heffect fun _ _ => Session.Act.noConfusion
  have hstay := h.stay hheld' rfl hwires fun _ => Stage.noConfusion
  refine ⟨⟨hheld', fun {q'} hq => ?_, hstay.frames, fun {q'} hq => ?_, ?_⟩, ?_, rfl, fun _ => hwires _⟩
  · rcases List.mem_append.mp hq with hq | hq
    · exact hstay.awaiting hq
    · rw [List.mem_singleton.mp hq]
      exact ⟨_, Function.update_self .., rfl⟩
  · rcases List.mem_append.mp hq with hq | hq
    · exact hstay.size hq
    · rw [List.mem_singleton.mp hq]
      show (session.queries q).wire.length ≤ 65535
      rw [hwires]
      exact hframes.2
  · apply List.Nodup.append h.nodup (List.nodup_singleton q)
    intro q' hq hq'
    exact h.fresh (List.mem_singleton.mp hq' ▸ hq)
  · show s.chan.queue ++ [frame] = s.chan.queue ++ [frameOf (session.queries q).wire]
    rw [hwires, hframes.1]

theorem Polled.giveUp {call : Call} (h : s.Polled entered q) (hs : s.giveUp q call = some t) :
    s.Offer t entered [] := by
  obtain ⟨call', hheld⟩ := h.held
  have hheld' := (held_giveUp hheld hs).1
  obtain ⟨session, hc, rfl⟩ := Option.map_eq_some_iff.mp hs
  have heffect : Session.Effect rfc1035Header 0 s.session (.cancel q) session :=
    Session.cancel_effect hheld.slots hc
  have hwires := Session.wire_effect heffect fun _ _ => Session.Act.noConfusion
  have hstay := h.stay hheld' rfl hwires fun _ => Stage.noConfusion
  refine ⟨by rwa [List.append_nil], ?_, rfl, fun _ => hwires _⟩
  rw [List.map_nil, List.append_nil]
  rfl

theorem Sending.polled_of_none (h : s.Sending entered) (hnone : s.calls q = none) : s.Polled entered q where
  held := ⟨⟨0, 0, .awaiting⟩, h.held.setCall fun _ _ => Stage.noConfusion⟩
  awaiting := h.awaiting
  frames _ := h.frames
  size := h.size
  nodup := h.nodup
  fresh hq := by
    obtain ⟨call, hc, -⟩ := h.awaiting hq
    cases hnone.symm.trans hc

/-- An exchange that ends before it registers. -/
theorem Polled.fail (h : s.Polled entered q) (hheld : Held s.session s.calls) (hnone : s.calls q = none)
    {call : Call} {error : TransportError} (hstage : call.stage = .failed error) :
    s.Offer (s.setCall q call) entered [] := by
  have hidle := hheld.not_active_of_none hnone
  have hstay : (s.setCall q call).Sending entered :=
    h.stay (hheld.setCall fun hq => absurd hq hidle) rfl (fun _ => rfl) fun f hf => by
      cases hstage.symm.trans hf
  refine ⟨by rwa [List.append_nil], ?_, rfl, fun _ => rfl⟩
  rw [List.map_nil, List.append_nil]
  rfl

theorem Sending.polled_of_sending {call : Call} (h : s.Sending entered) (hc : s.calls q = some call)
    (hst : call.stage = .sending frame) : s.Polled entered q where
  held := ⟨call, by rw [← hc, Function.update_eq_self]; exact h.held⟩
  awaiting := h.awaiting
  frames _ := h.frames
  size := h.size
  nodup := h.nodup
  fresh hq := by
    obtain ⟨call', hc', hst'⟩ := h.awaiting hq
    cases hc.symm.trans hc'
    cases hst.symm.trans hst'

/-- An exchange that has registered, with its frame still to send. -/
theorem Sending.register {wire : Bytes} {session : Session} (h : s.Sending entered) (hnone : s.calls q = none)
    (hr : s.session.register q wire = some session) (hlen : wire.length ≤ 65535) (chan : Channel Token Bytes) :
    ({ s with session, chan } : Framed).Polled entered q ∧
      ({ s with session, chan } : Framed).Frames q (frameOf (session.queries q).wire) := by
  have hp := h.polled_of_none hnone
  obtain ⟨hwire, hothers⟩ := Session.register_wire hr
  refine ⟨⟨⟨⟨0, 0, .awaiting⟩, (h.held.register hr fun _ => Stage.noConfusion).1⟩, h.awaiting,
    fun {q' call f} hne hc hst => ?_, fun {q'} hq => ?_, h.nodup, hp.fresh⟩, rfl, ?_⟩
  · show f = frameOf (session.queries q').wire ∧ (session.queries q').wire.length ≤ 65535
    rw [hothers q' hne]
    exact h.frames hc hst
  · have hne : q' ≠ q := fun heq => hp.fresh (heq ▸ hq)
    show (session.queries q').wire.length ≤ 65535
    rw [hothers q' hne]
    exact h.size hq
  · show (session.queries q).wire.length ≤ 65535
    rw [hwire]
    exact hlen

/-- A poll from a state on the way. -/
theorem Offer.of_mid {mid : Framed} {sent : List Token} (h : mid.Offer t entered sent)
    (hqueue : mid.chan.queue = s.chan.queue) (hwriter : mid.writer = s.writer)
    (hwires : ∀ q ∈ entered, (mid.session.queries q).wire = (s.session.queries q).wire) : s.Offer t entered sent where
  sending := h.sending
  queue := by rw [h.queue, hqueue]
  writer := h.writer.trans hwriter
  wires hq := (h.wires hq).trans (hwires _ hq)

/-- The frame goes into the channel at once, or waits for a place, or never will. -/
theorem Sending.exchange {wire : Bytes} {timeout : Duration} (h : s.Sending entered)
    (hs : s.exchange now q wire timeout = some t) : ∃ call, t.calls q = some call ∧
      s.Offer t entered (if call.stage = .awaiting then [q] else []) := by
  simp only [Framed.exchange] at hs
  split at hs
  · cases hs
  · rename_i hnone
    have hp := h.polled_of_none hnone
    split at hs
    · cases hs
      exact ⟨_, Function.update_self .., hp.fail h.held hnone rfl⟩
    · split at hs
      · cases hs
        exact ⟨_, Function.update_self .., hp.fail h.held hnone rfl⟩
      · rename_i hmax
        obtain ⟨session, hr, hs⟩ := Option.bind_eq_some_iff.mp hs
        have hlen : wire.length ≤ 65535 := by omega
        have hwires : ∀ q' ∈ entered, (session.queries q').wire = (s.session.queries q').wire := by
          intro q' hq
          rw [(Session.register_wire hr).2 q' fun heq => hp.fresh (heq ▸ hq)]
        have hqueue := s.chan.reserve_queue q
        split at hs
        · obtain ⟨hp', -⟩ := h.register hnone hr hlen s.chan
          have hoffer : s.Offer t entered [] := (hp'.giveUp hs).of_mid rfl rfl hwires
          obtain ⟨session', -, rfl⟩ := Option.map_eq_some_iff.mp hs
          exact ⟨_, Function.update_self .., hoffer⟩
        · rename_i chan hchan
          rw [hchan] at hqueue
          obtain ⟨hp', hf⟩ := h.register hnone hr hlen chan
          have hoffer : s.Offer t entered [q] := (hp'.handOver hf hs).of_mid hqueue rfl hwires
          obtain ⟨session', -, rfl⟩ := Option.map_eq_some_iff.mp hs
          exact ⟨_, Function.update_self .., hoffer⟩
        · rename_i chan hchan
          rw [hchan] at hqueue
          cases hs
          obtain ⟨hp', hf⟩ := h.register hnone hr hlen chan
          have hreg :
              Held session (update s.calls q (some ⟨now, timeout, .sending (frameOf (session.queries q).wire)⟩)) ∧ _ :=
            h.held.register hr fun _ => Stage.noConfusion
          refine ⟨_, Function.update_self .., ?_, ?_, rfl, fun hq => hwires _ hq⟩
          · rw [if_neg Stage.noConfusion, List.append_nil]
            refine hp'.stay hreg.1 rfl (fun _ => rfl) fun f hst => ?_
            cases hst
            exact hf
          · rw [if_neg Stage.noConfusion, List.map_nil, List.append_nil]
            exact hqueue

theorem Sending.resume (h : s.Sending entered) (hs : s.resume now q = some t) : ∃ call, t.calls q = some call ∧
    s.Offer t entered (if call.stage = .awaiting then [q] else []) := by
  simp only [Framed.resume] at hs
  split at hs
  · rename_i call hc
    split at hs
    · rename_i frame hst
      have hp := h.polled_of_sending hc hst
      split at hs
      · have hoffer := hp.handOver (h.frames hc hst) hs
        obtain ⟨session, -, rfl⟩ := Option.map_eq_some_iff.mp hs
        exact ⟨_, Function.update_self .., hoffer⟩
      · split at hs
        · have hoffer := hp.giveUp hs
          obtain ⟨session, -, rfl⟩ := Option.map_eq_some_iff.mp hs
          exact ⟨_, Function.update_self .., hoffer⟩
        · cases hs
    · cases hs
  · cases hs

/-- Nothing enters the channel, and no query changes. -/
theorem Sending.of_wires (h : s.Sending entered) (hheld : Held t.session t.calls) (hcalls : t.calls = s.calls)
    (hwires : ∀ q, (t.session.queries q).wire = (s.session.queries q).wire) : t.Sending entered where
  held := hheld
  awaiting hq := by
    rw [hcalls]
    exact h.awaiting hq
  frames {q call f} hc hst := by
    rw [hcalls] at hc
    rw [Frames, hwires]
    exact h.frames hc hst
  size {q} hq := by
    rw [hwires]
    exact h.size hq
  nodup := h.nodup

end Framed

/-! ## What comes out -/

namespace Streamed

variable {decode : HeaderDecoder} {now : Instant} {s t : Streamed}

/-- The frames that have entered the channel are written, in hand, or in the channel. -/
structure Flow (s : Streamed) : Prop where
  sending : s.conn.Sending s.entered
  left : s.conn.writer ≠ .done → s.frames.drop s.written = s.inHand.toList ++ s.conn.chan.queue
  written : s.written ≤ s.frames.length
  stream : s.stream = (s.frames.take s.written).flatten ++ (s.inHand.getD []).take s.offset
  offset : s.offset ≤ (s.inHand.getD []).length

theorem Flow.spawn (maxInFlight : Nat) : (Streamed.spawn maxInFlight).Flow where
  sending :=
    { held := .new
      awaiting := fun hq => absurd hq List.not_mem_nil
      frames := fun hc => by cases hc
      size := fun hq => absurd hq List.not_mem_nil
      nodup := List.nodup_nil }
  left _ := rfl
  written := Nat.zero_le _
  stream := rfl
  offset := Nat.zero_le _

/-- The writer is not at a frame. -/
theorem Flow.offset_eq_zero (h : s.Flow) (hnone : s.inHand = none) : s.offset = 0 := by
  have := h.offset
  rw [hnone] at this
  exact Nat.le_zero.mp this

theorem Flow.written_succ (h : s.Flow) {frame : Bytes} (hhand : s.inHand = some frame) :
    s.frames[s.written]? = some frame ∧ s.frames.drop (s.written + 1) = s.conn.chan.queue := by
  have hwriter : s.conn.writer ≠ .done := fun hw => by
    rw [inHand, hw] at hhand
    cases hhand
  have hleft := h.left hwriter
  rw [hhand, Option.toList_some, List.singleton_append] at hleft
  constructor
  · rw [← List.head?_drop, hleft, List.head?_cons]
  · rw [← List.drop_drop, hleft, List.drop_one, List.tail_cons]

/-- A poll of an exchange: the frames go to the end. -/
theorem Flow.offer {conn : Framed} {sent : List Token} (h : s.Flow) (ho : s.conn.Offer conn s.entered sent) :
    ({ s with conn, entered := s.entered ++ sent } : Streamed).Flow := by
  have hhand : ({ s with conn, entered := s.entered ++ sent } : Streamed).inHand = s.inHand := by
    simp only [inHand, ho.writer]
  have hframes : ({ s with conn, entered := s.entered ++ sent } : Streamed).frames =
      s.frames ++ sent.map fun q => frameOf (conn.session.queries q).wire := by
    have hold : s.entered.map (fun q => (conn.session.queries q).wire) = s.messages :=
      List.map_congr_left fun q hq => ho.wires hq
    show ((s.entered ++ sent).map _).map frameOf = _
    rw [List.map_append, hold, List.map_append, List.map_map]
    rfl
  have hle := h.written
  refine ⟨ho.sending, fun hw => ?_, ?_, ?_, ?_⟩
  · rw [hframes, hhand, ho.queue, ← List.append_assoc, ← h.left (ho.writer ▸ hw)]
    exact List.drop_append_of_le_length hle
  · rw [hframes, List.length_append]
    exact Nat.le_add_right_of_le hle
  · rw [hframes, hhand, List.take_append_of_le_length hle]
    exact h.stream
  · rw [hhand]
    exact h.offset

/-- A step that puts nothing into the channel and writes nothing. -/
theorem Flow.of_frames (h : s.Flow) (hsending : t.conn.Sending t.entered) (hframes : t.frames = s.frames)
    (hstream : t.stream = s.stream) (hwritten : t.written = s.written) (hoffset : t.offset = s.offset)
    (hleft : t.conn.writer ≠ .done → s.conn.writer ≠ .done ∧
      t.inHand.toList ++ t.conn.chan.queue = s.inHand.toList ++ s.conn.chan.queue)
    (hhand : t.inHand = s.inHand ∨ s.inHand = none) : t.Flow := by
  have htake : (t.inHand.getD []).take s.offset = (s.inHand.getD []).take s.offset ∧
      s.offset ≤ (t.inHand.getD []).length := by
    rcases hhand with heq | hnone
    · rw [heq]
      exact ⟨rfl, h.offset⟩
    · rw [h.offset_eq_zero hnone]
      exact ⟨rfl, Nat.zero_le _⟩
  refine ⟨hsending, fun hw => ?_, ?_, ?_, ?_⟩
  · obtain ⟨hw', heq⟩ := hleft hw
    rw [heq, hframes, hwritten]
    exact h.left hw'
  · rw [hframes, hwritten]
    exact h.written
  · rw [hframes, hwritten, hoffset, hstream, htake.1]
    exact h.stream
  · rw [hoffset]
    exact htake.2

theorem Flow.session {b : Session.Act} {conn : Framed} (h : s.Flow)
    (hs : s.conn.step decode now (.session b) = some conn) : ({ s with conn } : Streamed).Flow := by
  have hheld := (Framed.held_step h.sending.held (.inl ⟨b, rfl⟩) hs).1
  obtain ⟨session, hb, rfl⟩ := Framed.session_of_step hs
  have hwires := Session.wire_effect (Session.step_effect h.sending.held.slots hb) fun q wire hreg => by
    subst hreg
    cases hs
  have hframes : ({ s with conn := { s.conn with session } } : Streamed).frames = s.frames := by
    simp only [frames, messages, hwires]
  exact h.of_frames (h.sending.of_wires hheld rfl hwires) hframes rfl rfl rfl (fun hw => ⟨hw, rfl⟩) (.inl rfl)

theorem Flow.recv {conn : Framed} (h : s.Flow) (hs : s.conn.recv = some conn) : ({ s with conn } : Streamed).Flow := by
  simp only [Framed.recv] at hs
  split at hs
  · rename_i hw
    obtain ⟨⟨frame, chan⟩, hrecv, rfl⟩ := Option.map_eq_some_iff.mp hs
    have hnone : s.inHand = none := by rw [inHand, hw]
    refine h.of_frames (h.sending.of_wires h.sending.held rfl fun _ => rfl) rfl rfl rfl rfl (fun _ => ⟨?_, ?_⟩)
      (.inr hnone)
    · rw [hw]
      exact Writer.noConfusion
    · rw [hnone, Channel.recv_queue hrecv]
      rfl
  · cases hs

theorem Flow.flushed {conn : Framed} {ok : Bool} (h : s.Flow) (hs : s.conn.flushed ok = some conn) :
    ({ s with conn } : Streamed).Flow := by
  simp only [Framed.flushed] at hs
  split at hs <;> cases hs
  rename_i hw
  have hnone : s.inHand = none := by rw [inHand, hw]
  have hnone' : ({ s with conn := { s.conn with writer := if ok then .receiving else .shuttingDown } } :
      Streamed).inHand = none := by cases ok <;> rfl
  refine h.of_frames (h.sending.of_wires h.sending.held rfl fun _ => rfl) rfl rfl rfl rfl (fun _ => ⟨?_, ?_⟩)
    (.inr hnone)
  · rw [hw]
    exact Writer.noConfusion
  · rw [hnone, hnone']

theorem Flow.shutdown {conn : Framed} (h : s.Flow) (hs : s.conn.shutdown = some conn) :
    ({ s with conn } : Streamed).Flow := by
  simp only [Framed.shutdown] at hs
  split at hs <;> cases hs
  rename_i hw
  have hnone : s.inHand = none := by rw [inHand, hw]
  exact h.of_frames (h.sending.of_wires h.sending.held rfl fun _ => rfl) rfl rfl rfl rfl (fun hd => absurd rfl hd)
    (.inr hnone)

/-- The frame in hand is written whole. -/
theorem Flow.wrote {conn : Framed} {frame : Bytes} (h : s.Flow) (hhand : s.inHand = some frame)
    (hoffset : s.offset = frame.length) (hs : s.conn.wrote true = some conn) :
    ({ s with conn, offset := 0, written := s.written + 1 } : Streamed).Flow := by
  obtain ⟨hget, hdrop⟩ := h.written_succ hhand
  have hlt : s.written < s.frames.length := (List.getElem?_eq_some_iff.mp hget).1
  have htake : (s.frames.take (s.written + 1)).flatten = s.stream := by
    rw [h.stream, hhand, hoffset, Option.getD_some, List.take_length, List.take_add_one, hget, List.flatten_append,
      Option.toList_some, List.flatten_singleton]
  have hstream (hand : Option Bytes) :
      s.stream = (s.frames.take (s.written + 1)).flatten ++ (hand.getD []).take 0 := by
    rw [htake, List.take_zero, List.append_nil]
  simp only [Framed.wrote] at hs
  split at hs
  · split at hs <;> cases hs
    · rename_i frame' chan hrecv
      refine ⟨h.sending.of_wires h.sending.held rfl fun _ => rfl, fun _ => ?_, hlt, hstream _, Nat.zero_le _⟩
      show s.frames.drop (s.written + 1) = frame' :: chan.queue
      rw [hdrop, Channel.recv_queue hrecv]
    · rename_i hrecv
      refine ⟨h.sending.of_wires h.sending.held rfl fun _ => rfl, fun _ => ?_, hlt, hstream _, Nat.zero_le _⟩
      exact hdrop
  · contradiction
  · cases hs

theorem Flow.put {frame : Bytes} {n : Nat} (h : s.Flow) (hhand : s.inHand = some frame)
    (hle : s.offset + n ≤ frame.length) :
    ({ s with offset := s.offset + n, stream := s.stream ++ (frame.drop s.offset).take n } : Streamed).Flow where
  sending := h.sending
  left := h.left
  written := h.written
  stream := by
    show s.stream ++ _ = (s.frames.take s.written).flatten ++ (s.inHand.getD []).take (s.offset + n)
    rw [h.stream, hhand, Option.getD_some, List.take_add, List.append_assoc]
  offset := by
    show s.offset + n ≤ (s.inHand.getD []).length
    rwa [hhand]

theorem Flow.hangUp (h : s.Flow) (hw : s.conn.writer = .receiving) :
    ({ s with conn := { s.conn with writer := .shuttingDown } } : Streamed).Flow := by
  have hnone : s.inHand = none := by rw [inHand, hw]
  refine h.of_frames (h.sending.of_wires h.sending.held rfl fun _ => rfl) rfl rfl rfl rfl (fun _ => ⟨?_, ?_⟩)
    (.inr hnone)
  · rw [hw]
    exact Writer.noConfusion
  · rw [hnone]
    rfl

theorem Flow.step {a : Act} (h : s.Flow) (ha : Writes ⟨now, s⟩ (.act a)) (hs : s.step decode now a = some t) :
    t.Flow := by
  cases a with
  | put n =>
    simp only [Streamed.step] at hs
    split at hs
    · rename_i frame hhand
      obtain ⟨⟨-, hle⟩, rfl⟩ := Option.ite_some_none_eq_some.mp hs
      exact h.put hhand hle
    · cases hs
  | hangUp =>
    obtain ⟨⟨hw, -⟩, rfl⟩ := Option.ite_some_none_eq_some.mp hs
    exact h.hangUp hw
  | act a =>
    cases a with
    | exchange q wire timeout =>
      obtain ⟨conn, hconn, rfl⟩ := Option.map_eq_some_iff.mp hs
      obtain ⟨call, hc, ho⟩ := h.sending.exchange hconn
      simp only [entering, hc]
      exact h.offer ho
    | resume q =>
      obtain ⟨conn, hconn, rfl⟩ := Option.map_eq_some_iff.mp hs
      obtain ⟨call, hc, ho⟩ := h.sending.resume hconn
      simp only [entering, hc]
      exact h.offer ho
    | session b =>
      obtain ⟨conn, hconn, rfl⟩ := Option.map_eq_some_iff.mp hs
      simp only [entering, List.append_nil]
      exact h.session hconn
    | recv =>
      obtain ⟨conn, hconn, rfl⟩ := Option.map_eq_some_iff.mp hs
      simp only [entering, List.append_nil]
      exact h.recv hconn
    | flushed ok =>
      obtain ⟨conn, hconn, rfl⟩ := Option.map_eq_some_iff.mp hs
      simp only [entering, List.append_nil]
      exact h.flushed hconn
    | shutdown =>
      obtain ⟨conn, hconn, rfl⟩ := Option.map_eq_some_iff.mp hs
      simp only [entering, List.append_nil]
      exact h.shutdown hconn
    | wrote ok =>
      obtain rfl : ok = true := ha
      simp only [Streamed.step] at hs
      split at hs
      · rename_i frame hhand
        split at hs
        · rename_i hoffset
          obtain ⟨conn, hconn, rfl⟩ := Option.map_eq_some_iff.mp hs
          exact h.wrote hhand hoffset hconn
        · cases hs
      · cases hs

/-- The frames that are in the stream whole, and the part of the next one. -/
theorem Flow.whole (h : s.Flow) : ∃ k part, s.stream = (s.frames.take k).flatten ++ part ∧
    (part = [] ∨ ∃ frame, s.inHand = some frame ∧ s.frames[k]? = some frame ∧ part <+: frame ∧ part ≠ frame) ∧
    (s.conn.writer ≠ .done → s.conn.chan.queue <:+ s.frames.drop k ∧
      (s.inHand = none → s.conn.chan.queue = s.frames.drop k)) := by
  have hstream := h.stream
  cases hhand : s.inHand with
  | none =>
    rw [hhand, Option.getD_none, List.take_nil] at hstream
    refine ⟨s.written, [], hstream, .inl rfl, fun hw => ?_⟩
    have hleft := h.left hw
    rw [hhand] at hleft
    exact ⟨hleft ▸ List.suffix_refl _, fun _ => hleft.symm⟩
  | some frame =>
    obtain ⟨hget, hdrop⟩ := h.written_succ hhand
    rw [hhand, Option.getD_some] at hstream
    have hoffset := h.offset
    rw [hhand, Option.getD_some] at hoffset
    rcases Nat.lt_or_eq_of_le hoffset with hlt | heq
    · refine ⟨s.written, frame.take s.offset, hstream, .inr ⟨frame, rfl, hget, List.take_prefix _ _, fun hf => ?_⟩,
        fun _ => ⟨?_, fun hnone => by cases hnone⟩⟩
      · have := congrArg List.length hf
        rw [List.length_take] at this
        omega
      · rw [← hdrop, ← List.drop_drop]
        exact List.drop_suffix 1 _
    · refine ⟨s.written + 1, [], ?_, .inl rfl, fun _ => ⟨hdrop ▸ List.suffix_refl _, fun hnone => by cases hnone⟩⟩
      rw [hstream, heq, List.take_length, List.take_add_one, hget, Option.toList_some, List.flatten_append,
        List.flatten_singleton, List.append_nil]

/-- What a reader makes of it. -/
theorem Flow.read {k : Nat} {part : Bytes} (h : s.Flow)
    (hpart : part = [] ∨ ∃ frame, s.frames[k]? = some frame ∧ part <+: frame ∧ part ≠ frame) {chunks : List Bytes}
    (hopen : Chunks.Open chunks) (hflat : chunks.flatten = (s.frames.take k).flatten ++ part) :
    readLoop chunks = .ok (s.messages.take k) := by
  have hfit : ∀ msg ∈ s.messages, lengthPrefix.Fits msg := by
    intro msg hmsg
    obtain ⟨q, hq, rfl⟩ := List.mem_map.mp hmsg
    exact fits_of_le (h.sending.size hq)
  have hcut : lengthPrefix.Cut part := by
    rcases hpart with rfl | ⟨frame, hget, hpre, hne⟩
    · exact Framing.cut_nil
    · rw [frames, List.getElem?_map] at hget
      obtain ⟨msg, hmsg, rfl⟩ := Option.map_eq_some_iff.mp hget
      exact (hfit msg (List.mem_of_getElem? hmsg)).cut hpre hne
  rw [frames, ← List.map_take, ← frame_eq] at hflat
  rw [readLoop_eq, Framing.readFrames_eq (fun msg hmsg => hfit msg (List.mem_of_mem_take hmsg)) hcut hopen hflat]

/-- The bytes that a connection writes without a write error are the frames of its
exchanges, in the order in which they entered the channel and each once, and of
the frame in hand a part. From any chunks of them, `readLoop` reads the messages
of the whole frames. So it does from the frames of any messages whose length has
16 bits; a longer one changes nothing but its own exchange. -/
theorem framing_round_trip {maxInFlight : Nat} {start : Instant} {t : Clocked Streamed}
    (h : Reach (clocked (Streamed.step decode)) Writes ⟨start, .spawn maxInFlight⟩ t) :
    (t.state.entered.Nodup ∧ ∃ k part, t.state.stream = (t.state.frames.take k).flatten ++ part ∧
      (part = [] ∨ ∃ frame, t.state.inHand = some frame ∧ t.state.frames[k]? = some frame ∧ part <+: frame ∧
        part ≠ frame) ∧
      (t.state.conn.writer ≠ .done → t.state.conn.chan.queue <:+ t.state.frames.drop k ∧
        (t.state.inHand = none → t.state.conn.chan.queue = t.state.frames.drop k)) ∧
      ∀ chunks, Chunks.Open chunks → chunks.flatten = t.state.stream →
        readLoop chunks = .ok (t.state.messages.take k)) ∧
    (∀ msgs : List Bytes, (∀ msg ∈ msgs, msg.length ≤ 65535) → ∀ chunks, Chunks.Open chunks →
      chunks.flatten = (msgs.map frameOf).flatten → readLoop chunks = .ok msgs) ∧
    ∀ q wire timeout, t.state.conn.calls q = none → 65535 < wire.length →
      ∃ u, t.state.conn.exchange t.now q wire timeout = some u ∧ u.session = t.state.conn.session ∧
        u.chan = t.state.conn.chan ∧ u.result q = some (.error (.protocol "query exceeds TCP length field")) := by
  have hflow : t.state.Flow := Lts.clocked_inv (I := fun _ s => s.Flow) h (.spawn maxInFlight) (fun _ _ _ _ hi => hi)
    fun s a u hC ha hi => hi.step hC ha
  obtain ⟨k, part, hstream, hpart, hqueue⟩ := hflow.whole
  refine ⟨⟨hflow.sending.nodup, k, part, hstream, hpart, hqueue, fun chunks hopen hflat => ?_⟩,
    fun msgs hlen chunks hopen hflat => ?_, fun q wire timeout hnone hlong => ?_⟩
  · exact hflow.read (hpart.imp_right fun ⟨frame, _, hframe⟩ => ⟨frame, hframe⟩) hopen (hflat.trans hstream)
  · rw [readLoop_eq, Framing.readFrames_eq (fun msg hmsg => fits_of_le (hlen msg hmsg)) Framing.cut_nil hopen]
    rw [hflat, List.append_nil, frame_eq]
  · simp only [Framed.exchange, hnone]
    rw [if_neg (by omega), if_pos hlong]
    refine ⟨_, rfl, rfl, rfl, ?_⟩
    simp [Framed.result, Framed.setCall, Call.result]

/-- A run to `framing_round_trip`: two exchanges, and the second frame is half written. -/
theorem framing_round_trip_two : ∃ t, Lts.run (clocked (Streamed.step rfc1035Header)) ⟨0, .spawn tcpInFlight⟩
      [.act (.act (.exchange 0 [0, 0] 5)), .act (.act (.exchange 1 [0, 0] 5)), .act (.act .recv), .act (.put 4),
        .act (.act (.wrote true)), .act (.put 2)] = some t ∧
    t.state.stream = [0, 2, 0, 0, 0, 2] ∧ t.state.entered.Nodup ∧
      ∃ k, readLoop [[0], [2, 0], [0, 0, 2]] = .ok (t.state.messages.take k) := by
  have hrun : ∃ t ∈ Lts.run (clocked (Streamed.step rfc1035Header)) ⟨0, .spawn tcpInFlight⟩
      [.act (.act (.exchange 0 [0, 0] 5)), .act (.act (.exchange 1 [0, 0] 5)), .act (.act .recv), .act (.put 4),
        .act (.act (.wrote true)), .act (.put 2)], t.state.stream = [0, 2, 0, 0, 0, 2] := by decide +kernel
  obtain ⟨t, ht, hstream⟩ := hrun
  obtain ⟨⟨hnodup, k, -, -, -, -, hread⟩, -⟩ := framing_round_trip (.of_along ht
    ⟨trivial, fun _ _ => ⟨trivial, fun _ _ => ⟨trivial, fun _ _ => ⟨trivial, fun _ _ => ⟨rfl, fun _ _ =>
      ⟨trivial, fun _ _ => trivial⟩⟩⟩⟩⟩⟩)
  exact ⟨t, ht, hstream, hnodup, k, hread _ (by simp [Chunks.Open]) (hstream ▸ rfl)⟩

end Streamed

end WireSurge.Dns
