import WireSurge.Dns.Stream

/-!
# The writer of a connection that buffers

The writer of a TLS stream takes the bytes it is given into a buffer of its own, and
sends of it what it likes; `flush` returns when all of it has been sent. `Buffered`
keeps with the stream of a connection how much of it is on the socket. The write
loop flushes before it waits for a frame: whenever it waits, all that was written is on the
socket (`Settled`), and if no frame is queued the peer can read every message that
was handed over (`flushed_when_idle`).
-/

namespace WireSurge.Dns

open Lts (Clocked Timed clocked Reach)

/-- The stream of a connection, of which `sent` bytes are on the socket. -/
structure Buffered where
  streamed : Streamed
  sent : Nat

namespace Buffered

def spawn (maxInFlight : Nat) : Buffered := { streamed := .spawn maxInFlight, sent := 0 }

/-- The bytes that the peer can read. -/
def socket (s : Buffered) : Bytes := s.streamed.stream.take s.sent

inductive Act
  | act (a : Streamed.Act)
  /-- The writer sends `n` bytes of its buffer. -/
  | push (n : Nat)

def step (decode : HeaderDecoder) (now : Instant) (s : Buffered) : Act → Option Buffered
  | .act (.act (.flushed true)) =>
    -- `flush` returns when nothing is left in the buffer
    if s.sent = s.streamed.stream.length then
      (s.streamed.step decode now (.act (.flushed true))).map fun streamed => { s with streamed }
    else none
  | .act a => (s.streamed.step decode now a).map fun streamed => { s with streamed }
  | .push n => if s.sent + n ≤ s.streamed.stream.length then some { s with sent := s.sent + n } else none

/-- No write fails. -/
def Writes : Clocked Buffered → Timed Act → Prop
  | _, .act (.act (.act (.wrote ok))) => ok = true
  | _, _ => True

/-! ## What is on the socket -/

variable {decode : HeaderDecoder} {now : Instant} {s t : Buffered}

/-- A writer that waits for a frame has sent what it was given. -/
structure Settled (s : Buffered) : Prop where
  flow : s.streamed.Flow
  sent : s.sent ≤ s.streamed.stream.length
  flushed : s.streamed.conn.writer = .receiving → s.sent = s.streamed.stream.length

end Buffered

/-- A step of the connection writes more, or does not; and only a flush makes the writer
wait for a frame again. -/
theorem Streamed.written_of_step {decode : HeaderDecoder} {now : Instant} {s t : Streamed} {a : Streamed.Act}
    (hflow : s.Flow) (h : s.step decode now a = some t) : s.stream <+: t.stream ∧
      (t.conn.writer = .receiving → t.stream = s.stream ∧ (s.conn.writer = .receiving ∨ a = .act (.flushed true))) := by
  cases a with
  | put n =>
    simp only [step] at h
    split at h
    · rename_i frame hhand
      obtain ⟨-, rfl⟩ := Option.ite_some_none_eq_some.mp h
      refine ⟨List.prefix_append _ _, fun hw => ?_⟩
      rw [inHand, hw] at hhand
      cases hhand
    · cases h
  | hangUp =>
    obtain ⟨-, rfl⟩ := Option.ite_some_none_eq_some.mp h
    exact ⟨List.prefix_rfl, fun hw => by simp at hw⟩
  | act a =>
    cases a with
    | wrote ok =>
      cases ok with
      | true =>
        simp only [step] at h
        split at h
        · split at h
          · obtain ⟨conn, hconn, rfl⟩ := Option.map_eq_some_iff.mp h
            refine ⟨List.prefix_rfl, fun hw => ?_⟩
            simp only [Framed.wrote] at hconn
            split at hconn
            · split at hconn <;> cases hconn <;> cases hw
            · cases hconn
              cases hw
            · cases hconn
          · cases h
        · cases h
      | false =>
        obtain ⟨conn, hconn, rfl⟩ := Option.map_eq_some_iff.mp h
        refine ⟨List.prefix_rfl, fun hw => ?_⟩
        simp only [Framed.step, Framed.wrote] at hconn
        split at hconn
        · contradiction
        · cases hconn
          cases hw
        · cases hconn
    | flushed ok =>
      obtain ⟨conn, hconn, rfl⟩ := Option.map_eq_some_iff.mp h
      refine ⟨List.prefix_rfl, fun hw => ⟨rfl, .inr ?_⟩⟩
      simp only [Framed.step, Framed.flushed] at hconn
      split at hconn <;> cases hconn
      cases ok with
      | true => rfl
      | false => cases hw
    | recv =>
      obtain ⟨conn, hconn, rfl⟩ := Option.map_eq_some_iff.mp h
      refine ⟨List.prefix_rfl, fun hw => ?_⟩
      simp only [Framed.step, Framed.recv] at hconn
      split at hconn
      · obtain ⟨r, -, rfl⟩ := Option.map_eq_some_iff.mp hconn
        cases hw
      · cases hconn
    | shutdown =>
      obtain ⟨conn, hconn, rfl⟩ := Option.map_eq_some_iff.mp h
      refine ⟨List.prefix_rfl, fun hw => ?_⟩
      simp only [Framed.step, Framed.shutdown] at hconn
      split at hconn <;> cases hconn
      cases hw
    | session b =>
      obtain ⟨conn, hconn, rfl⟩ := Option.map_eq_some_iff.mp h
      obtain ⟨session, -, rfl⟩ := Framed.session_of_step hconn
      exact ⟨List.prefix_rfl, fun hw => ⟨rfl, .inl hw⟩⟩
    | exchange q wire timeout =>
      obtain ⟨conn, hconn, rfl⟩ := Option.map_eq_some_iff.mp h
      obtain ⟨call, -, ho⟩ := hflow.sending.exchange hconn
      exact ⟨List.prefix_rfl, fun hw => ⟨rfl, .inl (ho.writer.symm.trans hw)⟩⟩
    | resume q =>
      obtain ⟨conn, hconn, rfl⟩ := Option.map_eq_some_iff.mp h
      obtain ⟨call, -, ho⟩ := hflow.sending.resume hconn
      exact ⟨List.prefix_rfl, fun hw => ⟨rfl, .inl (ho.writer.symm.trans hw)⟩⟩

namespace Buffered

variable {decode : HeaderDecoder} {now : Instant} {s t : Buffered}

theorem Settled.spawn (maxInFlight : Nat) : (Buffered.spawn maxInFlight).Settled where
  flow := .spawn maxInFlight
  sent := le_rfl
  flushed _ := rfl

theorem step_act {a : Streamed.Act} (h : s.step decode now (.act a) = some t) :
    s.streamed.step decode now a = some t.streamed ∧ t.sent = s.sent ∧
      (a = .act (.flushed true) → s.sent = s.streamed.stream.length) := by
  rw [Buffered.step.eq_def] at h
  split at h
  · rename_i heq
    cases heq
    simp only [Option.ite_none_right_eq_some] at h
    obtain ⟨hfull, h⟩ := h
    obtain ⟨streamed, hstep, rfl⟩ := Option.map_eq_some_iff.mp h
    exact ⟨hstep, rfl, fun _ => hfull⟩
  · rename_i a' hne heq
    cases heq
    obtain ⟨streamed, hstep, rfl⟩ := Option.map_eq_some_iff.mp h
    exact ⟨hstep, rfl, fun ha => absurd ha hne⟩
  · rename_i heq
    cases heq

theorem Settled.step {a : Act} (h : s.Settled) (ha : Writes ⟨now, s⟩ (.act a)) (hs : s.step decode now a = some t) :
    t.Settled := by
  cases a with
  | act a =>
    obtain ⟨hstep, hsent, hflush⟩ := step_act hs
    have hwrites : Streamed.Writes ⟨now, s.streamed⟩ (.act a) := by
      cases a with
      | act a => cases a <;> exact ha
      | put | hangUp => trivial
    have hflow : t.streamed.Flow := h.flow.step hwrites hstep
    obtain ⟨hpre, hwait⟩ := Streamed.written_of_step h.flow hstep
    refine ⟨hflow, ?_, fun hw => ?_⟩
    · rw [hsent]
      exact h.sent.trans hpre.length_le
    · obtain ⟨hstream, hw'⟩ := hwait hw
      rw [hsent, hstream]
      exact hw'.elim h.flushed hflush
  | push n =>
    obtain ⟨hle, rfl⟩ := Option.ite_some_none_eq_some.mp hs
    refine ⟨h.flow, hle, fun hw => ?_⟩
    have hfull : s.sent = s.streamed.stream.length := h.flushed hw
    exact le_antisymm hle (hfull ▸ Nat.le_add_right _ _)

/-- Whatever the writer sends of its buffer and when, and without a write error: when the
write loop waits for a frame, all the bytes written are on the socket. If no frame
is queued then, these are the frames of all the messages handed over, and from any
chunks of them a reader reads those messages. -/
theorem flushed_when_idle {maxInFlight : Nat} {start : Instant} {t : Clocked Buffered}
    (h : Reach (clocked (step decode)) Writes ⟨start, .spawn maxInFlight⟩ t)
    (hwriter : t.state.streamed.conn.writer = .receiving) :
    t.state.socket = t.state.streamed.stream ∧
    (t.state.streamed.conn.chan.queue = [] → t.state.socket = t.state.streamed.frames.flatten ∧
      ∀ chunks, Chunks.Open chunks → chunks.flatten = t.state.socket →
        readLoop chunks = .ok t.state.streamed.messages) := by
  have hsettled : t.state.Settled := Lts.clocked_inv (I := fun _ s => s.Settled) h (.spawn maxInFlight)
    (fun _ _ _ _ hi => hi) fun s a u hC ha hi => hi.step hC ha
  have hsocket : t.state.socket = t.state.streamed.stream := by
    rw [socket, hsettled.flushed hwriter, List.take_length]
  refine ⟨hsocket, fun hqueue => ?_⟩
  have hnone : t.state.streamed.inHand = none := by rw [Streamed.inHand, hwriter]
  -- no frame is left to write
  obtain ⟨k, part, hstream, hpart, hleft⟩ := hsettled.flow.whole
  have hdrop : t.state.streamed.frames.drop k = [] := by
    rw [← (hleft (by rw [hwriter]; exact Writer.noConfusion)).2 hnone, hqueue]
  have hpart' : part = [] := by
    rcases hpart with hpart | ⟨frame, hhand, -⟩
    · exact hpart
    · rw [hnone] at hhand
      cases hhand
  have hframes : t.state.streamed.frames.take k = t.state.streamed.frames :=
    List.take_of_length_le (List.drop_eq_nil_iff.mp hdrop)
  have hmessages : t.state.streamed.messages.take k = t.state.streamed.messages := by
    apply List.take_of_length_le
    have hle := List.drop_eq_nil_iff.mp hdrop
    rwa [Streamed.frames, List.length_map] at hle
  rw [hpart', hframes, List.append_nil] at hstream
  refine ⟨hsocket.trans hstream, fun chunks hopen hflat => ?_⟩
  rw [← hmessages]
  refine hsettled.flow.read (.inl (rfl : ([] : Bytes) = [])) hopen ?_
  rw [hflat, hsocket, hstream, hframes, List.append_nil]

/-- A run to `flushed_when_idle`: a burst of two, the second frame half sent before the flush. -/
def burst : List (Timed Act) :=
  let act (a : Framed.Act) : Timed Act := .act (.act (.act a))
  [act (.exchange 0 [0, 0] 5), act (.exchange 1 [0, 0] 5), act .recv, .act (.act (.put 4)), act (.wrote true),
    .act (.push 4), .act (.act (.put 4)), act (.wrote true), .act (.push 2), .act (.push 2), act (.flushed true)]

theorem flushed_when_idle_burst : ∃ t,
    Lts.run (clocked (step rfc1035Header)) ⟨0, .spawn tcpInFlight⟩ burst = some t ∧
      t.state.socket = [0, 2, 0, 0, 0, 2, 0, 1] ∧
      readLoop [[0], [2, 0], [0, 0, 2, 0, 1]] = .ok t.state.streamed.messages := by
  have hrun : ∃ t ∈ Lts.run (clocked (step rfc1035Header)) ⟨0, .spawn tcpInFlight⟩ burst,
      t.state.streamed.conn.writer = .receiving ∧ t.state.streamed.conn.chan.queue = [] ∧
        t.state.socket = [0, 2, 0, 0, 0, 2, 0, 1] := by decide +kernel
  have hC : Lts.Along (clocked (step rfc1035Header)) Writes ⟨0, .spawn tcpInFlight⟩ burst := by
    refine ⟨trivial, fun _ _ => ⟨trivial, fun _ _ => ⟨trivial, fun _ _ => ⟨trivial, fun _ _ => ⟨rfl, fun _ _ => ?_⟩⟩⟩⟩⟩
    exact ⟨trivial, fun _ _ => ⟨trivial, fun _ _ => ⟨rfl, fun _ _ => ⟨trivial, fun _ _ => ⟨trivial, fun _ _ =>
      ⟨trivial, fun _ _ => trivial⟩⟩⟩⟩⟩⟩
  obtain ⟨t, ht, hwriter, hqueue, hsocket⟩ := hrun
  obtain ⟨-, hidle⟩ := flushed_when_idle (.of_along ht hC) hwriter
  obtain ⟨-, hread⟩ := hidle hqueue
  exact ⟨t, ht, hsocket, hread _ (by simp [Chunks.Open]) (hsocket ▸ rfl)⟩

end Buffered

end WireSurge.Dns
