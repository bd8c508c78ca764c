import Mathlib.Tactic.Linarith
import WireSurge.Dns.Correlation
import WireSurge.Dns.Deadline
import WireSurge.Lib.Channel

/-!
# A framed connection

The exchanges on one TCP or DoT connection: the correlator of `Exchange.lean`,
the bounded channel to the writer task, and the writer task. One step polls an
exchange, or a task, from one suspension to the next; the peer decides when a
write or a flush completes, and what the reader gets.

The timer of an exchange is armed on entry to `await_response`, behind the
`send`. When every exchange finds room in the channel, it is armed when the
exchange starts and covers all of it (`timeout_covers`); one that finds none
waits in `send` without a timer. `stalled` is a run, of one exchange at a
time, in which the writer is stuck and the channel fills up.
-/

namespace WireSurge.Dns

open Function (update)
open Lts (Clocked Timed clocked Reach)

/-- `TCP_IN_FLIGHT`. -/
def tcpInFlight : Nat := 256

/-- `DOT_IN_FLIGHT`. -/
def dotInFlight : Nat := 256

/-- Where an exchange stands. -/
inductive Stage
  /-- Suspended in `send`. -/
  | sending (frame : Bytes)
  /-- In `await_response`, at the point the session says. -/
  | awaiting
  /-- Over without `await_response`. -/
  | failed (error : TransportError)
  deriving DecidableEq

/-- A call of `exchange`, and how far it is. -/
structure Call where
  start : Instant
  timeout : Duration
  stage : Stage

/-- What the exchange has returned, by the phase of its query. -/
def Call.result (call : Call) (phase : Phase) : Option Outcome :=
  match call.stage, phase with
  | .failed error, _ => some (.error error)
  | .awaiting, .returned result => some result
  | _, _ => none

/-- Where the writer task stands. -/
inductive Writer
  | receiving
  /-- Suspended in `write_all`. -/
  | writing (frame : Bytes)
  | flushing
  | shuttingDown
  | done
  deriving DecidableEq

/-- `FramedConn`: the session, the channel to the writer, and the calls. -/
structure Framed where
  session : Session
  chan : Channel Token Bytes
  writer : Writer
  calls : Token → Option Call

/-- The `[u16 len][message]` frame of a message. -/
def frameOf (wire : Bytes) : Bytes :=
  let len := UInt16.ofNat wire.length
  (len >>> 8).toUInt8 :: (len &&& 0xff).toUInt8 :: wire

namespace Framed

/-- `FramedConn::spawn`. -/
def spawn (maxInFlight : Nat) : Framed where
  session := .new
  chan := .new (max maxInFlight 1)
  writer := .receiving
  calls _ := none

/-- The call of the query `q` becomes `call`. -/
def setCall (s : Framed) (q : Token) (call : Call) : Framed :=
  { s with calls := update s.calls q (some call) }

/-- The frame goes into the place that `q` has, and `await_response` is entered. -/
def handOver (now : Instant) (s : Framed) (q : Token) (call : Call) (frame : Bytes) : Option Framed :=
  (s.session.awaitResponse now q call.timeout).map fun session =>
    { s with session, chan := s.chan.send q frame }.setCall q { call with stage := .awaiting }

/-- The channel is closed: the query is cancelled. -/
def giveUp (s : Framed) (q : Token) (call : Call) : Option Framed :=
  (s.session.cancel q).map fun session =>
    { s with session }.setCall q { call with stage := .failed .connectionClosed }

/-- The first poll of `exchange`, up to its first suspension. -/
def exchange (now : Instant) (s : Framed) (q : Token) (wire : Bytes) (timeout : Duration) : Option Framed :=
  let call := { start := now, timeout, stage := .awaiting }
  match s.calls q with
  | some _ => none
  | none =>
    if wire.length < 2 then
      some (s.setCall q { call with stage := .failed (.protocol "query shorter than header") })
    else if wire.length > 65535 then
      some (s.setCall q { call with stage := .failed (.protocol "query exceeds TCP length field") })
    else
      (s.session.register q wire).bind fun session =>
        let frame := frameOf (session.queries q).wire
        match s.chan.reserve q with
        | (_, .refused) => { s with session }.giveUp q call
        | (chan, .granted) => { s with session, chan }.handOver now q call frame
        | (chan, .queued) => some ({ s with session, chan }.setCall q { call with stage := .sending frame })

/-- The poll of an exchange in `send`, once the channel has a place for it or
is closed. -/
def resume (now : Instant) (s : Framed) (q : Token) : Option Framed :=
  match s.calls q with
  | some call =>
    match call.stage with
    | .sending frame =>
      if q ∈ s.chan.granted then s.handOver now q call frame
      else if s.chan.closed then s.giveUp q call
      else none
    | _ => none
  | none => none

/-- `rx.recv()`: the writer takes the next frame and writes it. -/
def recv (s : Framed) : Option Framed :=
  match s.writer with
  | .receiving => s.chan.recv.map fun (frame, chan) => { s with chan, writer := .writing frame }
  | _ => none

/-- `write_all` completes: on to the next frame already queued, or the flush. -/
def wrote (s : Framed) (ok : Bool) : Option Framed :=
  match s.writer, ok with
  | .writing _, true =>
    match s.chan.recv with
    | some (frame, chan) => some { s with chan, writer := .writing frame }
    | none => some { s with writer := .flushing }
  | .writing _, false => some { s with writer := .shuttingDown }
  | _, _ => none

/-- The flush has ended; a writer that has failed shuts down. -/
def flushed (s : Framed) (ok : Bool) : Option Framed :=
  match s.writer with
  | .flushing => some { s with writer := if ok then .receiving else .shuttingDown }
  | _ => none

/-- `shutdown` completes: the task ends, and the receiver of the channel is
dropped. -/
def shutdown (s : Framed) : Option Framed :=
  match s.writer with
  | .shuttingDown => some { s with writer := .done, chan := s.chan.close }
  | _ => none

/-- What is done on the connection. -/
inductive Act
  | exchange (q : Token) (wire : Bytes) (timeout : Duration)
  | resume (q : Token)
  /-- A step of a waiter, a notification, or the reader. -/
  | session (a : Session.Act)
  | recv
  | wrote (ok : Bool)
  | flushed (ok : Bool)
  | shutdown

/-- What an act does to the connection, if it can be done. -/
def step (decode : HeaderDecoder) (now : Instant) (s : Framed) : Act → Option Framed
  | .exchange q wire timeout => s.exchange now q wire timeout
  | .resume q => s.resume now q
  | .session (.register _ _) | .session (.cancel _) | .session (.awaitResponse _ _) => none
  | .session a => (s.session.step decode now a).map fun session => { s with session }
  | .recv => s.recv
  | .wrote ok => s.wrote ok
  | .flushed ok => s.flushed ok
  | .shutdown => s.shutdown

/-- What the exchange has returned. -/
def result (s : Framed) (q : Token) : Option Outcome :=
  (s.calls q).bind fun call => call.result (s.session.queries q).phase

/-- The steps of the client alone: not the peer's, who decides what the reader
gets and when a write completes. -/
def Client : Act → Prop
  | .session (.complete _) | .session .close | .wrote _ | .flushed _ | .shutdown => False
  | _ => True

/-- The exchange returns by steps of the client, without time passing. -/
def Resolvable (decode : HeaderDecoder) (s : Clocked Framed) (q : Token) : Prop :=
  ∃ t, Reach (clocked (step decode)) (fun _ a => ∃ b, a = .act b ∧ Client b) s t ∧ (t.state.result q).isSome

/-- Where the exchange is suspended, a timer is armed for its timeout at the
latest. -/
def Timely (s : Framed) (q : Token) : Prop :=
  ∀ call, s.calls q = some call →
    match call.stage with
    | .sending _ => False
    | .awaiting => ∀ d, (s.session.queries q).phase = .parked d ∨ (s.session.queries q).phase = .notified d →
        d ≤ call.start + call.timeout
    | .failed _ => True

/-- An exchange that gets as far as `send` does not have to wait there. -/
def FindsRoom (s : Framed) : Act → Prop
  | .exchange _ wire _ => 2 ≤ wire.length → wire.length ≤ 65535 → s.chan.closed = true ∨ s.chan.HasRoom
  | _ => True

/-! ## On time -/

variable {decode : HeaderDecoder} {now : Instant} {s t : Framed}

/-- No exchange waits in `send`, and the deadline of every other counts from its
start. -/
structure OnTime (s : Framed) : Prop where
  slots : s.session.Slots
  noSend {q : Token} {call : Call} (frame : Bytes) : s.calls q = some call → call.stage ≠ .sending frame
  deadline {q : Token} {call : Call} : s.calls q = some call → call.stage = .awaiting →
    (s.session.queries q).phase.Until (call.start + call.timeout)

theorem OnTime.spawn (maxInFlight : Nat) : (Framed.spawn maxInFlight).OnTime where
  slots := .new
  noSend _ h := by cases h
  deadline h := by cases h

/-- The session gets on, and one exchange with it. -/
theorem OnTime.setCall {session : Session} {q : Token} {call : Call} (h : s.OnTime) (hs : session.Slots)
    (hu : ∀ q d, (s.session.queries q).phase.Until d → (session.queries q).phase.Until d)
    (hstage : ∀ frame, call.stage ≠ .sending frame)
    (hq : call.stage = .awaiting → (session.queries q).phase.Until (call.start + call.timeout))
    (ht : t.session = session) (hcalls : t.calls = update s.calls q (some call)) : t.OnTime := by
  refine ⟨by rw [ht]; exact hs, fun {q' call'} frame hc => ?_, fun {q' call'} hc hstage' => ?_⟩
  · rw [hcalls] at hc
    by_cases hne : q' = q
    · subst hne
      rw [Function.update_self, Option.some.injEq] at hc
      exact hc ▸ hstage frame
    · rw [Function.update_of_ne hne] at hc
      exact h.noSend frame hc
  · rw [hcalls] at hc
    rw [ht]
    by_cases hne : q' = q
    · subst hne
      rw [Function.update_self, Option.some.injEq] at hc
      subst hc
      exact hq hstage'
    · rw [Function.update_of_ne hne] at hc
      exact hu _ _ (h.deadline hc hstage')

theorem OnTime.session {a : Session.Act} {session : Session} (h : s.OnTime)
    (ha : s.session.step decode now a = some session) (ht : t.session = session) (hcalls : t.calls = s.calls) :
    t.OnTime := by
  have he := Session.step_effect h.slots ha
  refine ⟨by rw [ht]; exact h.slots.effect he, fun frame hc => h.noSend frame (by rwa [hcalls] at hc),
    fun hc hst => ?_⟩
  rw [hcalls] at hc
  rw [ht]
  exact Session.until_effect (h.deadline hc hst) he

/-- The state keeps its session and its calls. -/
theorem OnTime.of_eq (h : s.OnTime) (hs : t.session = s.session) (hc : t.calls = s.calls) : t.OnTime :=
  ⟨by rw [hs]; exact h.slots, fun frame hq => h.noSend frame (by rwa [hc] at hq),
    fun hq => by rw [hs]; rw [hc] at hq; exact h.deadline hq⟩

theorem OnTime.exchange (decode : HeaderDecoder) {q : Token} {wire : Bytes} {timeout : Duration} (h : s.OnTime)
    (hroom : s.FindsRoom (.exchange q wire timeout)) (hs : s.exchange now q wire timeout = some t) : t.OnTime := by
  unfold Framed.exchange at hs
  split at hs
  · cases hs
  · split at hs
    · cases hs
      exact h.setCall h.slots (fun _ _ hu => hu) (by simp) (by simp) rfl rfl
    · split at hs
      · cases hs
        exact h.setCall h.slots (fun _ _ hu => hu) (by simp) (by simp) rfl rfl
      · rename_i hmin hmax
        obtain ⟨session, hr, hs⟩ := Option.bind_eq_some_iff.mp hs
        have he : Session.Effect decode now s.session (.register q wire) session :=
          Session.register_effect hr
        have hsl := h.slots.effect he
        have hu (q : Token) (d : Instant) (hu : (s.session.queries q).phase.Until d) := Session.until_effect hu he
        cases hc : s.chan.closed with
        | true =>
          -- refused: the slot is given back
          simp only [Channel.reserve_of_closed hc, giveUp, Option.map_eq_some_iff] at hs
          obtain ⟨session', hcancel, rfl⟩ := hs
          have he' : Session.Effect decode now session (.cancel q) session' :=
            Session.cancel_effect hsl hcancel
          exact h.setCall (hsl.effect he') (fun q d h => Session.until_effect (hu q d h) he') (by simp) (by simp) rfl
            rfl
        | false =>
          have hr := (hroom (by omega) (by omega)).resolve_left (by simp [hc])
          simp only [Channel.reserve_of_room hc hr, handOver, Option.map_eq_some_iff] at hs
          obtain ⟨session', hawait, rfl⟩ := hs
          have ht : Session.Turn now session session' := Session.awaitResponse_turn hawait
          refine h.setCall (hsl.moved ht.moved) (fun q d h => Session.until_turn (hu q d h) ht) (by simp)
            (fun _ => ?_) rfl rfl
          simp only [Session.awaitResponse] at hawait
          split at hawait <;> cases hawait
          simp [Phase.Until]

theorem session_of_step {a : Session.Act} (h : s.step decode now (.session a) = some t) :
    ∃ session, s.session.step decode now a = some session ∧ { s with session } = t := by
  cases a <;> first | exact Option.map_eq_some_iff.mp h | cases h

theorem OnTime.step {a : Act} (h : s.OnTime) (hroom : s.FindsRoom a) (hs : s.step decode now a = some t) :
    t.OnTime := by
  cases a with
  | exchange q wire timeout => exact h.exchange decode hroom hs
  | resume q =>
    simp only [Framed.step, resume] at hs
    split at hs
    · rename_i call hc
      split at hs
      · rename_i frame hst
        exact absurd hst (h.noSend frame hc)
      · cases hs
    · cases hs
  | session a =>
    obtain ⟨session, ha, rfl⟩ := session_of_step hs
    exact h.session ha rfl rfl
  | recv =>
    simp only [Framed.step, recv] at hs
    split at hs
    · obtain ⟨⟨frame, chan⟩, -, rfl⟩ := Option.map_eq_some_iff.mp hs
      exact h.of_eq rfl rfl
    · cases hs
  | wrote ok =>
    simp only [Framed.step, wrote] at hs
    split at hs
    · split at hs <;> cases hs <;> exact h.of_eq rfl rfl
    · cases hs; exact h.of_eq rfl rfl
    · cases hs
  | flushed ok =>
    simp only [Framed.step, flushed] at hs
    split at hs <;> cases hs
    exact h.of_eq rfl rfl
  | shutdown =>
    simp only [Framed.step, shutdown] at hs
    split at hs <;> cases hs
    exact h.of_eq rfl rfl

theorem step_session {q : Token} {a : Session.Act} (ha : Session.Own q a) :
    s.step decode now (.session a) = (s.session.step decode now a).map fun session => { s with session } := by
  rcases ha with rfl | rfl | rfl | rfl <;> rfl

theorem client_of_own {q : Token} {a : Session.Act} (ha : Session.Own q a) : Client (.session a) := by
  rcases ha with rfl | rfl | rfl | rfl <;> trivial

/-- The waiter's own steps, as steps of the connection. -/
theorem Resolvable.of_finishes {q : Token} {call : Call} (hc : s.calls q = some call) (hst : call.stage = .awaiting)
    (h : Session.Finishes decode now s.session q) : Resolvable decode ⟨now, s⟩ q := by
  obtain ⟨result, u, hu, hr⟩ := h
  have hlift : ∀ x : Clocked Session, Reach (clocked (Session.step decode))
      (fun _ a => ∃ b, a = .act b ∧ Session.Own q b) ⟨now, s.session⟩ x →
      Reach (clocked (Framed.step decode)) (fun _ a => ∃ b, a = .act b ∧ Client b) ⟨now, s⟩
        ⟨x.now, { s with session := x.state }⟩ := fun x hx => by
    refine Lts.Reach.inv (I := fun x => Reach (clocked (Framed.step decode)) (fun _ a => ∃ b, a = .act b ∧ Client b)
      ⟨now, s⟩ ⟨x.now, { s with session := x.state }⟩) hx (.refl _) ?_
    rintro x _ y hx ⟨b, rfl, hown⟩ hstep
    obtain ⟨w, hw, rfl⟩ := Lts.clocked_act.mp hstep
    refine hx.tail (a := .act (.session b)) ⟨_, rfl, client_of_own hown⟩ (Lts.clocked_act.mpr ⟨_, ?_, rfl⟩)
    rw [step_session hown, hw]
    rfl
  refine ⟨_, hlift _ hu, ?_⟩
  simp [Framed.result, Call.result, hc, hst, hr]

theorem OnTime.resolvable {q : Token} {call : Call} (h : s.OnTime) (hc : s.calls q = some call)
    (hd : call.start + call.timeout ≤ now) : Resolvable decode ⟨now, s⟩ q := by
  cases hst : call.stage with
  | sending frame => exact absurd hst (h.noSend frame hc)
  | failed error => exact ⟨_, .refl _, by simp [Framed.result, Call.result, hc, hst]⟩
  | awaiting => exact .of_finishes hc hst (Session.times_out h.slots (h.deadline hc hst) hd)

theorem OnTime.timely {q : Token} (h : s.OnTime) : s.Timely q := by
  intro call hc
  cases hst : call.stage with
  | sending frame => exact absurd hst (h.noSend frame hc)
  | failed error => trivial
  | awaiting =>
    intro d hd
    have hu := h.deadline hc hst
    rcases hd with hd | hd <;> rw [hd] at hu <;> exact le_of_eq hu

/-- `FindsRoom`, for the steps of the clocked system. -/
def FindsRoomAt (s : Clocked Framed) : Timed Act → Prop
  | .elapse _ => True
  | .act a => s.state.FindsRoom a

/-- On a connection on which no exchange has to wait in `send`, whatever the
peer does: every exchange has a timer armed for its timeout wherever it is
suspended, and once that is past it returns by the client's steps alone. -/
theorem timeout_covers {maxInFlight : Nat} {start : Instant} {t : Clocked Framed}
    (h : Reach (clocked (step decode)) FindsRoomAt ⟨start, spawn maxInFlight⟩ t) {q : Token} {call : Call}
    (hq : t.state.calls q = some call) :
    t.state.Timely q ∧ (call.start + call.timeout ≤ t.now → Resolvable decode t q) := by
  have ht : t.state.OnTime := Lts.clocked_inv (I := fun _ s => s.OnTime) h (.spawn maxInFlight)
    (fun _ _ _ _ hi => hi) fun _ _ _ hC ha hi => hi.step hC ha
  exact ⟨ht.timely, ht.resolvable hq⟩

/-- A run to `timeout_covers`: a query without a reply, at its timeout. -/
theorem timeout_covers_queryA : ∃ t call,
    Lts.run (clocked (step rfc1035Header)) ⟨0, spawn tcpInFlight⟩
      [.act (.exchange 0 Session.queryA 5), .act (.session (.poll 0)), .elapse 5] = some t ∧
      t.state.calls 0 = some call ∧ t.state.Timely 0 ∧ Resolvable rfc1035Header t 0 := by
  have hrun : ∃ t ∈ Lts.run (clocked (step rfc1035Header)) ⟨0, spawn tcpInFlight⟩
      [.act (.exchange 0 Session.queryA 5), .act (.session (.poll 0)), .elapse 5],
      t.now = 5 ∧ ∃ call ∈ t.state.calls 0, call.start = 0 ∧ call.timeout = 5 := by decide +kernel
  obtain ⟨t, ht, hnow, call, hcall, hstart, htimeout⟩ := hrun
  obtain ⟨htimely, hres⟩ := timeout_covers (.of_along ht
    ⟨fun _ _ => .inr ⟨rfl, by decide⟩, fun _ _ => ⟨trivial, fun _ _ => ⟨trivial, fun _ _ => trivial⟩⟩⟩) hcall
  exact ⟨t, call, ht, hcall, htimely, hres (by rw [hstart, htimeout, hnow]; norm_num)⟩

/-- Once the writer is gone, an exchange fails in its first poll. -/
theorem result_of_closed (hc : s.chan.closed = true) {q : Token} {wire : Bytes} {timeout : Duration}
    (h : s.exchange now q wire timeout = some t) : ∃ error, t.result q = some (.error error) := by
  have hresult {s : Framed} {call : Call} {error : TransportError} (hf : call.stage = .failed error) :
      (s.setCall q call).result q = some (.error error) := by
    simp [result, setCall, Call.result, hf]
  unfold exchange at h
  split at h
  · cases h
  · split at h
    · cases h
      exact ⟨_, hresult rfl⟩
    · split at h
      · cases h
        exact ⟨_, hresult rfl⟩
      · obtain ⟨session, -, h⟩ := Option.bind_eq_some_iff.mp h
        simp only [Channel.reserve_of_closed hc, giveUp] at h
        obtain ⟨session', -, rfl⟩ := Option.map_eq_some_iff.mp h
        exact ⟨_, hresult rfl⟩

/-- An exchange that starts on time stays so exactly when it finds room. -/
theorem exchange_timely_iff {q : Token} {wire : Bytes} {timeout : Duration}
    (h : s.exchange now q wire timeout = some t) : t.Timely q ↔ s.FindsRoom (.exchange q wire timeout) := by
  unfold exchange at h
  split at h
  · cases h
  · split at h
    · rename_i hmin
      cases h
      simp only [Timely, setCall, Function.update_self, Option.some.injEq, forall_eq', FindsRoom, true_iff]
      omega
    · split at h
      · rename_i hmax
        cases h
        simp only [Timely, setCall, Function.update_self, Option.some.injEq, forall_eq', FindsRoom, true_iff]
        omega
      · rename_i hmin hmax
        obtain ⟨session, -, h⟩ := Option.bind_eq_some_iff.mp h
        have hlen : 2 ≤ wire.length ∧ wire.length ≤ 65535 := by omega
        simp only [FindsRoom, hlen, forall_const]
        cases hc : s.chan.closed with
        | true =>
          simp only [Channel.reserve_of_closed hc, giveUp, Option.map_eq_some_iff] at h
          obtain ⟨session', -, rfl⟩ := h
          simp [Timely, setCall]
        | false =>
          by_cases hr : s.chan.HasRoom
          · simp only [Channel.reserve_of_room hc hr, handOver, Option.map_eq_some_iff] at h
            obtain ⟨session', hawait, rfl⟩ := h
            simp only [Session.awaitResponse] at hawait
            split at hawait <;> cases hawait
            simp [Timely, setCall, hr]
          · simp only [Channel.reserve_of_full hc hr, Option.some.injEq] at h
            subst h
            simp [Timely, setCall, hr]

/-! ## Stalled -/

/-- Suspended in `send`, and the writer in `write_all`. -/
structure Stuck (s : Framed) (q : Token) : Prop where
  sending : ∃ call frame, s.calls q = some call ∧ call.stage = .sending frame
  writing : ∃ frame, s.writer = .writing frame
  noPlace : q ∉ s.chan.granted
  opened : s.chan.closed = false

theorem Stuck.of_eq {q : Token} (h : s.Stuck q) (hc : t.calls q = s.calls q) (hw : t.writer = s.writer)
    (hg : q ∈ t.chan.granted → q ∈ s.chan.granted) (ho : t.chan.closed = s.chan.closed) : t.Stuck q :=
  ⟨by rw [hc]; exact h.sending, by rw [hw]; exact h.writing, fun hm => h.noPlace (hg hm), ho.trans h.opened⟩

/-- Only the peer gets an exchange out of there. -/
theorem Stuck.step {q : Token} {a : Act} (h : s.Stuck q) (ha : Client a) (hs : s.step decode now a = some t) :
    t.Stuck q := by
  obtain ⟨call, frame, hcall, hst⟩ := h.sending
  obtain ⟨f, hw⟩ := h.writing
  cases a with
  | exchange q' wire timeout =>
    have hne : q' ≠ q := by
      rintro rfl
      simp [Framed.step, exchange, hcall] at hs
    simp only [Framed.step, exchange] at hs
    split at hs
    · cases hs
    · split at hs
      · cases hs
        exact h.of_eq (by simp [setCall, hne.symm]) rfl (fun hm => hm) rfl
      · split at hs
        · cases hs
          exact h.of_eq (by simp [setCall, hne.symm]) rfl (fun hm => hm) rfl
        · obtain ⟨session, -, hs⟩ := Option.bind_eq_some_iff.mp hs
          by_cases hr : s.chan.HasRoom
          · simp only [Channel.reserve_of_room h.opened hr, handOver, Option.map_eq_some_iff] at hs
            obtain ⟨session', -, rfl⟩ := hs
            refine h.of_eq (by simp [setCall, hne.symm]) rfl (fun hm => ?_) rfl
            have hm := List.mem_of_mem_erase hm
            rw [List.mem_append, List.mem_singleton] at hm
            exact hm.resolve_right hne.symm
          · simp only [Channel.reserve_of_full h.opened hr, Option.some.injEq] at hs
            subst hs
            exact h.of_eq (by simp [setCall, hne.symm]) rfl (fun hm => hm) rfl
  | resume q' =>
    simp only [Framed.step, resume] at hs
    split at hs
    · rename_i call' hcall'
      split at hs
      · split at hs
        · rename_i hg
          have hne : q' ≠ q := fun he => h.noPlace (he ▸ hg)
          simp only [handOver, Option.map_eq_some_iff] at hs
          obtain ⟨session', -, rfl⟩ := hs
          exact h.of_eq (by simp [setCall, hne.symm]) rfl List.mem_of_mem_erase rfl
        · rw [h.opened] at hs
          cases hs
      · cases hs
    · cases hs
  | session a =>
    obtain ⟨session, -, rfl⟩ := session_of_step hs
    exact h.of_eq rfl rfl (fun hm => hm) rfl
  | recv => simp [Framed.step, recv, hw] at hs
  | wrote | flushed | shutdown => exact ha.elim

theorem Stuck.not_resolvable {q : Token} (h : s.Stuck q) : ¬ Resolvable decode ⟨now, s⟩ q := by
  rintro ⟨t, ht, hr⟩
  have hstuck : t.state.Stuck q := by
    refine Lts.Reach.inv (I := fun x => x.state.Stuck q) ht h ?_
    rintro x _ y hx ⟨b, rfl, hb⟩ hstep
    obtain ⟨w, hw, rfl⟩ := Lts.clocked_act.mp hstep
    exact hx.step hb hw
  obtain ⟨call, frame, hcall, hst⟩ := hstuck.sending
  simp [Framed.result, Call.result, hcall, hst] at hr

/-- No exchange is under way, `k` have been so far, and there are `n` frames in
the channel. -/
structure Quiet (s : Framed) (k n : Nat) : Prop where
  slots (id : UInt16) : s.session.corr.pending.find id = none
  opened : s.session.corr.closed = false
  idle (h : Handle) : s.session.notifies h = .new
  chanOpen : s.chan.closed = false
  granted : s.chan.granted = []
  waiting : s.chan.waiting = []
  frames : s.chan.queue.length = n
  fresh {q : Token} : k ≤ q → s.calls q = none ∧ (s.session.queries q).phase = .fresh

theorem Quiet.spawn (maxInFlight : Nat) : (Framed.spawn maxInFlight).Quiet 0 0 :=
  ⟨fun _ => rfl, rfl, fun _ => rfl, rfl, rfl, rfl, rfl, fun _ => ⟨rfl, rfl⟩⟩

theorem slotFor_queryA (h : Handle) (a b : UInt8) :
    ∃ slot, Correlator.slotFor h (a :: b :: Session.queryA.drop 2) = .ok slot := by
  have hq : questionRange (a :: b :: Session.queryA.drop 2) = .ok (some (12, 19)) := by
    rw [questionRange_patch a b 0 0]
    decide +kernel
  simp only [Correlator.slotFor, hq, bind, Except.bind]
  exact ⟨_, rfl⟩

theorem register_queryA {c : Correlator} (h : ∀ id, c.pending.find id = none) :
    ∃ r c', c.register Session.queryA = some (.ok (r, c')) := by
  have hp : Correlator.probe c.pending (2 ^ 16) c.counter = some (c.counter.toUInt16, c.counter + 1) := by
    rw [show (2 : Nat) ^ 16 = 65535 + 1 from rfl, Correlator.probe, if_neg (Pending.find_eq_none.mp (h _))]
  obtain ⟨slot, hs⟩ := slotFor_queryA c.popNotify.1 (c.counter.toUInt16 >>> 8).toUInt8
    (c.counter.toUInt16 &&& 0xff).toUInt8
  exact ⟨_, _, Correlator.register_ok hp hs⟩

variable (decode now) in
/-- One exchange that gets no reply: it leaves its frame in the channel, and
nothing else. -/
theorem Quiet.round {k n : Nat} (h : s.Quiet k n) (hn : n < s.chan.capacity) :
    ∃ t, Reach (clocked (step decode)) Lts.Any ⟨now, s⟩ ⟨now + 5, t⟩ ∧ t.Quiet (k + 1) (n + 1) ∧
      t.chan.capacity = s.chan.capacity ∧ t.writer = s.writer := by
  obtain ⟨hcall, hfresh⟩ := h.fresh (Nat.le_refl k)
  obtain ⟨r, corr, hreg⟩ := register_queryA h.slots
  obtain ⟨-, -, -, hclosed, slot, hpending, hnotify, hresp, -⟩ := Correlator.register_spec hreg
  have hroom : s.chan.HasRoom := ⟨h.waiting, by rw [h.granted, h.frames]; simpa using hn⟩
  let query (phase : Phase) (removedAt : Option Nat) : Query :=
    { id := r.id, notify := r.notify, wire := r.wire, phase, registeredAt := s.session.datagrams.length,
      removedAt, source := none }
  let chan := { s.chan with queue := s.chan.queue ++ [frameOf r.wire] }
  let calls := update s.calls k (some { start := now, timeout := 5, stage := .awaiting })
  let at_ (phase : Phase) (n : Notify Token) : Framed :=
    { session := { s.session with
        corr, queries := update s.session.queries k (query phase none)
        notifies := update s.session.notifies r.notify n
        owner := update s.session.owner r.id k }
      chan, writer := s.writer, calls }
  have hself : update s.session.notifies r.notify .new = s.session.notifies := by
    rw [← h.idle r.notify, Function.update_eq_self]
  have h1 : s.step decode now (.exchange k Session.queryA 5) = some (at_ (.looping (now + 5)) .new) := by
    have hlen : Session.queryA.length = 19 := rfl
    simp only [Framed.step, exchange, hcall, hlen, Session.register, hfresh, hreg,
      Channel.reserve_of_room h.chanOpen hroom]
    simp [handOver, Session.awaitResponse, at_, Session.setPhase, setCall, Channel.send, h.granted, hself, query, chan,
      calls]
  have h2 : (at_ (.looping (now + 5)) .new).step decode now (.session (.poll k)) =
      some (at_ (.parked (now + 5)) (.waiting [k])) := by
    simp [Framed.step, Session.step, Session.poll, at_, query, Notify.notified, Notify.new, Session.setPhase,
      Session.setNotify]
  have h3 : (at_ (.parked (now + 5)) (.waiting [k])).step decode (now + 5) (.session (.expire k)) =
      some (at_ (.running (now + 5) false) .new) := by
    simp [Framed.step, Session.step, Session.expire, at_, query, Notify.leave, Notify.new, Session.setPhase,
      Session.setNotify]
  have hl : corr.pending.find r.id = some slot := by rw [hpending, Pending.find_insert]
  have hv : Correlator.verdict slot corr.closed false = some (.error .timeout) := by
    rw [Correlator.verdict, hresp, hclosed, h.opened]
    rfl
  have h4 : (at_ (.running (now + 5) false) .new).step decode (now + 5) (.session (.check k)) =
      some { at_ (.running (now + 5) false) .new with
        session := (at_ (.running (now + 5) false) .new).session.leave k (corr.recycle r.id slot)
          (.returned (.error .timeout)) none } := by
    simp [Framed.step, Session.step, Session.check, at_, query, Correlator.check_of_lookup hl, hv, hl, hresp]
  refine ⟨_, ((((Lts.Reach.refl _).tail trivial (Lts.clocked_act.mpr ⟨_, h1, rfl⟩)).tail trivial
    (Lts.clocked_act.mpr ⟨_, h2, rfl⟩)).tail trivial (Lts.clocked_elapse.mpr ⟨by norm_num, rfl⟩)).tail trivial
    (Lts.clocked_act.mpr ⟨_, h3, rfl⟩) |>.tail trivial (Lts.clocked_act.mpr ⟨_, h4, rfl⟩), ?_, rfl, rfl⟩
  refine ⟨fun id => ?_, ?_, fun h' => ?_, h.chanOpen, h.granted, h.waiting, by simp [at_, chan, h.frames],
    fun {q} hq => ?_⟩
  · by_cases hid : id = r.id
    · subst hid; simp [at_, Session.leave, Correlator.recycle]
    · simp [at_, Session.leave, Correlator.recycle, Pending.find_erase_ne hid, hpending, Pending.find_insert_ne hid,
        h.slots]
  · simp [at_, Session.leave, Correlator.recycle, hclosed, h.opened]
  · simp [at_, Session.leave, hself, h.idle]
  · have hne : q ≠ k := by
      rintro rfl
      exact absurd hq (Nat.not_succ_le_self _)
    simpa [at_, Session.leave, hne, calls] using h.fresh (Nat.le_of_succ_le hq)

variable (decode now) in
/-- Any number of them, one after the other, while there is room. -/
theorem Quiet.rounds {k n : Nat} (m : Nat) (h : s.Quiet k n) (hn : n + m ≤ s.chan.capacity) :
    ∃ now' t, Reach (clocked (step decode)) Lts.Any ⟨now, s⟩ ⟨now', t⟩ ∧ t.Quiet (k + m) (n + m) ∧
      t.chan.capacity = s.chan.capacity ∧ t.writer = s.writer := by
  induction m generalizing s k n now with
  | zero => exact ⟨now, s, .refl _, h, rfl, rfl⟩
  | succ m ih =>
    obtain ⟨t, ht, hq, hcap, hw⟩ := h.round decode now (by omega)
    obtain ⟨now', u, hu, hq', hcap', hw'⟩ := ih (now + 5) hq (by omega)
    refine ⟨now', u, ht.trans hu, ?_, hcap'.trans hcap, hw'.trans hw⟩
    rwa [Nat.add_right_comm, Nat.add_right_comm n] at hq'

/-- The first frame is being written and never will be, the others fill the
channel, and the next exchange waits for a place, past its timeout. -/
theorem exists_stuck (decode : HeaderDecoder) (maxInFlight : Nat) : ∃ now t q call,
    Reach (clocked (step decode)) Lts.Any ⟨0, Framed.spawn maxInFlight⟩ ⟨now, t⟩ ∧ t.Stuck q ∧
      t.calls q = some call ∧ call.start + call.timeout < now := by
  let cap := max maxInFlight 1
  obtain ⟨t1, ht1, hq1, hcap1, hw1⟩ := (Quiet.spawn maxInFlight).round decode 0 (show 0 < cap by omega)
  -- the writer takes the first frame
  obtain ⟨frame, hframe⟩ := List.length_eq_one_iff.mp hq1.frames
  let t2 : Framed := { t1 with chan := { t1.chan with queue := [] }, writer := .writing frame }
  have h2 : t1.step decode (0 + 5) .recv = some t2 := by
    simp [Framed.step, recv, hw1, Framed.spawn, Channel.recv, hframe, hq1.waiting, t2]
  have hq2 : t2.Quiet 1 0 := ⟨hq1.slots, hq1.opened, hq1.idle, hq1.chanOpen, hq1.granted, hq1.waiting, rfl, hq1.fresh⟩
  have hcap2 : t2.chan.capacity = cap := hcap1
  obtain ⟨now, t3, ht3, hq3, hcap3, hw3⟩ := hq2.rounds decode (0 + 5) cap (by rw [hcap2]; omega)
  -- no place for the next
  obtain ⟨hcall, hfresh⟩ := hq3.fresh (Nat.le_refl (1 + cap))
  obtain ⟨r, corr, hreg⟩ := register_queryA hq3.slots
  have hfull : ¬ t3.chan.HasRoom := fun hr => by
    have := hr.2
    rw [hq3.frames, hcap3, hcap2] at this
    omega
  have h4 : ∃ t4, t3.step decode now (.exchange (1 + cap) Session.queryA 5) = some t4 ∧ t4.Stuck (1 + cap) ∧
      ∃ call, t4.calls (1 + cap) = some call ∧ call.start = now ∧ call.timeout = 5 := by
    have hlen : Session.queryA.length = 19 := rfl
    simp only [Framed.step, exchange, hcall, hlen, Session.register, hfresh, hreg,
      Channel.reserve_of_full hq3.chanOpen hfull]
    refine ⟨_, rfl, ⟨⟨_, _, by simp only [setCall, Function.update_self]; rfl, rfl⟩, ⟨frame, hw3⟩, ?_, hq3.chanOpen⟩,
      _, by simp only [setCall, Function.update_self]; rfl, rfl, rfl⟩
    simp [setCall, hq3.granted]
  obtain ⟨t4, h4, hstuck, call, hcall4, hstart, htimeout⟩ := h4
  refine ⟨now + 6, t4, 1 + cap, call, ?_, hstuck, hcall4, by rw [hstart, htimeout]; linarith⟩
  exact ((((ht1.tail trivial (Lts.clocked_act.mpr ⟨_, h2, rfl⟩)).trans ht3).tail trivial
    (Lts.clocked_act.mpr ⟨_, h4, rfl⟩)).tail trivial (Lts.clocked_elapse.mpr ⟨by norm_num, rfl⟩))

/-- On a TCP connection, an exchange that waits for a place in the channel is
suspended without a timer, and past its timeout only the peer gets it on. -/
theorem stalled :
    ¬ ∀ (t : Clocked Framed) (q : Token) (call : Call),
      Reach (clocked (step rfc1035Header)) Lts.Any ⟨0, spawn tcpInFlight⟩ t → t.state.calls q = some call →
      t.state.Timely q ∧ (call.start + call.timeout ≤ t.now → Resolvable rfc1035Header t q) := by
  intro h
  obtain ⟨now, t, q, call, ht, hstuck, hcall, hnow⟩ := exists_stuck rfc1035Header tcpInFlight
  exact hstuck.not_resolvable ((h ⟨now, t⟩ q call ht hcall).2 hnow.le)

end Framed

end WireSurge.Dns
