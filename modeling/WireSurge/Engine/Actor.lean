import WireSurge.Engine.WorkSource
import WireSurge.Metrics.Hist

/-!
# The connection actor

The loop of `run_actor` as a state machine: one state for each of its
suspensions, and for each place at which it looks at what other tasks change.
What an actor does without the shared work source is here (`Actor.step`); its
calls of `next` are in `Load.lean`.

An exchange future that has been pushed does nothing before its first poll, and
futures are polled only where the actor awaits `inflight.next()`.
`local_of_step` says once what a step can do.
-/

namespace WireSurge.Engine

open WireSurge.Dns (Bytes Duration Instant Outcome Token Transport)
open WireSurge.Metrics (LoadRecorder)

/-- How far a worker is. -/
inductive WorkerStatus
  | starting
  | running
  | done
  | failed
  deriving DecidableEq, Repr

/-- What the sampler sees of a worker. -/
structure WorkerSlot where
  recorder : LoadRecorder
  inFlight : Nat
  status : WorkerStatus

/-- The slot of a worker that has published nothing. -/
def WorkerSlot.default : WorkerSlot := { recorder := .new, inFlight := 0, status := .starting }

/-- An exchange future in the window. -/
structure Flight where
  index : Nat
  wire : Bytes
  token : Token
  started : Instant
  polled : Bool
  deriving DecidableEq

/-- Where an actor stands. -/
inductive Pc
  | connecting
  /-- At the guard of the fill loop. -/
  | filling
  /-- In `next`, suspended at the rate gate, since the call at `called`. -/
  | gated (index : Nat) (scheduled called : Instant)
  /-- Behind the fill loop. -/
  | filled
  /-- Suspended in the `select!`. -/
  | selecting
  /-- Cancelled, and waiting for exchanges to finish. -/
  | draining (until_ : Instant)
  /-- In `conn.drain`. -/
  | closing
  | done
  /-- The connect failed. -/
  | failed
  | panicked
  deriving DecidableEq

/-- The connection is established, and the actor has not returned. -/
def Pc.isLive : Pc → Bool
  | .connecting | .done | .failed | .panicked => false
  | _ => true

/-- The actor has returned. -/
def Pc.hasEnded : Pc → Bool
  | .done | .failed | .panicked => true
  | _ => false

/-- The actor awaits its exchanges. -/
def Pc.awaits : Pc → Bool
  | .selecting | .draining _ => true
  | _ => false

/-- The index whose slot is waited for. -/
def Pc.index? : Pc → Option Nat
  | .gated index _ _ => some index
  | _ => none

/-- `CANCEL_GRACE`, in seconds. -/
def cancelGrace : Duration := 250 / 1000

/-- An actor: its connection, its recorder and what it has in flight. -/
structure Actor (T : Transport) where
  pc : Pc
  conn : T.Conn
  recorder : LoadRecorder
  /-- The futures in flight; in `closing` and `done`, those the actor drops. -/
  inflight : List Flight
  noMoreWork : Bool
  slot : Option WorkerSlot
  /-- History: the actor took the cancellation arm. -/
  interrupted : Bool

namespace Actor

variable {T : Transport}

/-- An actor before its connect. -/
def new (T : Transport) (progress : Bool) : Actor T where
  pc := .connecting
  conn := T.connect
  recorder := .new
  inflight := []
  noMoreWork := false
  slot := if progress then some .default else none
  interrupted := false

/-- `publish_slot`, when there is a slot. -/
def publish (a : Actor T) (inFlight : Nat) (status : WorkerStatus) : Actor T :=
  { a with slot := a.slot.map fun _ => { recorder := a.recorder, inFlight, status } }

/-- The guard of the fill loop. -/
def mayCall (a : Actor T) (cap : Nat) (cancelled : Bool) : Bool :=
  a.inflight.length < cap && !cancelled && !T.isClosed a.conn && !a.noMoreWork

/-- `next` has returned a request. -/
def pushExchange (a : Actor T) (now : Instant) (index : Nat) (wire : Bytes) : Actor T :=
  { a with
    pc := .filling
    recorder := a.recorder.onSent
    inflight := a.inflight ++ [{ index, wire, token := a.recorder.sent, started := now, polled := false }] }

/-- `next` has returned `None`. -/
def exhaust (a : Actor T) : Actor T := { a with pc := .filled, noMoreWork := true }

/-- The microseconds of a duration, as the recorder gets them. -/
def micros (d : Duration) : Nat := min (d * 1_000_000).floor.toNat (2 ^ 64 - 1)

/-- The exchange of the query `tok` in flight. -/
def flight? (a : Actor T) (tok : Token) : Option Flight := a.inflight.find? fun f => f.token = tok

/-- The exchange of `tok` has been polled. -/
def markPolled (tok : Token) (f : Flight) : Flight := if f.token = tok then { f with polled := true } else f

/-- The recorder counts the outcome of an exchange, and the future is gone. -/
def settle (a : Actor T) (now : Instant) (f : Flight) (result : Outcome) (pc : Pc) : Actor T :=
  { a with
    pc
    recorder := a.recorder.record result (micros (now - f.started))
    inflight := a.inflight.eraseP fun g => g.token = f.token }

/-- What an actor does, and what its connection and its exchanges do. -/
inductive Act (T : Transport)
  | connected
  | connectFailed
  /-- Cancelled before the connection is there. -/
  | connectCancelled
  /-- The guard of the fill loop fails. -/
  | guardFails
  /-- On from the fill loop: out, around again, or into the `select!`. -/
  | proceed
  /-- The first poll of an exchange. -/
  | poll (tok : Token)
  | resume (tok : Token) (r : T.Resume)
  /-- `inflight.next()` gives the result of an exchange. -/
  | settle (tok : Token)
  | tick
  | cancelArm
  /-- Nothing is left to drain. -/
  | drainedAll
  | graceOver
  /-- `conn.drain` is over. -/
  | finish
  /-- A task behind the connection, or the peer. -/
  | react (e : T.Event)
  | panic

/-- What an act does to the actor, if it can be done. -/
def step (cap : Nat) (timeout : Duration) (cancelled : Bool) (now : Instant) (a : Actor T) :
    Act T → Option (Actor T)
  | .connected => if a.pc = .connecting ∧ ¬cancelled then some { a with pc := .filling } else none
  | .connectFailed =>
    if a.pc = .connecting ∧ ¬cancelled then
      some ({ a with pc := .failed, recorder := a.recorder.onConnError }.publish 0 .failed)
    else none
  | .connectCancelled =>
    if a.pc = .connecting ∧ cancelled then
      some ({ a with pc := .failed, recorder := a.recorder.onConnError }.publish 0 .failed)
    else none
  | .guardFails => if a.pc = .filling ∧ ¬a.mayCall cap cancelled then some { a with pc := .filled } else none
  | .proceed =>
    if a.pc = .filled then
      some { a with pc :=
        if a.inflight.isEmpty then
          if a.noMoreWork || cancelled || T.isClosed a.conn then .closing else .filling
        else .selecting }
    else none
  | .poll tok =>
    if a.pc.awaits then
      match a.flight? tok with
      | some f =>
        if f.polled then none
        else (T.start now timeout a.conn tok f.wire).map fun conn =>
          { a with conn, inflight := a.inflight.map (markPolled tok) }
      | none => none
    else none
  | .resume tok r =>
    if a.pc.awaits then
      match a.flight? tok with
      | some f => if f.polled then (T.resume now a.conn tok r).map fun conn => { a with conn } else none
      | none => none
    else none
  | .settle tok =>
    match a.flight? tok, T.result a.conn tok with
    | some f, some result =>
      if f.polled then
        match a.pc with
        | .selecting => some (a.settle now f result .filling)
        | .draining until_ => some (a.settle now f result (.draining until_))
        | _ => none
      else none
    | _, _ => none
  | .tick =>
    if a.pc = .selecting ∧ a.slot.isSome then
      some ({ a with pc := .filling }.publish a.inflight.length .running)
    else none
  | .cancelArm =>
    if a.pc = .selecting ∧ cancelled then
      some { a with pc := .draining (now + cancelGrace), interrupted := true }
    else none
  | .drainedAll =>
    match a.pc with
    | .draining _ => if a.inflight.isEmpty then some { a with pc := .closing } else none
    | _ => none
  | .graceOver =>
    match a.pc with
    | .draining until_ => if until_ ≤ now then some { a with pc := .closing } else none
    | _ => none
  | .finish => if a.pc = .closing then some ({ a with pc := .done }.publish 0 .done) else none
  | .react e =>
    if a.pc.isLive then (T.react now a.conn e).map fun conn => { a with conn } else none
  | .panic => if a.pc.isLive ∨ a.pc = .connecting then some { a with pc := .panicked } else none

/-! ## What a step does -/

/-- The steps by what they do to the counters and the window. -/
inductive Local (now : Instant) (cancelled : Bool) (a : Actor T) : Actor T → Prop
  | connected : a.pc = .connecting → Local now cancelled a { a with pc := .filling }
  | connectFailed : a.pc = .connecting →
    Local now cancelled a ({ a with pc := .failed, recorder := a.recorder.onConnError }.publish 0 .failed)
  /-- On to `pc`, with nothing else changed. -/
  | moved {pc : Pc} : a.pc = .filling ∧ pc = .filled ∨
      a.pc = .filled ∧ (pc = .filling ∧ a.noMoreWork = false ∨ pc = .selecting ∨ pc = .closing ∧ a.inflight = []) →
    Local now cancelled a { a with pc }
  | conn {conn : T.Conn} : a.pc.isLive → Local now cancelled a { a with conn }
  | polled {f : Flight} {conn : T.Conn} : a.pc.awaits → a.flight? f.token = some f →
    Local now cancelled a { a with conn, inflight := a.inflight.map (markPolled f.token) }
  | settled {f : Flight} {result : Outcome} {pc : Pc} : a.flight? f.token = some f → f.polled = true →
    a.pc = .selecting ∧ pc = .filling ∨ (∃ until_, a.pc = .draining until_ ∧ pc = a.pc) →
    Local now cancelled a (a.settle now f result pc)
  | tick : a.pc = .selecting →
    Local now cancelled a ({ a with pc := .filling }.publish a.inflight.length .running)
  | cancelArm : a.pc = .selecting → cancelled = true →
    Local now cancelled a { a with pc := .draining (now + cancelGrace), interrupted := true }
  | drained {until_ : Instant} : a.pc = .draining until_ → Local now cancelled a { a with pc := .closing }
  | finish : a.pc = .closing → Local now cancelled a ({ a with pc := .done }.publish 0 .done)
  | panic : a.pc.isLive ∨ a.pc = .connecting → Local now cancelled a { a with pc := .panicked }

theorem token_of_flight {a : Actor T} {tok : Token} {f : Flight} (h : a.flight? tok = some f) : f.token = tok := by
  simpa using List.find?_some h

theorem hasEnded_of_isLive {pc : Pc} (h : pc.isLive) : pc.hasEnded = false := by
  cases pc <;> first | rfl | cases h

theorem isLive_of_awaits {pc : Pc} (h : pc.awaits) : pc.isLive := by
  cases pc <;> first | rfl | cases h

theorem local_of_step {cap : Nat} {timeout : Duration} {cancelled : Bool} {now : Instant} {a b : Actor T} {x : Act T}
    (h : a.step cap timeout cancelled now x = some b) : Local now cancelled a b := by
  cases x with
  | connected =>
    simp only [step, Option.ite_none_right_eq_some, Option.some.injEq] at h
    obtain ⟨⟨hpc, -⟩, rfl⟩ := h
    exact .connected hpc
  | connectFailed | connectCancelled =>
    simp only [step, Option.ite_none_right_eq_some, Option.some.injEq] at h
    obtain ⟨⟨hpc, -⟩, rfl⟩ := h
    exact .connectFailed hpc
  | guardFails =>
    simp only [step, Option.ite_none_right_eq_some, Option.some.injEq] at h
    obtain ⟨⟨hpc, -⟩, rfl⟩ := h
    exact .moved (.inl ⟨hpc, rfl⟩)
  | proceed =>
    simp only [step, Option.ite_none_right_eq_some, Option.some.injEq] at h
    obtain ⟨hpc, rfl⟩ := h
    refine .moved (.inr ⟨hpc, ?_⟩)
    split
    · rename_i he
      split
      · exact .inr (.inr ⟨rfl, by simpa using he⟩)
      · rename_i hn
        simp only [Bool.or_eq_true, not_or, Bool.not_eq_true] at hn
        exact .inl ⟨rfl, hn.1.1⟩
    · exact .inr (.inl rfl)
  | poll tok =>
    simp only [step, Option.ite_none_right_eq_some] at h
    obtain ⟨hpc, h⟩ := h
    split at h
    · rename_i f hf
      obtain rfl := token_of_flight hf
      split at h
      · cases h
      · obtain ⟨conn, -, rfl⟩ := Option.map_eq_some_iff.mp h
        exact .polled hpc hf
    · cases h
  | resume tok r =>
    simp only [step, Option.ite_none_right_eq_some] at h
    obtain ⟨hpc, h⟩ := h
    split at h
    · split at h
      · obtain ⟨conn, -, rfl⟩ := Option.map_eq_some_iff.mp h
        exact .conn (isLive_of_awaits hpc)
      · cases h
    · cases h
  | settle tok =>
    simp only [step] at h
    split at h
    · rename_i f result hf hr
      obtain rfl := token_of_flight hf
      split at h
      · rename_i hpolled
        split at h
        · rename_i hpc
          cases h
          exact .settled hf hpolled (.inl ⟨hpc, rfl⟩)
        · rename_i until_ hpc
          cases h
          exact .settled hf hpolled (.inr ⟨until_, hpc, hpc.symm⟩)
        · cases h
      · cases h
    · cases h
  | tick =>
    simp only [step, Option.ite_none_right_eq_some, Option.some.injEq] at h
    obtain ⟨⟨hpc, -⟩, rfl⟩ := h
    exact .tick hpc
  | cancelArm =>
    simp only [step, Option.ite_none_right_eq_some, Option.some.injEq] at h
    obtain ⟨⟨hpc, hc⟩, rfl⟩ := h
    exact .cancelArm hpc hc
  | drainedAll | graceOver =>
    simp only [step] at h
    split at h
    · rename_i until_ hpc
      split at h <;> cases h
      exact .drained hpc
    · cases h
  | finish =>
    simp only [step, Option.ite_none_right_eq_some, Option.some.injEq] at h
    obtain ⟨hpc, rfl⟩ := h
    exact .finish hpc
  | react e =>
    simp only [step, Option.ite_none_right_eq_some] at h
    obtain ⟨hpc, h⟩ := h
    obtain ⟨conn, -, rfl⟩ := Option.map_eq_some_iff.mp h
    exact .conn hpc
  | panic =>
    simp only [step, Option.ite_none_right_eq_some, Option.some.injEq] at h
    obtain ⟨hpc, rfl⟩ := h
    exact .panic hpc

variable {now : Instant} {cancelled : Bool} {a b : Actor T}

/-- An actor comes to no slot by itself, and gives none up but by a panic. -/
theorem Local.slot (h : Local now cancelled a b) :
    b.pc = a.pc ∨ b.pc.index? = none ∧ (a.pc.index? = none ∨ b.pc = .panicked) := by
  cases h with
  | connected hpc | connectFailed hpc | tick hpc | cancelArm hpc | drained hpc | finish hpc =>
    refine .inr ⟨rfl, .inl ?_⟩
    rw [hpc]
    rfl
  | moved hm =>
    right
    rcases hm with ⟨hpc, rfl⟩ | ⟨hpc, ⟨rfl, -⟩ | rfl | ⟨rfl, -⟩⟩ <;> rw [hpc] <;> exact ⟨rfl, .inl rfl⟩
  | conn | polled => exact .inl rfl
  | settled _ _ hpc =>
    rcases hpc with ⟨hpc, rfl⟩ | ⟨u, hpc, rfl⟩
    · rw [hpc]
      exact .inr ⟨rfl, .inl rfl⟩
    · exact .inl rfl
  | panic => exact .inr ⟨rfl, .inr rfl⟩

/-- An actor that has returned takes no step. -/
theorem Local.not_ended (h : Local now cancelled a b) : a.pc.hasEnded = false := by
  cases h with
  | connected hpc | connectFailed hpc | tick hpc | cancelArm hpc | drained hpc | finish hpc => rw [hpc]; rfl
  | moved hm => rcases hm with ⟨hpc, -⟩ | ⟨hpc, -⟩ <;> rw [hpc] <;> rfl
  | conn hpc => exact hasEnded_of_isLive hpc
  | polled hpc => exact hasEnded_of_isLive (isLive_of_awaits hpc)
  | settled _ _ hpc => rcases hpc with ⟨hpc, -⟩ | ⟨until_, hpc, -⟩ <;> rw [hpc] <;> rfl
  | panic hpc =>
    rcases hpc with hpc | hpc
    · exact hasEnded_of_isLive hpc
    · rw [hpc]; rfl

theorem Local.not_panicked (h : Local now cancelled a b) : a.pc ≠ .panicked := by
  intro ha
  have hended := h.not_ended
  rw [ha] at hended
  cases hended

/-- Only a call of `next` sends, or ends the work. -/
theorem Local.kept (h : Local now cancelled a b) :
    b.recorder.sent = a.recorder.sent ∧ b.noMoreWork = a.noMoreWork := by
  cases h with
  | settled => exact ⟨LoadRecorder.sent_record _ _ _, rfl⟩
  | _ => exact ⟨rfl, rfl⟩

end Actor

end WireSurge.Engine
