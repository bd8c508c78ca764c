import Mathlib.Tactic.Linarith
import WireSurge.Dns.Slots

/-!
# Draining a connection

`Connection::drain` as a state machine: the correlator is looked at every two
milliseconds until it has no slot pending, or until the grace is over; the drain
of a DoH connection has nothing to wait for. A drain that is polled whenever it
can be is over two milliseconds after its grace at the latest (`Drain.By`).
-/

namespace WireSurge.Dns

/-- `is_idle`. -/
def Correlator.isIdle (c : Correlator) : Bool := c.pending.keys.isEmpty

theorem Correlator.isIdle_of_outstanding {c : Correlator} (h : c.outstanding = 0) : c.isIdle = true := by
  rw [isIdle, List.isEmpty_iff]
  exact List.length_eq_zero_iff.mp h

/-- The sleep between two looks, in seconds. -/
def drainPoll : Duration := 2 / 1000

/-- Where a call of `drain` stands. -/
inductive Drain
  /-- At the head of its loop. -/
  | looking (deadline : Instant)
  | sleeping (deadline wake : Instant)
  | drained
  deriving DecidableEq

/-- `drain` is called. -/
def LoadProto.drain (proto : LoadProto) (now : Instant) (grace : Duration) : Drain :=
  match proto with
  | .do53Udp | .do53Tcp | .dot => .looking (now + grace)
  | .doh => .drained

namespace Drain

def step (idle : Bool) (now : Instant) : Drain → Option Drain
  | .looking deadline =>
    some (if idle then .drained else if deadline ≤ now then .drained else .sleeping deadline (now + drainPoll))
  | .sleeping deadline wake => if wake ≤ now then some (.looking deadline) else none
  | .drained => none

/-- The drain gets on, or its caller does, before the time. -/
def canRun (before : Instant) : Drain → Bool
  | .looking _ | .drained => true
  | .sleeping _ wake => wake < before

/-- The grace is over by `b`, and the drain is on its way. -/
def By (b now : Instant) : Drain → Prop
  | .looking deadline => deadline ≤ b ∧ now ≤ deadline + drainPoll
  | .sleeping deadline wake => deadline ≤ b ∧ now ≤ wake ∧ wake ≤ deadline + drainPoll
  | .drained => now ≤ b + drainPoll

variable {b b' now : Instant} {d d' : Drain} {idle : Bool}

theorem drainPoll_pos : 0 < drainPoll := by norm_num [drainPoll]

theorem By.le (h : d.By b now) : now ≤ b + drainPoll := by
  cases d with
  | looking deadline =>
    obtain ⟨hb, hnow⟩ := h
    linarith
  | sleeping deadline wake =>
    obtain ⟨hb, hnow, hwake⟩ := h
    linarith
  | drained => exact h

theorem By.mono (h : d.By b now) (hb : b ≤ b') : d.By b' now := by
  cases d with
  | looking deadline => exact ⟨h.1.trans hb, h.2⟩
  | sleeping deadline wake => exact ⟨h.1.trans hb, h.2⟩
  | drained =>
    have hle := h.le
    show now ≤ b' + drainPoll
    linarith

theorem By.start {proto : LoadProto} {grace : Duration} (hgrace : 0 ≤ grace) (hb : now + grace ≤ b) :
    (proto.drain now grace).By b now := by
  have hpoll := drainPoll_pos
  have hlooking : (looking (now + grace)).By b now := ⟨hb, by linarith⟩
  cases proto with
  | do53Udp | do53Tcp | dot => exact hlooking
  | doh => exact hlooking.le

/-- A look that goes on is before the deadline, so the sleep is over soon after it. -/
theorem By.step (h : d.By b now) (hs : d.step idle now = some d') : d'.By b now := by
  have hpoll := drainPoll_pos
  cases d with
  | looking deadline =>
    have hle := h.le
    rw [Drain.step, Option.some.injEq] at hs
    split at hs
    · rw [← hs]
      exact hle
    · split at hs
      · rw [← hs]
        exact hle
      · rename_i hlt
        have hlt' := not_le.mp hlt
        rw [← hs]
        exact ⟨h.1, by linarith, by linarith⟩
  | sleeping deadline wake =>
    obtain ⟨hb, hnow, hwake⟩ := h
    simp only [Drain.step, Option.ite_none_right_eq_some, Option.some.injEq] at hs
    obtain ⟨-, rfl⟩ := hs
    exact ⟨hb, hnow.trans hwake⟩
  | drained => cases hs

/-- Time passes up to the end of a sleep. -/
theorem By.elapse {dt : Duration} (h : d.By b now) (hrun : d.canRun (now + dt) = false) : d.By b (now + dt) := by
  cases d with
  | looking deadline => cases hrun
  | sleeping deadline wake =>
    obtain ⟨hb, -, hwake⟩ := h
    exact ⟨hb, not_lt.mp (of_decide_eq_false hrun), hwake⟩
  | drained => cases hrun

end Drain

end WireSurge.Dns
