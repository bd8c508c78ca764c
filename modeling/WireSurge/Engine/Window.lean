import Mathlib.Algebra.Order.BigOperators.Group.List
import WireSurge.Dns.Slots
import WireSurge.Engine.Conservation

/-!
# The window of an actor

An exchange holds its slot in the correlator from its first poll until it
returns, and all that time its future is in flight. So the pending slots are at
most the futures in flight, whatever becomes of them, and these are at most the
window (`bounded_window`): `register` finds an id that is free.
-/

namespace WireSurge.Engine

open Lts (Clocked Timed clocked)
open WireSurge.Dns (Bytes Correlator Duration Instant Outcome SlotKeeper Token Transport)

/-! ## The connection of an actor -/

namespace Actor

variable {T : Transport} {a b : Actor T} {now : Instant}

/-- What a step does to the connection and the exchanges in flight. -/
inductive Turn (now : Instant) (timeout : Duration) (a b : Actor T) : Prop
  | kept : b.conn = a.conn → b.inflight = a.inflight → Turn now timeout a b
  | started {f : Flight} : f ∈ a.inflight → T.start now timeout a.conn f.token f.wire = some b.conn →
    b.inflight = a.inflight.map (markPolled f.token) → Turn now timeout a b
  | resumed {q : Token} {r : T.Resume} : T.resume now a.conn q r = some b.conn → b.inflight = a.inflight →
    Turn now timeout a b
  | reacted {e : T.Event} : T.react now a.conn e = some b.conn → b.inflight = a.inflight → Turn now timeout a b
  | settled {f : Flight} {result : Outcome} : T.result a.conn f.token = some result → b.conn = a.conn →
    b.inflight = a.inflight.eraseP (fun g => g.token = f.token) → Turn now timeout a b

theorem turn_of_step {cap : Nat} {timeout : Duration} {cancelled : Bool} {x : Act T}
    (h : a.step cap timeout cancelled now x = some b) : Turn now timeout a b := by
  cases x with
  | connected | connectFailed | connectCancelled | guardFails | proceed | tick | cancelArm | finish | panic =>
    simp only [step, Option.ite_none_right_eq_some, Option.some.injEq] at h
    obtain ⟨-, rfl⟩ := h
    exact .kept rfl rfl
  | poll tok =>
    simp only [step, Option.ite_none_right_eq_some] at h
    obtain ⟨-, h⟩ := h
    split at h
    · rename_i f hf
      split at h
      · cases h
      · obtain ⟨conn, hc, rfl⟩ := Option.map_eq_some_iff.mp h
        obtain rfl := token_of_flight hf
        exact .started (List.mem_of_find?_eq_some hf) hc rfl
    · cases h
  | resume tok r =>
    simp only [step, Option.ite_none_right_eq_some] at h
    obtain ⟨-, h⟩ := h
    split at h
    · split at h
      · obtain ⟨conn, hc, rfl⟩ := Option.map_eq_some_iff.mp h
        exact .resumed hc rfl
      · cases h
    · cases h
  | settle tok =>
    simp only [step] at h
    split at h
    · rename_i f result hf hr
      obtain rfl := token_of_flight hf
      split at h
      · split at h <;> cases h <;> exact .settled hr rfl rfl
      · cases h
    · cases h
  | drainedAll | graceOver =>
    simp only [step] at h
    split at h
    · split at h <;> cases h
      exact .kept rfl rfl
    · cases h
  | react e =>
    simp only [step, Option.ite_none_right_eq_some] at h
    obtain ⟨-, h⟩ := h
    obtain ⟨conn, hc, rfl⟩ := Option.map_eq_some_iff.mp h
    exact .reacted hc rfl

/-- Every slot is that of an exchange in flight. -/
structure Tracked (K : SlotKeeper T) (a : Actor T) : Prop where
  inv : K.Inv a.conn
  flight {q : Token} : K.Holds a.conn q → ∃ f ∈ a.inflight, f.token = q

namespace Tracked

variable {K : SlotKeeper T}

theorem new (K : SlotKeeper T) (progress : Bool) : Tracked K (.new T progress) :=
  ⟨K.connect.1, fun h => absurd h (K.connect.2 _)⟩

/-- The connection is the same, and no exchange is gone. -/
theorem kept (h : Tracked K a) (hc : b.conn = a.conn) (hi : ∀ f ∈ a.inflight, ∃ g ∈ b.inflight, g.token = f.token) :
    Tracked K b := by
  refine ⟨hc ▸ h.inv, fun hq => ?_⟩
  obtain ⟨f, hf, rfl⟩ := h.flight (hc ▸ hq)
  exact hi f hf

theorem turn {timeout : Duration} (h : Tracked K a) (ht : Turn now timeout a b) : Tracked K b := by
  cases ht with
  | kept hc hi => exact h.kept hc fun f hf => ⟨f, hi ▸ hf, rfl⟩
  | @started f hf hs hi =>
    obtain ⟨hinv, hnew⟩ := K.start h.inv hs
    refine ⟨hinv, fun {q} hq => ?_⟩
    have hflight : ∃ g ∈ a.inflight, g.token = q := by
      rcases hnew q hq with rfl | hq
      · exact ⟨f, hf, rfl⟩
      · exact h.flight hq
    obtain ⟨g, hg, rfl⟩ := hflight
    refine ⟨markPolled f.token g, hi ▸ List.mem_map_of_mem hg, ?_⟩
    rw [markPolled]
    split <;> rfl
  | resumed hs hi =>
    obtain ⟨hinv, hold⟩ := K.resume h.inv hs
    exact ⟨hinv, fun hq => hi ▸ h.flight (hold _ hq)⟩
  | reacted hs hi =>
    obtain ⟨hinv, hold⟩ := K.react h.inv hs
    exact ⟨hinv, fun hq => hi ▸ h.flight (hold _ hq)⟩
  | @settled f result hr hc hi =>
    -- the exchange that leaves has returned, and so holds no slot
    refine ⟨hc ▸ h.inv, fun {q} hq => ?_⟩
    rw [hc] at hq
    obtain ⟨g, hg, rfl⟩ := h.flight hq
    have hne : g.token ≠ f.token := fun heq => K.result h.inv hr (heq ▸ hq)
    exact ⟨g, hi ▸ (List.mem_eraseP_of_neg (by simpa using hne)).mpr hg, rfl⟩

theorem outstanding_le (h : Tracked K a) {corr : Correlator} (hc : K.correlator a.conn = some corr) :
    corr.outstanding ≤ a.inflight.length := by
  have htokens : ∀ q, K.Holds a.conn q → q ∈ a.inflight.map Flight.token := fun q hq => by
    obtain ⟨f, hf, rfl⟩ := h.flight hq
    exact List.mem_map_of_mem hf
  simpa using K.outstanding_le h.inv hc htokens

end Tracked

end Actor

/-! ## Runs -/

/-- Who holds the slots of the connections of a run. -/
def LoadRun.keeper (run : LoadRun) : SlotKeeper run.transport := run.plan.config.proto.keeper run.target

/-- The correlator of an actor's connection. -/
def LoadRun.correlator (run : LoadRun) (a : Actor run.transport) : Option Correlator := run.keeper.correlator a.conn

/-- Admission bounds the product of the connections and their windows. -/
theorem ValidatedLoadPlan.aggregate_le (plan : ValidatedLoadPlan) :
    plan.config.concurrency * plan.config.inFlight ≤ maxAggregateInFlight := by
  have h := plan.valid
  simp only [LoadConfig.check, ResourceBudget.check, ResourceBudget.of, Core.bind_eq_ok, Core.failWhen_eq_ok,
    decide_eq_false_iff_not, not_lt, gt_iff_lt] at h
  obtain ⟨-, -, -, -, -, -, -, -, -, hle, -⟩ := h
  rw [saturatingMul] at hle
  simp only [maxAggregateInFlight] at hle ⊢
  omega

namespace Load

variable {run : LoadRun} {s t : Load run} {now : Instant} {x : Act run}

theorem tracked_step (h : ∀ w, (s.actors w).Tracked run.keeper) (hs : s.step now x = some t) :
    ∀ w, (t.actors w).Tracked run.keeper := by
  cases effect_of_step hs with
  | cancel => exact h
  | refused | waits | given => exact forall_setActor h ((h _).kept rfl fun f hf => ⟨f, hf, rfl⟩)
  | ready _ _ _ hr | opens _ _ _ hr =>
    obtain ⟨-, rfl⟩ := hr
    exact forall_setActor h ((h _).kept rfl fun f hf => ⟨f, List.mem_append_left _ hf, rfl⟩)
  | actor =>
    obtain ⟨a, ha, heq⟩ := Option.map_eq_some_iff.mp hs
    rw [← heq]
    exact forall_setActor h ((h _).turn (Actor.turn_of_step ha))

theorem Reachable.tracked {C : Clocked (Load run) → Timed (Act run) → Prop} {t : Clocked (Load run)}
    (h : Reachable C t) (w : run.Worker) : (t.state.actors w).Tracked run.keeper :=
  Lts.clocked_inv (I := fun _ s => ∀ w, (s.actors w).Tracked run.keeper) h (fun _ => .new _ _)
    (fun _ _ _ _ hi => hi) (fun _ _ _ _ hs hi => tracked_step hi hs) w

theorem totalInFlight_le (h : ∀ w, (s.actors w).inflight.length ≤ run.cap) :
    s.totalInFlight ≤ maxAggregateInFlight := by
  have hsum := List.sum_le_card_nsmul ((List.finRange run.concurrency).map fun w => (s.actors w).inflight.length)
    run.plan.config.inFlight fun n hn => by
      obtain ⟨w, -, rfl⟩ := List.mem_map.mp hn
      exact (h w).trans (min_le_right _ _)
  rw [List.length_map, List.length_finRange] at hsum
  exact hsum.trans run.plan.aggregate_le

/-- In every state of every run, an actor has at most its window in flight, and
its correlator has at most as many slots pending; so at any value of the counter
`register` takes an id that was not pending, with at most one probe more than
there are slots. All actors together have at most 4096 exchanges in flight. -/
theorem bounded_window {t : Clocked (Load run)} (h : Reachable Lts.Any t) :
    (∀ w, (t.state.actors w).inflight.length ≤ min run.transport.maxInFlight run.plan.config.inFlight) ∧
    (∀ w c, run.correlator (t.state.actors w) = some c →
      c.outstanding ≤ (t.state.actors w).inflight.length ∧
      ∀ (counter : UInt32) (wire : Bytes), ∃ k ≤ c.outstanding, Correlator.probed counter k ∉ c.pending ∧
        Correlator.probe c.pending (c.outstanding + 1) counter =
          some (Correlator.probed counter k, counter + UInt32.ofNat (k + 1)) ∧
        ∃ result, Correlator.register { c with counter } wire = some result ∧
          ∀ r c', result = .ok (r, c') →
            r.id = Correlator.probed counter k ∧ c'.counter = counter + UInt32.ofNat (k + 1)) ∧
    t.state.totalInFlight ≤ 4096 := by
  have hwindow (w : run.Worker) : (t.state.actors w).inflight.length ≤ run.cap := (h.conserved w).window
  refine ⟨hwindow, fun w c hc => ?_, totalInFlight_le hwindow⟩
  have hle := (h.tracked w).outstanding_le hc
  have hlt : c.outstanding < 2 ^ 16 := by
    have hin := run.plan.admitted.inFlight.2
    have hcap := (hwindow w).trans (min_le_right _ _)
    rw [maxInFlight] at hin
    omega
  refine ⟨hle, fun counter wire => ?_⟩
  obtain ⟨k, hk, hfree, hbusy⟩ := Correlator.exists_probed hlt counter
  exact ⟨k, hk, hfree, Correlator.probe_eq (Nat.lt_succ_of_le hk) hbusy hfree,
    Correlator.register_of_probed hfree hbusy (lt_of_le_of_lt hk hlt) wire⟩

/-- A run to `bounded_window`: one exchange in flight, with its slot, and a
counter about to wrap. -/
theorem bounded_window_one : ∃ t,
    Lts.run (clocked step) ⟨0, init countRun⟩ (answeredOnce.take 5) = some t ∧
      (t.state.actors countWorker).inflight.length = 1 ∧
      ∃ c, countRun.correlator (t.state.actors countWorker) = some c ∧ c.outstanding = 1 ∧
        ∃ k ≤ 1, Correlator.probed 0xffffffff k ∉ c.pending := by
  have hrun : ∃ t ∈ Lts.run (clocked step) ⟨0, init countRun⟩ (answeredOnce.take 5),
      (t.state.actors countWorker).inflight.length = 1 ∧
        ∃ c ∈ countRun.correlator (t.state.actors countWorker), c.outstanding = 1 := by decide +kernel
  obtain ⟨t, ht, hone, c, hc, hpending⟩ := hrun
  obtain ⟨-, hslots, -⟩ := bounded_window (Lts.Reach.of_run ht)
  obtain ⟨-, hfree⟩ := hslots countWorker c hc
  obtain ⟨k, hk, hnot, -⟩ := hfree 0xffffffff Dns.Session.queryA
  exact ⟨t, ht, hone, c, hc, hpending, k, hpending ▸ hk, hnot⟩

end Load

end WireSurge.Engine
