import Mathlib.Data.List.FinRange
import WireSurge.Engine.Actor
import WireSurge.Lib.Run

/-!
# A load run

The actors of a run on their one work source: the shared counter, the
cancellation token, and the requests that `next` has returned, as history. A
step is a step of one actor, a part of its call of `next`, or the cancellation.

`effect_of_step` says once what a step does; `Reachable.inv` is the induction
over runs, under a condition on their steps where a result needs one.
-/

namespace WireSurge.Engine

open Function (update)
open Lts (Clocked Timed clocked Reach)
open WireSurge.Dns (Bytes Duration Instant)
open WireSurge.Metrics (LoadRecorder)

/-- An actor, by its worker id. -/
abbrev LoadRun.Worker (run : LoadRun) := Fin run.concurrency

/-- A request that `next` returned: to whom, the index behind it, the wire, and
the times of the call and of the return. -/
structure Admission (run : LoadRun) where
  worker : run.Worker
  index : Nat
  wire : Bytes
  called : Instant
  returned : Instant

/-- The actors of a run over one `WorkSource`. -/
structure Load (run : LoadRun) where
  seq : Nat
  cancelled : Bool
  actors : run.Worker → Actor run.transport
  /-- History, the latest first. -/
  admissions : List (Admission run)

namespace Load

variable {run : LoadRun}

/-- No actor is connected, and no index drawn. -/
def init (run : LoadRun) : Load run where
  seq := 0
  cancelled := false
  actors _ := .new run.transport run.progress
  admissions := []

/-- The actor of `w` becomes `a`. -/
def setActor (s : Load run) (w : run.Worker) (a : Actor run.transport) : Load run :=
  { s with actors := update s.actors w a }

/-- The part of `next` behind the wait, for the index of a call at `called`. -/
def request (s : Load run) (now : Instant) (w : run.Worker) (index : Nat) (called : Instant) : Option (Load run) :=
  match run.work.request index with
  | some (.ok wire) =>
    some ({ s with admissions := ⟨w, index, wire, called, now⟩ :: s.admissions }.setActor w
      ((s.actors w).pushExchange now index wire))
  | some (.error _) => some (s.setActor w { s.actors w with pc := .panicked })
  | none => none

/-- The guard of the fill loop and the call of `next`, up to its wait. -/
def callNext (s : Load run) (now : Instant) (w : run.Worker) : Option (Load run) :=
  let a := s.actors w
  if a.pc = .filling ∧ a.mayCall run.cap s.cancelled then
    let s' := { s with seq := s.seq + 1 }
    match run.work.begin s.seq now with
    | .refused => some (s'.setActor w a.exhaust)
    | .wait scheduled => some (s'.setActor w { a with pc := .gated s.seq scheduled now })
    | .ready => s'.request now w s.seq now
    | .panicked => some (s'.setActor w { a with pc := .panicked })
  else none

/-- The slot of a waiting call has come; a cancelled call returns `None` all the
same. -/
def gateOpens (s : Load run) (now : Instant) (w : run.Worker) : Option (Load run) :=
  match (s.actors w).pc with
  | .gated index scheduled called =>
    if scheduled ≤ now then
      if s.cancelled then some (s.setActor w (s.actors w).exhaust) else s.request now w index called
    else none
  | _ => none

/-- A waiting call is cancelled. -/
def gateCancelled (s : Load run) (w : run.Worker) : Option (Load run) :=
  match (s.actors w).pc with
  | .gated _ _ _ => if s.cancelled then some (s.setActor w (s.actors w).exhaust) else none
  | _ => none

/-- What is done in a run: calls of `next` are apart from the other acts of actors. -/
inductive Act (run : LoadRun)
  | cancel
  | callNext (w : run.Worker)
  | gateOpens (w : run.Worker)
  | gateCancelled (w : run.Worker)
  | actor (w : run.Worker) (x : Actor.Act run.transport)

/-- What an act does to the run, if it can be done. -/
def step (now : Instant) (s : Load run) : Act run → Option (Load run)
  | .cancel => some { s with cancelled := true }
  | .callNext w => s.callNext now w
  | .gateOpens w => s.gateOpens now w
  | .gateCancelled w => s.gateCancelled w
  | .actor w x => ((s.actors w).step run.cap run.timeout s.cancelled now x).map (s.setActor w)

/-- The states a run comes to by steps that meet `C`. -/
def Reachable (C : Clocked (Load run) → Timed (Act run) → Prop) (t : Clocked (Load run)) : Prop :=
  Reach (clocked step) C ⟨run.start, init run⟩ t

/-! ## The end of a run -/

/-- What joining an actor's task gives: its recorder, or nothing when it panicked. -/
def joined (a : Actor run.transport) : Option LoadRecorder :=
  if a.pc = .panicked then none else some a.recorder

/-- `merge_actor_result`. -/
def mergeActorResult (aggregate : LoadRecorder) (result : Option LoadRecorder) : LoadRecorder :=
  aggregate.merge (result.getD LoadRecorder.new.onConnError)

/-- The aggregate of all workers, joined in the order of their ids. -/
def aggregate (s : Load run) : LoadRecorder :=
  ((List.finRange run.concurrency).map fun w => joined (s.actors w)).foldl mergeActorResult .new

/-! ## What a step does -/

/-- `next` returns the request for an index that a call at `called` drew. -/
structure Returns (s : Load run) (now : Instant) (w : run.Worker) (index : Nat) (called : Instant)
    (wire : Bytes) (t : Load run) : Prop where
  request : run.work.request index = some (.ok wire)
  eq : t = { s with admissions := ⟨w, index, wire, called, now⟩ :: s.admissions }.setActor w
    ((s.actors w).pushExchange now index wire)

/-- What an act can do to the run, said once. -/
inductive Effect (now : Instant) (s : Load run) : Act run → Load run → Prop
  | cancel : Effect now s .cancel { s with cancelled := true }
  | refused {w : run.Worker} : (s.actors w).pc = .filling → (s.actors w).mayCall run.cap s.cancelled →
    run.work.begin s.seq now = .refused →
    Effect now s (.callNext w) ({ s with seq := s.seq + 1 }.setActor w (s.actors w).exhaust)
  | waits {w : run.Worker} {scheduled : Instant} :
    (s.actors w).pc = .filling → (s.actors w).mayCall run.cap s.cancelled →
    run.work.begin s.seq now = .wait scheduled →
    Effect now s (.callNext w)
      ({ s with seq := s.seq + 1 }.setActor w { s.actors w with pc := .gated s.seq scheduled now })
  | ready {w : run.Worker} {wire : Bytes} {t : Load run} :
    (s.actors w).pc = .filling → (s.actors w).mayCall run.cap s.cancelled →
    run.work.begin s.seq now = .ready → Returns { s with seq := s.seq + 1 } now w s.seq now wire t →
    Effect now s (.callNext w) t
  | opens {w : run.Worker} {index : Nat} {scheduled called : Instant} {wire : Bytes} {t : Load run} :
    (s.actors w).pc = .gated index scheduled called → scheduled ≤ now → s.cancelled = false →
    Returns s now w index called wire t → Effect now s (.gateOpens w) t
  | given {w : run.Worker} {x : Act run} {index : Nat} {scheduled called : Instant} :
    (s.actors w).pc = .gated index scheduled called → s.cancelled = true →
    x = .gateOpens w ∨ x = .gateCancelled w →
    Effect now s x (s.setActor w (s.actors w).exhaust)
  | actor {w : run.Worker} {x : Actor.Act run.transport} {a : Actor run.transport} :
    Actor.Local now s.cancelled (s.actors w) a → Effect now s (.actor w x) (s.setActor w a)

/-- The wire is there, so no call ends otherwise. -/
theorem exists_request (s : Load run) (now : Instant) (w : run.Worker) (index : Nat) (called : Instant) :
    ∃ t wire, s.request now w index called = some t ∧ Returns s now w index called wire t := by
  obtain ⟨row, wire, -, -, hr⟩ := run.request_ok index
  exact ⟨_, wire, by simp only [request, hr], hr, rfl⟩

theorem returns_of_request {s t : Load run} {now called : Instant} {w : run.Worker} {index : Nat}
    (h : s.request now w index called = some t) : ∃ wire, Returns s now w index called wire t := by
  obtain ⟨u, wire, hu, hr⟩ := s.exists_request now w index called
  cases hu.symm.trans h
  exact ⟨wire, hr⟩

theorem effect_of_step {s t : Load run} {now : Instant} {x : Act run} (h : s.step now x = some t) :
    Effect now s x t := by
  cases x with
  | cancel => cases h; exact .cancel
  | callNext w =>
    simp only [step, callNext, Option.ite_none_right_eq_some] at h
    obtain ⟨⟨hpc, hmay⟩, h⟩ := h
    split at h
    · rename_i hb
      cases h
      exact .refused hpc hmay hb
    · rename_i hb
      cases h
      exact .waits hpc hmay hb
    · rename_i hb
      obtain ⟨wire, hr⟩ := returns_of_request h
      exact .ready hpc hmay hb hr
    · rename_i hb
      exact absurd hb (run.begin_ne_panicked _ _)
  | gateOpens w =>
    simp only [step, gateOpens] at h
    split at h
    · rename_i hpc
      split at h
      · rename_i hle
        split at h
        · rename_i hc
          cases h
          exact .given hpc hc (.inl rfl)
        · rename_i hc
          obtain ⟨wire, hr⟩ := returns_of_request h
          exact .opens hpc hle (by simpa using hc) hr
      · cases h
    · cases h
  | gateCancelled w =>
    simp only [step, gateCancelled] at h
    split at h
    · rename_i hpc
      split at h
      · rename_i hc
        cases h
        exact .given hpc hc (.inr rfl)
      · cases h
    · cases h
  | actor w x =>
    obtain ⟨a, ha, rfl⟩ := Option.map_eq_some_iff.mp h
    exact .actor (Actor.local_of_step ha)

/-- What every effect keeps holds in every reachable state. -/
theorem Reachable.inv {C : Clocked (Load run) → Timed (Act run) → Prop} {t : Clocked (Load run)}
    {I : Instant → Load run → Prop} (h : Reachable C t) (h0 : I run.start (init run))
    (he : ∀ s dt, C s (.elapse dt) → 0 ≤ dt → I s.now s.state → I (s.now + dt) s.state)
    (hs : ∀ s x t, C s (.act x) → I s.now s.state → Effect s.now s.state x t → I s.now t) : I t.now t.state :=
  Lts.clocked_inv h h0 he fun s x t hC hx hi => hs s x t hC hi (effect_of_step hx)

section

variable (s : Load run) (w w' : run.Worker) (a : Actor run.transport)

@[simp] theorem setActor_actors : (s.setActor w a).actors w = a := by simp [setActor]
@[simp] theorem setActor_admissions : (s.setActor w a).admissions = s.admissions := rfl

variable {w w'} in
theorem setActor_actors_of_ne (h : w' ≠ w) : (s.setActor w a).actors w' = s.actors w' := by simp [setActor, h]

end

/-- What holds of the actors still does when one of them takes a step that
keeps it, and nothing else changes. -/
theorem forall_setActor {P : run.Worker → Actor run.transport → Prop} {s : Load run} {w : run.Worker}
    {a : Actor run.transport} (h : ∀ w, P w (s.actors w)) (ha : P w a) : ∀ w', P w' ((s.setActor w a).actors w') := by
  intro w'
  by_cases hw : w' = w
  · subst hw; rw [setActor_actors]; exact ha
  · rw [setActor_actors_of_ne _ _ hw]; exact h w'

/-- No step is one of an actor that has returned. -/
theorem Effect.ended {s t : Load run} {now : Instant} {x : Act run} (he : Effect now s x t) {w : run.Worker}
    (h : (s.actors w).pc.hasEnded) : t.actors w = s.actors w := by
  have hother {s : Load run} {w' : run.Worker} {a : Actor run.transport} (hs : (s.actors w).pc.hasEnded)
      (hw : (s.actors w').pc.hasEnded = false) : (s.setActor w' a).actors w = s.actors w := by
    apply setActor_actors_of_ne
    rintro rfl
    rw [hs] at hw
    cases hw
  cases he with
  | cancel => rfl
  | refused hpc | waits hpc => exact hother (s := { s with seq := s.seq + 1 }) h (by simp [hpc, Pc.hasEnded])
  | ready hpc _ _ hr | opens hpc _ _ hr =>
    obtain ⟨-, rfl⟩ := hr
    exact hother (s := { s with admissions := _ }) h (by simp [hpc, Pc.hasEnded])
  | given hpc => exact hother h (by simp [hpc, Pc.hasEnded])
  | actor hl => exact hother h hl.not_ended

/-- Nothing takes a cancellation back. -/
theorem Effect.cancelled_mono {s t : Load run} {now : Instant} {x : Act run} (he : Effect now s x t)
    (h : s.cancelled = true) : t.cancelled = true := by
  cases he with
  | cancel => rfl
  | refused | waits | given | actor => exact h
  | ready _ _ _ hr | opens _ _ _ hr =>
    obtain ⟨-, rfl⟩ := hr
    exact h

theorem Effect.not_cancelled {s t : Load run} {now : Instant} {x : Act run} (he : Effect now s x t)
    (h : t.cancelled = false) : s.cancelled = false :=
  Bool.eq_false_of_not_eq_true fun hs => Bool.false_ne_true (h.symm.trans (he.cancelled_mono hs))

/-- `G` holds of the calls that wait, and `A` of the requests returned. -/
structure Calls (G : Nat → Instant → Instant → Prop) (A : Admission run → Prop) (s : Load run) : Prop where
  gated (w : run.Worker) {index : Nat} {scheduled called : Instant} :
    (s.actors w).pc = .gated index scheduled called → G index scheduled called
  admitted : ∀ a ∈ s.admissions, A a

namespace Calls

variable {G : Nat → Instant → Instant → Prop} {A : Admission run → Prop}
variable {s t : Load run} {now : Instant} {x : Act run}

theorem init : Calls G A (init run) where
  gated _ {_ _ _} h := by cases h
  admitted _ h := by cases h

theorem setActor (h : Calls G A s) {w : run.Worker} {a : Actor run.transport}
    (ha : ∀ {index scheduled called}, a.pc = .gated index scheduled called → G index scheduled called) :
    Calls G A (s.setActor w a) where
  gated := forall_setActor (P := fun _ a => ∀ {index scheduled called}, a.pc = .gated index scheduled called →
    G index scheduled called) h.gated ha
  admitted := h.admitted

theorem next (h : Calls G A s) : Calls G A { s with seq := s.seq + 1 } := ⟨h.gated, h.admitted⟩

theorem returns (h : Calls G A s) {w : run.Worker} {index : Nat} {called : Instant} {wire : Bytes}
    (hr : Returns s now w index called wire t) (ha : A ⟨w, index, wire, called, now⟩) : Calls G A t := by
  obtain ⟨-, rfl⟩ := hr
  have hc : Calls G A { s with admissions := ⟨w, index, wire, called, now⟩ :: s.admissions } :=
    ⟨h.gated, List.forall_mem_cons.mpr ⟨ha, h.admitted⟩⟩
  exact hc.setActor fun hb => by cases hb

/-- It is enough to look at the calls that start to wait, and at the requests
returned at once and behind a wait. -/
theorem effect (h : Calls G A s) (he : Effect now s x t)
    (hwaits : ∀ w scheduled, x = .callNext w → run.work.begin s.seq now = .wait scheduled → G s.seq scheduled now)
    (hready : ∀ w wire, run.work.begin s.seq now = .ready → run.work.request s.seq = some (.ok wire) →
      A ⟨w, s.seq, wire, now, now⟩)
    (hopens : ∀ w index scheduled called wire, G index scheduled called → scheduled ≤ now →
      run.work.request index = some (.ok wire) → A ⟨w, index, wire, called, now⟩) : Calls G A t := by
  cases he with
  | cancel => exact ⟨h.gated, h.admitted⟩
  | refused => exact h.next.setActor fun hb => by cases hb
  | @waits w _ _ _ hb => exact h.next.setActor fun hpc => by cases hpc; exact hwaits w _ rfl hb
  | ready _ _ hb hr => exact h.next.returns hr (hready _ _ hb hr.request)
  | opens hpc hle _ hr => exact h.returns hr (hopens _ _ _ _ _ (h.gated _ hpc) hle hr.request)
  | given => exact h.setActor fun hb => by cases hb
  | actor hl =>
    refine h.setActor fun hb => ?_
    rcases hl.slot with hs | ⟨hs, -⟩
    · exact h.gated _ (hs ▸ hb)
    · rw [hb] at hs
      cases hs

end Calls

end Load

/-! ## A small run -/

/-- One row, the name `a`. -/
def sampleCorpus : Corpus.Corpus := ⟨[97], [(0, 1)], by simp⟩

/-- One connection, and one name. -/
def sampleConfig (proto : Dns.LoadProto) (inFlight : Nat) (qpsCap : Option Double) (duration : Option ℚ≥0)
    (count : Option Nat) : LoadConfig where
  proto
  corpus := sampleCorpus
  qtype := 1
  concurrency := 1
  inFlight
  timeout := 2
  qpsCap
  duration
  count
  randomize := false
  seed := 0
  ednsOptions := []

/-- A run over it whose queries are all the same. -/
def sampleRun (config : LoadConfig) (hc : config.check = .ok ()) (hs : config.corpus = sampleCorpus) : LoadRun where
  plan := ⟨config, hc⟩
  target := ⟨Dns.rfc1035Header, [], fun _ => .ok ()⟩
  buildQuery _ _ _ _ := .ok Dns.Session.queryA
  start := 0
  wires := [Dns.Session.queryA]
  built := by
    simp only [ValidatedLoadPlan.wires, hs]
    decide +kernel
  progress := true
  arithmetic := .rounded

end WireSurge.Engine
