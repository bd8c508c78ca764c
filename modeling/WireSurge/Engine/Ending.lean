import WireSurge.Dns.Drain
import WireSurge.Engine.Latency
import WireSurge.Engine.Window

/-!
# The end of a run

A run with the drains of its connections: an actor that leaves its loop calls
`conn.drain`, and returns when that is over (`Ending`). Under a scheduler that runs
every task that can run at once (`Eager`), and with the timeout around `connect`:
every actor has returned when the grace for the exchanges in flight, the grace of
`drain` and one of its sleeps have passed since the cancellation
(`prompt_cancel`).
-/

namespace WireSurge.Engine

open Function (update)
open Lts (Clocked Timed clocked)
open WireSurge.Dns (Drain Duration Instant Transport drainPoll)

/-- The grace of `conn.drain`. -/
def LoadRun.drainGrace (run : LoadRun) : Duration := min cancelGrace run.timeout

/-- A run, and how far the drains of its actors are. -/
structure Ending (run : LoadRun) where
  load : Load run
  drains : run.Worker → Option Drain
  /-- History: when the run was cancelled. -/
  cancelledAt : Option Instant

namespace Ending

variable {run : LoadRun}

/-- No drain has begun. -/
def init (run : LoadRun) : Ending run where
  load := .init run
  drains _ := none
  cancelledAt := none

/-- An actor of the run. -/
def actor (s : Ending run) (w : run.Worker) : Actor run.transport := s.load.actors w

/-- Nothing is outstanding on the connection of an actor. -/
def idle (s : Ending run) (w : run.Worker) : Bool := (run.correlator (s.actor w)).all Dns.Correlator.isIdle

/-- An act of the run, or a poll of a drain. -/
inductive Act (run : LoadRun)
  | load (x : Load.Act run)
  /-- A poll of a drain. -/
  | drain (w : run.Worker)

/-- The actor that returns from its drain. -/
def returns : Load.Act run → Option run.Worker
  | .actor w .finish => some w
  | _ => none

/-- Behind a step of the actors to `t`: an actor that is done with its loop calls `drain`. -/
def next (s : Ending run) (now : Instant) (t : Load run) : Ending run where
  load := t
  drains w :=
    if (t.actors w).pc = .closing ∧ (s.actor w).pc ≠ .closing then
      some (run.plan.config.proto.drain now run.drainGrace)
    else s.drains w
  cancelledAt := if t.cancelled then s.cancelledAt.or (some now) else none

/-- What an act does, if it can be done; an actor whose drain goes on does not return. -/
def step (now : Instant) (s : Ending run) : Act run → Option (Ending run)
  | .load x =>
    if (returns x).all fun w => s.drains w = some .drained then (s.load.step now x).map (s.next now) else none
  | .drain w =>
    if (s.actor w).pc = .closing then
      ((s.drains w).bind fun d => d.step (s.idle w) now).map fun d => { s with drains := update s.drains w (some d) }
    else none

/-- An actor's drain can run before the time, or the timeout of its `connect` fires. -/
def awaited (before : Instant) (s : Ending run) (w : run.Worker) : Bool :=
  match (s.actor w).pc with
  | .connecting => run.start + run.timeout < before
  | .closing => (s.drains w).any fun d => d.canRun before
  | _ => false

/-- An actor or a drain could go on before a time. -/
def canRun (before : Instant) (s : Ending run) : Bool :=
  s.load.canRun before || (List.finRange run.concurrency).any (s.awaited before)

/-- Every task that can run does so at once: time passes only while none can. -/
def Eager (s : Clocked (Ending run)) : Timed (Act run) → Prop
  | .elapse dt => 0 < dt → s.state.canRun (s.now + dt) = false
  | .act _ => True

instance (s : Clocked (Ending run)) : (x : Timed (Act run)) → Decidable (Eager s x)
  | .elapse dt => inferInstanceAs (Decidable (0 < dt → s.state.canRun (s.now + dt) = false))
  | .act _ => inferInstanceAs (Decidable True)

/-- The states of the ending runs whose steps meet a condition. -/
def Reachable (C : Clocked (Ending run) → Timed (Act run) → Prop) (t : Clocked (Ending run)) : Prop :=
  Lts.Reach (clocked step) C ⟨run.start, init run⟩ t

/-! ## What a step does -/

variable {s t : Ending run} {now : Instant}

theorem step_load {x : Load.Act run} (h : s.step now (.load x) = some t) :
    ∃ u, s.load.step now x = some u ∧ t = s.next now u ∧ ∀ w, returns x = some w → s.drains w = some .drained := by
  simp only [step, Option.ite_none_right_eq_some, Option.map_eq_some_iff] at h
  obtain ⟨hover, u, hu, rfl⟩ := h
  refine ⟨u, hu, rfl, fun w hw => ?_⟩
  rw [hw, Option.all_some] at hover
  exact of_decide_eq_true hover

theorem step_drain {w : run.Worker} (h : s.step now (.drain w) = some t) :
    ∃ d d', (s.actor w).pc = .closing ∧ s.drains w = some d ∧ d.step (s.idle w) now = some d' ∧
      t = { s with drains := update s.drains w (some d') } := by
  simp only [step, Option.ite_none_right_eq_some, Option.map_eq_some_iff, Option.bind_eq_some_iff] at h
  obtain ⟨hpc, d', ⟨d, hd, hd'⟩, rfl⟩ := h
  exact ⟨d, d', hpc, hd, hd', rfl⟩

/-- Nothing can run, of an actor or of its drain. -/
theorem not_canRun {before : Instant} (h : s.canRun before = false) :
    s.load.canRun before = false ∧ ∀ w,
      (s.actor w).canRun run.receiver s.load.cancelled before = false ∧ s.awaited before w = false := by
  simp only [canRun, Bool.or_eq_false_iff] at h
  obtain ⟨hload, hdrains⟩ := h
  refine ⟨hload, fun w => ⟨?_, ?_⟩⟩
  · rw [Load.canRun, List.any_eq_false] at hload
    exact Bool.eq_false_of_not_eq_true (hload w (List.mem_finRange w))
  · rw [List.any_eq_false] at hdrains
    exact Bool.eq_false_of_not_eq_true (hdrains w (List.mem_finRange w))

/-- A run with its drains is a run. -/
theorem Reachable.load {t : Clocked (Ending run)} (h : Reachable Eager t) :
    Load.Reachable Load.Eager ⟨t.now, t.state.load⟩ := by
  induction h with
  | refl => exact Lts.Reach.refl _
  | @tail s t _ hn ih =>
    obtain ⟨x, hx, hs⟩ := hn
    cases x with
    | elapse dt =>
      obtain ⟨hdt, rfl⟩ := Lts.clocked_elapse.mp hs
      exact ih.tail (a := .elapse dt) (fun hpos => (not_canRun (hx hpos)).1) (Lts.clocked_elapse.mpr ⟨hdt, rfl⟩)
    | act x =>
      obtain ⟨u, hu, rfl⟩ := Lts.clocked_act.mp hs
      cases x with
      | load x =>
        obtain ⟨v, hv, rfl, -⟩ := step_load hu
        exact ih.tail (a := .act x) trivial (Lts.clocked_act.mpr ⟨v, hv, rfl⟩)
      | drain w =>
        obtain ⟨d, d', -, -, -, rfl⟩ := step_drain hu
        exact ih

end Ending

/-! ## Where an actor goes -/

/-- The actor is not past its loop, nor cancelled. -/
def Pc.isFeeding : Pc → Bool
  | .connecting | .filling | .gated _ _ _ | .filled | .selecting => true
  | .draining _ | .closing | .done | .failed | .panicked => false

/-- From one place to another. -/
inductive Pc.Goes (now : Instant) : Pc → Pc → Prop
  | stays {p : Pc} : Goes now p p
  | feeds {p p' : Pc} : p.isFeeding → p'.isFeeding → Goes now p p'
  | cancelled : Goes now .selecting (.draining (now + cancelGrace))
  | stops {p : Pc} : p = .filled ∨ (∃ until_, p = .draining until_) → Goes now p .closing
  | ends {p p' : Pc} : p'.hasEnded → Goes now p p'

theorem Actor.Local.goes {T : Transport} {now : Instant} {cancelled : Bool} {a b : Actor T}
    (h : Actor.Local now cancelled a b) : Pc.Goes now a.pc b.pc := by
  cases h with
  | connected hpc | tick hpc =>
    rw [hpc]
    exact .feeds rfl rfl
  | connectFailed | finish | panic => exact .ends rfl
  | moved hm =>
    rcases hm with ⟨hpc, rfl⟩ | ⟨hpc, ⟨rfl, -⟩ | rfl | ⟨rfl, -⟩⟩
    · rw [hpc]; exact .feeds rfl rfl
    · rw [hpc]; exact .feeds rfl rfl
    · rw [hpc]; exact .feeds rfl rfl
    · rw [hpc]; exact .stops (.inl rfl)
  | conn | polled => exact .stays
  | settled _ _ hpc =>
    rcases hpc with ⟨hpc, rfl⟩ | ⟨until_, hpc, rfl⟩
    · rw [hpc]; exact .feeds rfl rfl
    · exact .stays
  | cancelArm hpc =>
    rw [hpc]
    exact .cancelled
  | @drained until_ hpc =>
    rw [hpc]
    exact .stops (.inr ⟨until_, rfl⟩)

namespace Load

variable {run : LoadRun} {s t : Load run} {now : Instant} {x : Act run}

theorem Effect.goes (he : Effect now s x t) (w : run.Worker) : Pc.Goes now (s.actors w).pc (t.actors w).pc := by
  have hstep {u : Load run} (w' : run.Worker) (a : Actor run.transport) (hu : u.actors = s.actors)
      (ha : Pc.Goes now (s.actors w').pc a.pc) : Pc.Goes now (s.actors w).pc ((u.setActor w' a).actors w).pc := by
    by_cases hw : w = w'
    · subst hw
      rw [setActor_actors]
      exact ha
    · rw [setActor_actors_of_ne _ _ hw, hu]
      exact .stays
  cases he with
  | cancel => exact .stays
  | refused hpc | waits hpc => exact hstep _ _ rfl (by rw [hpc]; exact .feeds rfl rfl)
  | given hpc => exact hstep _ _ rfl (by rw [hpc]; exact .feeds rfl rfl)
  | ready hpc _ _ hr | opens hpc _ _ hr =>
    obtain ⟨-, rfl⟩ := hr
    exact hstep _ _ rfl (by rw [hpc]; exact .feeds rfl rfl)
  | actor hl => exact hstep _ _ rfl hl.goes

end Load

/-! ## After a cancellation -/

/-- Where an actor may be at a time, when the cancellation comes at `c`, or has not come
up to then. -/
def Pc.Within (c now : Instant) (grace : Duration) (drain : Option Drain) : Pc → Prop
  | .connecting | .filling | .gated _ _ _ | .filled | .selecting => now ≤ c
  | .draining until_ => now ≤ until_ ∧ until_ ≤ c + cancelGrace
  | .closing => ∃ d, drain = some d ∧ d.By (c + cancelGrace + grace) now
  | .done | .failed | .panicked => True

namespace Pc.Within

variable {c c' now : Instant} {grace : Duration} {drain : Option Drain} {p p' : Pc}

theorem of_isFeeding (h : p.isFeeding) (hc : now ≤ c) : p.Within c now grace drain := by
  cases p <;> first | exact hc | cases h

theorem le_of_isFeeding (h : p.Within c now grace drain) (hp : p.isFeeding) : now ≤ c := by
  cases p <;> first | exact h | cases hp

theorem of_hasEnded (h : p.hasEnded) : p.Within c now grace drain := by
  cases p with
  | done | failed | panicked => trivial
  | _ => cases h

theorem mono (h : p.Within c now grace drain) (hc : c ≤ c') : p.Within c' now grace drain := by
  cases p with
  | connecting | filling | gated | filled | selecting => exact le_trans h hc
  | draining until_ => exact ⟨h.1, h.2.trans (by linarith)⟩
  | closing =>
    obtain ⟨d, hd, hby⟩ := h
    exact ⟨d, hd, hby.mono (by linarith)⟩
  | done | failed | panicked => trivial

theorem elapse {dt : Duration} (h : p.Within c now grace drain) (hc : c ≤ c') (hfeeding : p.isFeeding → now + dt ≤ c')
    (hdraining : ∀ until_, p = .draining until_ → now + dt ≤ until_)
    (hclosing : p = .closing → ∀ d, drain = some d → d.canRun (now + dt) = false) :
    p.Within c' (now + dt) grace drain := by
  cases p with
  | connecting | filling | gated | filled | selecting => exact hfeeding rfl
  | draining until_ => exact ⟨hdraining _ rfl, (h.mono hc).2⟩
  | closing =>
    obtain ⟨d, hd, hby⟩ := h.mono hc
    exact ⟨d, hd, hby.elapse (hclosing rfl d hd)⟩
  | done | failed | panicked => trivial

/-- An actor in its loop, or waiting for its exchanges, comes to its drain in time. -/
theorem goes {proto : Dns.LoadProto} (h : p.Within c now grace drain) (hg : Pc.Goes now p p') (hgrace : 0 ≤ grace) :
    p'.Within c now grace (if p' = .closing ∧ p ≠ .closing then some (proto.drain now grace) else drain) := by
  have hpos : (0 : ℚ) ≤ cancelGrace := by norm_num [cancelGrace]
  cases hg with
  | stays => rwa [if_neg fun hc => hc.2 hc.1]
  | feeds hp hp' => exact of_isFeeding hp' (h.le_of_isFeeding hp)
  | cancelled =>
    have hc : now ≤ c := h
    exact ⟨by linarith, by linarith⟩
  | stops hp =>
    have hc : now ≤ c + cancelGrace := by
      rcases hp with rfl | ⟨until_, rfl⟩
      · have hnow : now ≤ c := h
        linarith
      · exact h.1.trans h.2
    have hne : p ≠ .closing := by
      rcases hp with rfl | ⟨until_, rfl⟩ <;> exact nofun
    rw [if_pos ⟨rfl, hne⟩]
    exact ⟨_, rfl, .start hgrace (by linarith)⟩
  | ends hp' => exact of_hasEnded hp'

end Pc.Within

namespace Ending

variable {run : LoadRun} {s t : Ending run} {now : Instant}

/-- Every actor is in time, counted from the cancellation or from now. -/
structure InTime (now : Instant) (s : Ending run) : Prop where
  cancelled : s.cancelledAt.isSome = s.load.cancelled
  within (w : run.Worker) : (s.actor w).pc.Within (s.cancelledAt.getD now) now run.drainGrace (s.drains w)

theorem drainGrace_nonneg (run : LoadRun) : 0 ≤ run.drainGrace := by
  have htimeout : (0 : ℚ) ≤ run.timeout := NNRat.cast_nonneg _
  exact le_min (by norm_num [cancelGrace]) htimeout

namespace InTime

theorem init : InTime run.start (init run) where
  cancelled := rfl
  within _ := le_rfl

theorem load {x : Load.Act run} (h : InTime now s) (hs : s.step now (.load x) = some t) : InTime now t := by
  obtain ⟨u, hu, rfl, -⟩ := step_load hs
  have he := Load.effect_of_step hu
  have hat : (s.next now u).cancelledAt.getD now = s.cancelledAt.getD now := by
    simp only [next]
    cases hu : u.cancelled with
    | true => cases s.cancelledAt <;> rfl
    | false =>
      have hnot : s.cancelledAt = none := by
        rw [← Option.not_isSome_iff_eq_none, h.cancelled]
        intro hs
        rw [he.cancelled_mono hs] at hu
        cases hu
      rw [hnot]
      rfl
  refine ⟨?_, fun w => ?_⟩
  · simp only [next]
    cases u.cancelled <;> simp
  · rw [hat]
    exact (h.within w).goes (he.goes w) (drainGrace_nonneg run)

theorem drain {w : run.Worker} (h : InTime now s) (hs : s.step now (.drain w) = some t) : InTime now t := by
  obtain ⟨d, d', hpc, hd, hd', rfl⟩ := step_drain hs
  refine ⟨h.cancelled, fun w' => ?_⟩
  by_cases hw : w' = w
  · subst hw
    have hin := h.within w'
    rw [hpc] at hin
    obtain ⟨d₀, hd₀, hby⟩ := hin
    cases hd.symm.trans hd₀
    show (s.actor w').pc.Within _ _ _ _
    rw [hpc]
    exact ⟨d', Function.update_self .., hby.step hd'⟩
  · have hdrain : update s.drains w (some d') w' = s.drains w' := Function.update_of_ne hw ..
    show (s.actor w').pc.Within _ _ _ (update s.drains w (some d') w')
    rw [hdrain]
    exact h.within w'

/-- Time passes only while every actor that is cancelled sleeps. -/
theorem elapse {dt : Duration} (h : InTime now s) (hdt : 0 ≤ dt) (hrun : 0 < dt → s.canRun (now + dt) = false) :
    InTime (now + dt) s := by
  rcases hdt.eq_or_lt with rfl | hpos
  · rwa [add_zero]
  refine ⟨h.cancelled, fun w => ?_⟩
  obtain ⟨-, hidle⟩ := not_canRun (hrun hpos)
  obtain ⟨hactor, hawaited⟩ := hidle w
  simp only [Actor.canRun, Bool.or_eq_false_iff] at hactor
  have hle : s.cancelledAt.getD now ≤ s.cancelledAt.getD (now + dt) := by
    cases s.cancelledAt with
    | none => exact le_add_of_nonneg_right hdt
    | some c => exact le_rfl
  refine (h.within w).elapse hle (fun hfeeding => ?_) (fun until_ hpc => ?_) fun hpc d hd => ?_
  · cases hc : s.cancelledAt with
    | none => exact le_rfl
    | some c =>
      -- an actor in its loop sees the cancellation at once
      have hcancelled : s.load.cancelled = true := by rw [← h.cancelled, hc]; rfl
      rw [hcancelled] at hactor
      cases hpc : (s.actor w).pc with
      | connecting | filling | gated | filled | selecting => simp [hpc] at hactor
      | draining | closing | done | failed | panicked => rw [hpc] at hfeeding; cases hfeeding
  · simp only [hpc, Bool.or_eq_false_iff, decide_eq_false_iff_not, not_lt] at hactor
    exact hactor.2.1.1
  · simpa only [awaited, hpc, hd, Option.any_some] using hawaited

end InTime

theorem Reachable.inTime {t : Clocked (Ending run)} (h : Reachable Eager t) : InTime t.now t.state :=
  Lts.clocked_inv h .init (fun _ _ hC hdt hi => hi.elapse hdt hC) fun _ x _ _ hs hi => by
    cases x with
    | load x => exact hi.load hs
    | drain w => exact hi.drain hs

/-- In every run whose tasks run as soon as they can, every actor has returned when, after
the cancellation, the grace for its exchanges, that of its drain, and one of the
sleeps of the drain have passed. -/
theorem prompt_cancel {t : Clocked (Ending run)} (h : Reachable Eager t) {c : Instant}
    (hc : t.state.cancelledAt = some c) (hnow : c + cancelGrace + min cancelGrace run.timeout + drainPoll < t.now)
    (w : run.Worker) : (t.state.actor w).pc.hasEnded := by
  have hin := (h.inTime).within w
  rw [hc, Option.getD_some] at hin
  have hpoll := Drain.drainPoll_pos
  have hgrace := drainGrace_nonneg run
  have hcancel : (0 : ℚ) ≤ cancelGrace := by norm_num [cancelGrace]
  change c + cancelGrace + run.drainGrace + drainPoll < t.now at hnow
  cases hpc : (t.state.actor w).pc with
  | connecting | filling | gated | filled | selecting =>
    rw [hpc] at hin
    have hle : t.now ≤ c := hin
    linarith
  | draining until_ =>
    rw [hpc] at hin
    have hle := hin.1.trans hin.2
    linarith
  | closing =>
    rw [hpc] at hin
    obtain ⟨d, -, hby⟩ := hin
    have hle := hby.le
    linarith
  | done | failed | panicked => rfl

/-! A run whose one query is never answered. -/

open Dns (UdpResume)
open Load (countRun countWorker)

/-- Cancelled after a tenth of a second; the drain goes on to its deadline, since the
slot of the query stays pending. -/
def stalled : List (Timed (Act countRun)) :=
  let act (x : Actor.Act countRun.transport) : Timed (Act countRun) := .act (.load (.actor countWorker x))
  let call : Timed (Act countRun) := .act (.load (.callNext countWorker))
  let drain : Timed (Act countRun) := .act (.drain countWorker)
  [act .connected, call, call, act .proceed, act (.poll 0), act (.resume 0 UdpResume.sent),
    act (.resume 0 (UdpResume.waiter .poll)), .elapse (1 / 10), .act (.load .cancel), act .cancelArm,
    .elapse (1 / 4), act .graceOver] ++
  (List.replicate 125 [drain, .elapse (1 / 500), drain]).flatten ++ [drain, act .finish, .elapse (1 / 100)]

/-- `prompt_cancel` for it. -/
theorem prompt_cancel_stalled : ∃ t, Lts.run (clocked step) ⟨countRun.start, init countRun⟩ stalled = some t ∧
    t.state.cancelledAt = some (1 / 10) ∧ t.now = 61 / 100 ∧ (t.state.actor countWorker).pc.hasEnded := by
  have hrun : ∃ t ∈ Lts.run (clocked step) ⟨countRun.start, init countRun⟩ stalled,
      t.state.cancelledAt = some (1 / 10) ∧ t.now = 61 / 100 := by
    decide +kernel
  have hC : Lts.Along (clocked step) Eager ⟨countRun.start, init countRun⟩ stalled := by decide +kernel
  obtain ⟨t, ht, hc, hnow⟩ := hrun
  refine ⟨t, ht, hc, hnow, prompt_cancel (.of_along ht hC) hc ?_ countWorker⟩
  rw [hnow]
  decide +kernel

end Ending

end WireSurge.Engine
