import WireSurge.Engine.Load

/-!
# Refused calls

The calls of `next` by themselves: any number of callers on one work source,
each at any time, with what every call returned as history (`Calling`). Where a
call has returned `None`, no later one returns a request (`Final`): each of the
four reasons is one for every larger index and every later time
(`begin_refused_mono`), and the cancellation stays. The wait at the gate is
entered with slots below the bound on a run only (`begin_wait_lt`).

The actors of a load run are such callers (`Follows`).
-/

namespace WireSurge.Engine

open Function (update)
open Lts (Clocked Timed clocked Reach)
open WireSurge.Dns (Bytes Instant)

/-- The wait is that for the slot of the index, which is in range. -/
theorem LoadRun.begin_wait_lt (run : LoadRun) {index : Nat} {now scheduled : Instant}
    (h : run.work.begin index now = .wait scheduled) :
    ∃ qps, run.plan.qps = some qps ∧ (run.arithmetic = .exact → scheduled = run.start + index / qps) ∧
      0 ≤ index / qps ∧ index / qps < (maxRunSecs : ℚ) := by
  obtain ⟨gate, hg, rfl, hlt⟩ := run.begin_wait h
  obtain ⟨hpos, hmax⟩ := run.gate_bounds hg
  obtain ⟨qps, hqps, rfl⟩ := run.exists_qps hg
  refine ⟨qps, hqps, fun hexact => ?_, div_nonneg (Nat.cast_nonneg _) hpos.le, RateGate.exact_lt hpos hmax hlt⟩
  rw [RateGate.delay_of_exact hexact]

/-! ## Calls -/

/-- The work source and the calls of `next` on it. -/
structure Calling (run : LoadRun) (K : Type) where
  seq : Nat
  cancelled : Bool
  /-- The index and the slot of a call that waits. -/
  waiting : K → Option (Nat × Instant)
  /-- History: what `next` returned for an index, the latest first. -/
  returned : List (Nat × Option Bytes)

namespace Calling

variable {run : LoadRun} {K : Type}

/-- No index is drawn, and nobody waits. -/
def init (run : LoadRun) (K : Type) : Calling run K where
  seq := 0
  cancelled := false
  waiting _ := none
  returned := []

/-- The counter gives out an index. -/
def draw (s : Calling run K) : Calling run K := { s with seq := s.seq + 1 }

/-- A call has returned: its index, and the wire if it was given one. -/
def answer (s : Calling run K) (index : Nat) (result : Option Bytes) : Calling run K :=
  { s with returned := (index, result) :: s.returned }

/-- The part of `next` behind the wait. -/
def request (s : Calling run K) (index : Nat) : Option (Calling run K) :=
  match run.work.request index with
  | some (.ok wire) => some (s.answer index (some wire))
  | some (.error _) => some s
  | none => none

theorem request_eq (s : Calling run K) (index : Nat) :
    ∃ wire, run.work.request index = some (.ok wire) ∧ s.request index = some (s.answer index (some wire)) := by
  obtain ⟨row, wire, -, -, hr⟩ := run.request_ok index
  exact ⟨wire, hr, by simp only [request, hr]⟩

variable {now : Instant} {s t : Calling run K}

/-- From `i` on, no call at `now` or later returns a request. -/
def Final (now : Instant) (s : Calling run K) (i : Nat) : Prop :=
  ∀ j ≥ i, ∀ later ≥ now, run.work.begin j later = .refused ∨ s.cancelled = true ∧ run.work.begin j later ≠ .ready

theorem Final.later {i : Nat} (h : Final now s i) {later : Instant} (hle : now ≤ later) : Final later s i :=
  fun j hj time ht => h j hj time (hle.trans ht)

theorem Final.of_le {i j : Nat} (h : Final now s i) (hij : i ≤ j) : Final now s j :=
  fun k hk => h k (le_trans hij hk)

/-- What every run of calls keeps. -/
structure Sound (now : Instant) (s : Calling run K) : Prop where
  returned : ∀ r ∈ s.returned, r.1 < s.seq
  waiting (k : K) {index : Nat} {scheduled : Instant} : s.waiting k = some (index, scheduled) →
    index < s.seq ∧ ∃ called, run.work.begin index called = .wait scheduled
  final {i : Nat} : (i, none) ∈ s.returned → Final now s i

/-- What every run keeps from the state on in which the next index is `m`, when
a call has returned `None`. -/
structure Over (m : Nat) (now : Instant) (s : Calling run K) : Prop where
  seq : m ≤ s.seq
  final : Final now s m
  returned : ∀ r ∈ s.returned, m ≤ r.1 → r.2 = none
  waiting (k : K) {index : Nat} {scheduled : Instant} : s.waiting k = some (index, scheduled) → m ≤ index →
    s.cancelled = true

/-- Behind the gate no call returns at once. -/
theorem begin_ne_ready {index j : Nat} {scheduled called later : Instant}
    (h : run.work.begin index called = .wait scheduled) : run.work.begin j later ≠ .ready := by
  intro hb
  obtain ⟨gate, hg, -⟩ := WorkSource.begin_wait h
  rw [(WorkSource.begin_ready hb).1] at hg
  cases hg

theorem Sound.init : Sound run.start (init run K) where
  returned _ h := by cases h
  waiting _ {_ _} h := by cases h
  final h := by cases h

theorem Sound.elapse (h : Sound now s) {dt : ℚ} (hdt : 0 ≤ dt) : Sound (now + dt) s where
  returned := h.returned
  waiting := h.waiting
  final hi := (h.final hi).later (le_add_of_nonneg_right hdt)

/-- An index is answered: with `None` only where that is final. -/
theorem Sound.answer (h : Sound now s) {index : Nat} {result : Option Bytes} (hlt : index < s.seq)
    (hfinal : result = none → Final now s index) : Sound now (s.answer index result) where
  returned := List.forall_mem_cons.mpr ⟨hlt, h.returned⟩
  waiting := h.waiting
  final hi := by
    rcases List.mem_cons.mp hi with hi | hi
    · obtain ⟨rfl, hnone⟩ := Prod.mk.inj hi
      exact hfinal hnone.symm
    · exact h.final hi

theorem Sound.draw (h : Sound now s) : Sound now s.draw where
  returned r hr := Nat.lt_succ_of_lt (h.returned r hr)
  waiting k _ _ hk := (h.waiting k hk).imp_left Nat.lt_succ_of_lt
  final := h.final

/-- The state in which a call has returned `None`. -/
theorem Sound.over (h : Sound now s) {i : Nat} (hi : (i, none) ∈ s.returned) : Over s.seq now s where
  seq := le_rfl
  final := (h.final hi).of_le (h.returned _ hi).le
  returned r hr hle := absurd (h.returned r hr) (not_lt.mpr hle)
  waiting k _ _ hk hle := absurd (h.waiting k hk).1 (not_lt.mpr hle)

theorem Over.elapse {m : Nat} (h : Over m now s) {dt : ℚ} (hdt : 0 ≤ dt) : Over m (now + dt) s where
  seq := h.seq
  final := h.final.later (le_add_of_nonneg_right hdt)
  returned := h.returned
  waiting := h.waiting

theorem Over.answer {m : Nat} (h : Over m now s) {index : Nat} {result : Option Bytes}
    (hnone : m ≤ index → result = none) : Over m now (s.answer index result) where
  seq := h.seq
  final := h.final
  returned := List.forall_mem_cons.mpr ⟨hnone, h.returned⟩
  waiting := h.waiting

theorem Over.draw {m : Nat} (h : Over m now s) : Over m now s.draw where
  seq := Nat.le_succ_of_le h.seq
  final := h.final
  returned := h.returned
  waiting := h.waiting

variable [DecidableEq K]

/-- The caller waits for the slot of its index. -/
def wait (s : Calling run K) (k : K) (index : Nat) (scheduled : Instant) : Calling run K :=
  { s with waiting := update s.waiting k (some (index, scheduled)) }

/-- The caller's wait is over. -/
def leave (s : Calling run K) (k : K) : Calling run K := { s with waiting := update s.waiting k none }

/-- What the callers of `next` do. -/
inductive Act (K : Type)
  | cancel
  | call (k : K)
  | gateOpens (k : K)
  | gateCancelled (k : K)
  /-- The task of a waiting caller is gone. -/
  | drop (k : K)

/-- What an act does, if it can be done. -/
def step (now : Instant) (s : Calling run K) : Act K → Option (Calling run K)
  | .cancel => some { s with cancelled := true }
  | .call k =>
    if (s.waiting k).isSome then none
    else
      match run.work.begin s.seq now with
      | .refused => some (s.draw.answer s.seq none)
      | .wait scheduled => some (s.draw.wait k s.seq scheduled)
      | .ready => s.draw.request s.seq
      | .panicked => some s.draw
  | .gateOpens k =>
    match s.waiting k with
    | some (index, scheduled) =>
      if scheduled ≤ now then
        if s.cancelled then some ((s.leave k).answer index none) else (s.leave k).request index
      else none
    | none => none
  | .gateCancelled k =>
    match s.waiting k with
    | some (index, _) => if s.cancelled then some ((s.leave k).answer index none) else none
    | none => none
  | .drop k => if (s.waiting k).isSome then some (s.leave k) else none

/-- The states that calls come to. -/
def Reachable (t : Clocked (Calling run K)) : Prop := Reach (clocked step) Lts.Any ⟨run.start, init run K⟩ t

/-- What an act can do, said once. -/
inductive Effect (now : Instant) (s : Calling run K) : Calling run K → Prop
  | cancel : Effect now s { s with cancelled := true }
  | refused : run.work.begin s.seq now = .refused → Effect now s (s.draw.answer s.seq none)
  | waits {k : K} {scheduled : Instant} : run.work.begin s.seq now = .wait scheduled →
    Effect now s (s.draw.wait k s.seq scheduled)
  | ready {wire : Bytes} : run.work.begin s.seq now = .ready →
    Effect now s (s.draw.answer s.seq (some wire))
  | opens {k : K} {index : Nat} {scheduled : Instant} {wire : Bytes} : s.waiting k = some (index, scheduled) →
    s.cancelled = false → Effect now s ((s.leave k).answer index (some wire))
  | given {k : K} {index : Nat} {scheduled : Instant} : s.waiting k = some (index, scheduled) → s.cancelled = true →
    Effect now s ((s.leave k).answer index none)
  | drop {k : K} : Effect now s (s.leave k)

theorem effect_of_step {x : Act K} (h : s.step now x = some t) : Effect now s t := by
  cases x with
  | cancel => cases h; exact .cancel
  | call k =>
    simp only [step] at h
    split at h
    · cases h
    split at h
    · rename_i hb
      cases h
      exact .refused hb
    · rename_i hb
      cases h
      exact .waits hb
    · rename_i hb
      obtain ⟨wire, -, hw⟩ := request_eq s.draw s.seq
      cases hw.symm.trans h
      exact .ready hb
    · rename_i hb
      exact absurd hb (run.begin_ne_panicked _ _)
  | gateOpens k =>
    simp only [step] at h
    split at h
    · rename_i index scheduled hk
      split at h
      · split at h
        · rename_i hc
          cases h
          exact .given hk hc
        · rename_i hc
          obtain ⟨wire, -, hw⟩ := request_eq (s.leave k) index
          cases hw.symm.trans h
          exact .opens hk (by simpa using hc)
      · cases h
    · cases h
  | gateCancelled k =>
    simp only [step] at h
    split at h
    · rename_i index scheduled hk
      split at h
      · rename_i hc
        cases h
        exact .given hk hc
      · cases h
    · cases h
  | drop k =>
    simp only [step] at h
    split at h
    · cases h
      exact .drop
    · cases h

section

variable (s : Calling run K) (k : K)

theorem waiting_wait {k' : K} {i index : Nat} {slot scheduled : Instant}
    (h : (s.wait k i slot).waiting k' = some (index, scheduled)) :
    i = index ∧ slot = scheduled ∨ s.waiting k' = some (index, scheduled) := by
  by_cases hk : k' = k
  · subst hk
    exact .inl (by simpa [wait] using h)
  · exact .inr (by simpa [wait, hk] using h)

theorem waiting_leave {k' : K} {index : Nat} {scheduled : Instant}
    (h : (s.leave k).waiting k' = some (index, scheduled)) : s.waiting k' = some (index, scheduled) := by
  by_cases hk : k' = k
  · subst hk
    simp [leave] at h
  · simpa [leave, hk] using h

end

theorem Effect.cancelled (he : Effect now s t) (h : s.cancelled = true) : t.cancelled = true := by
  cases he with
  | cancel => rfl
  | _ => exact h

theorem Effect.final (he : Effect now s t) {i : Nat} (h : Final now s i) : Final now t i :=
  fun j hj later hl => (h j hj later hl).imp_right fun ⟨hc, hb⟩ => ⟨he.cancelled hc, hb⟩

theorem Sound.leave (h : Sound now s) (k : K) : Sound now (s.leave k) where
  returned := h.returned
  waiting k' _ _ hk := h.waiting k' (waiting_leave s k hk)
  final := h.final

theorem Over.leave {m : Nat} (h : Over m now s) (k : K) : Over m now (s.leave k) where
  seq := h.seq
  final := h.final
  returned := h.returned
  waiting k' _ _ hk := h.waiting k' (waiting_leave s k hk)

theorem Effect.sound (he : Effect now s t) (h : Sound now s) : Sound now t := by
  cases he with
  | cancel => exact ⟨h.returned, h.waiting, fun hi => Effect.cancel.final (h.final hi)⟩
  | refused hb =>
    refine h.draw.answer (Nat.lt_succ_self _) fun _ j hj later hl => .inl ?_
    exact WorkSource.begin_refused_mono (fun _ hg => run.qps_pos hg) hb hj hl
  | @waits k scheduled hb =>
    refine ⟨h.draw.returned, fun k' index slot hk => ?_, h.draw.final⟩
    rcases waiting_wait _ _ hk with ⟨rfl, rfl⟩ | hk
    · exact ⟨Nat.lt_succ_self _, now, hb⟩
    · exact h.draw.waiting k' hk
  | ready => exact h.draw.answer (Nat.lt_succ_self _) (fun hnone => by cases hnone)
  | @opens k index scheduled wire hk =>
    exact (h.leave k).answer (h.waiting k hk).1 (fun hnone => by cases hnone)
  | @given k index scheduled hk hc =>
    -- the call was at the gate, so every other one is refused or comes to the gate
    obtain ⟨hlt, called, hb⟩ := h.waiting k hk
    exact (h.leave k).answer hlt fun _ j _ later _ => .inr ⟨hc, begin_ne_ready hb⟩
  | @drop k => exact h.leave k

theorem Effect.over {m : Nat} (he : Effect now s t) (h : Over m now s) : Over m now t := by
  cases he with
  | cancel => exact ⟨h.seq, Effect.cancel.final h.final, h.returned, fun _ _ _ _ _ => rfl⟩
  | refused => exact h.draw.answer fun _ => rfl
  | @waits k scheduled hb =>
    refine ⟨h.draw.seq, h.draw.final, h.draw.returned, fun k' index slot hk hm => ?_⟩
    rcases waiting_wait _ _ hk with ⟨rfl, rfl⟩ | hk
    · rcases h.final s.seq h.seq now le_rfl with hr | ⟨hc, -⟩
      · rw [hb] at hr
        cases hr
      · exact hc
    · exact h.waiting k' hk hm
  | ready hb =>
    rcases h.final s.seq h.seq now le_rfl with hr | ⟨-, hr⟩
    · rw [hb] at hr
      cases hr
    · exact absurd hb hr
  | @opens k index scheduled wire hk hc =>
    refine (h.leave k).answer fun hm => ?_
    rw [h.waiting k hk hm] at hc
    cases hc
  | @given k index scheduled => exact (h.leave k).answer fun _ => rfl
  | @drop k => exact h.leave k

theorem Reachable.sound {t : Clocked (Calling run K)} (h : Reachable t) : Sound t.now t.state :=
  Lts.clocked_inv h Sound.init (fun _ _ _ hdt hi => hi.elapse hdt)
    fun _ _ _ _ hs hi => (effect_of_step hs).sound hi

theorem Reachable.over {t u : Clocked (Calling run K)} (h : Reachable t) {i : Nat}
    (hi : (i, none) ∈ t.state.returned) (hu : Reach (clocked step) Lts.Any t u) :
    Over t.state.seq u.now u.state :=
  Lts.clocked_inv hu (h.sound.over hi) (fun _ _ _ hdt ho => ho.elapse hdt)
    fun _ _ _ _ hs ho => (effect_of_step hs).over ho

/-- Once a call has returned `None`, every call that draws its index later
returns `None`, or waits and is cancelled; and a call waits only for a slot
inside the bound on a run, whatever its index, with a conversion that is in
range. -/
theorem refusal_is_permanent (run : LoadRun) (K : Type) [DecidableEq K] :
    (∀ t u : Clocked (Calling run K), Reachable t → Reach (clocked step) Lts.Any t u →
      ∀ i, (i, none) ∈ t.state.returned → i < t.state.seq ∧
        (∀ j result, (j, result) ∈ u.state.returned → t.state.seq ≤ j → result = none) ∧
        ∀ k j scheduled, u.state.waiting k = some (j, scheduled) → t.state.seq ≤ j → u.state.cancelled = true) ∧
    (∀ t : Clocked (Calling run K), Reachable t → ∀ k index scheduled,
      t.state.waiting k = some (index, scheduled) → ∃ qps, run.plan.qps = some qps ∧
        (run.arithmetic = .exact → scheduled = run.start + index / qps) ∧
        0 ≤ index / qps ∧ index / qps < (maxRunSecs : ℚ)) ∧
    (∀ index now scheduled, run.work.begin index now = .wait scheduled →
      ∃ qps, run.plan.qps = some qps ∧ (run.arithmetic = .exact → scheduled = run.start + index / qps) ∧
        0 ≤ index / qps ∧ index / qps < (maxRunSecs : ℚ)) ∧
    ∀ index now, run.work.begin index now ≠ .panicked := by
  refine ⟨fun t u ht hu i hi => ?_, fun t ht k index scheduled hk => ?_, fun _ _ _ hb => run.begin_wait_lt hb,
    run.begin_ne_panicked⟩
  · have hover := ht.over hi hu
    exact ⟨ht.sound.returned _ hi, fun j result hj => hover.returned _ hj, fun k j _ hk => hover.waiting k hk⟩
  · obtain ⟨-, called, hb⟩ := ht.sound.waiting k hk
    exact run.begin_wait_lt hb

/-- One query, for callers that come one after the other. -/
def oneQueryRun : LoadRun :=
  sampleRun (sampleConfig .do53Udp 1 (some (.ofRat 10)) none (some 1)) (by decide +kernel) rfl

/-- Two calls, the second behind the last slot. -/
def twoCalls : List (Timed (Act Unit)) := [.act (.call ()), .act (.gateOpens ()), .act (.call ())]

theorem refusal_is_permanent_one : ∃ t,
    Lts.run (clocked step) ⟨0, init oneQueryRun Unit⟩ twoCalls = some t ∧
      (1, none) ∈ t.state.returned ∧ ∀ u, Reach (clocked step) Lts.Any t u →
        ∀ j result, (j, result) ∈ u.state.returned → t.state.seq ≤ j → result = none := by
  have hrun : ∃ t ∈ Lts.run (clocked step) ⟨0, init oneQueryRun Unit⟩ twoCalls, (1, none) ∈ t.state.returned := by
    decide +kernel
  obtain ⟨t, ht, hi⟩ := hrun
  exact ⟨t, ht, hi, fun u hu =>
    ((refusal_is_permanent oneQueryRun Unit).1 t u (.of_run ht) hu 1 hi).2.1⟩

end Calling

/-! ## The actors as callers -/

/-- The index and the slot that are waited for. -/
def Pc.waits? : Pc → Option (Nat × Instant)
  | .gated index scheduled _ => some (index, scheduled)
  | _ => none

theorem Pc.waits?_eq_none {pc : Pc} (h : pc.index? = none) : pc.waits? = none := by
  cases pc <;> first | rfl | cases h

namespace Load

variable {run : LoadRun} {s t : Load run} {c c' : Calling run run.Worker} {now : Instant}

/-- `c` are the calls of the actors of `s`. -/
structure Follows (s : Load run) (c : Calling run run.Worker) : Prop where
  seq : c.seq = s.seq
  cancelled : c.cancelled = s.cancelled
  waiting (w : run.Worker) : c.waiting w = (s.actors w).pc.waits?
  admitted : ∀ a ∈ s.admissions, (a.index, some a.wire) ∈ c.returned
  exhausted (w : run.Worker) : (s.actors w).noMoreWork = true → ∃ i, (i, none) ∈ c.returned

/-- The actor `w` goes on, and its call with it. -/
theorem Follows.goesOn {u : Load run} {w : run.Worker} {a : Actor run.transport} (h : Follows s c)
    (hactors : u.actors = s.actors) (hseq : c'.seq = u.seq) (hcancelled : c'.cancelled = u.cancelled)
    (hself : c'.waiting w = a.pc.waits?) (hother : ∀ w' ≠ w, c'.waiting w' = c.waiting w')
    (hadmitted : ∀ a ∈ u.admissions, (a.index, some a.wire) ∈ c'.returned)
    (hreturned : ∀ r ∈ c.returned, r ∈ c'.returned)
    (hexhausted : a.noMoreWork = true → (s.actors w).noMoreWork = true ∨ ∃ i, (i, none) ∈ c'.returned) :
    Follows (u.setActor w a) c' := by
  have hold : ∀ w', (s.actors w').noMoreWork = true → ∃ i, (i, none) ∈ c'.returned := by
    intro w' hw'
    obtain ⟨i, hi⟩ := h.exhausted w' hw'
    exact ⟨i, hreturned _ hi⟩
  refine ⟨hseq, hcancelled, fun w' => ?_, hadmitted, fun w' hw' => ?_⟩
  · by_cases hw : w' = w
    · subst hw
      rw [setActor_actors, hself]
    · rw [setActor_actors_of_ne _ _ hw, hactors, hother w' hw, h.waiting]
  · by_cases hw : w' = w
    · subst hw
      rw [setActor_actors] at hw'
      exact (hexhausted hw').elim (hold w') id
    · rw [setActor_actors_of_ne _ _ hw, hactors] at hw'
      exact hold w' hw'

/-- One step of a call. -/
theorem reach_act {x : Calling.Act run.Worker} (h : c.step now x = some c') :
    Reach (clocked Calling.step) Lts.Any ⟨now, c⟩ ⟨now, c'⟩ :=
  (Reach.refl _).tail (a := .act x) trivial (Lts.clocked_act.mpr ⟨c', h, rfl⟩)

theorem Effect.follows {x : Act run} (he : Effect now s x t) (h : Follows s c) :
    ∃ c', Reach (clocked Calling.step) Lts.Any ⟨now, c⟩ ⟨now, c'⟩ ∧ Follows t c' := by
  have hidle {w : run.Worker} (hpc : (s.actors w).pc = .filling) : c.waiting w = none := by
    rw [h.waiting, hpc]
    rfl
  have hleft {w w' : run.Worker} (hw : w' ≠ w) (d : Calling run run.Worker) : (d.leave w).waiting w' = d.waiting w' :=
    Function.update_of_ne hw _ _
  cases he with
  | cancel => exact ⟨_, reach_act (x := .cancel) rfl, ⟨h.seq, rfl, h.waiting, h.admitted, h.exhausted⟩⟩
  | @refused w hpc _ hb =>
    have hstep : c.step now (.call w) = some (c.draw.answer c.seq none) := by
      simp [Calling.step, hidle hpc, h.seq, hb]
    refine ⟨_, reach_act hstep, h.goesOn rfl (congrArg Nat.succ h.seq) h.cancelled (hidle hpc) (fun _ _ => rfl)
      (fun a ha => List.mem_cons_of_mem _ (h.admitted a ha)) (fun _ => List.mem_cons_of_mem _) fun _ => ?_⟩
    exact .inr ⟨c.seq, List.mem_cons_self⟩
  | @waits w scheduled hpc _ hb =>
    have hstep : c.step now (.call w) = some (c.draw.wait w c.seq scheduled) := by
      simp [Calling.step, hidle hpc, h.seq, hb]
    refine ⟨_, reach_act hstep, h.goesOn rfl (congrArg Nat.succ h.seq) h.cancelled ?_ ?_ h.admitted
      (fun _ hr => hr) .inl⟩
    · simp [Calling.wait, h.seq, Pc.waits?]
    · exact fun w' hw => Function.update_of_ne hw _ _
  | @ready w wire t hpc _ hb hr =>
    obtain ⟨hrequest, rfl⟩ := hr
    have hstep : c.step now (.call w) = some (c.draw.answer c.seq (some wire)) := by
      simp [Calling.step, hidle hpc, h.seq, hb, Calling.request, hrequest]
    refine ⟨_, reach_act hstep, h.goesOn rfl (congrArg Nat.succ h.seq) h.cancelled (hidle hpc) (fun _ _ => rfl)
      ?_ (fun _ => List.mem_cons_of_mem _) .inl⟩
    refine List.forall_mem_cons.mpr ⟨?_, fun a ha => List.mem_cons_of_mem _ (h.admitted a ha)⟩
    rw [← h.seq]
    exact List.mem_cons_self
  | @opens w index scheduled called wire t hpc hle hc hr =>
    obtain ⟨hrequest, rfl⟩ := hr
    have hwaits : c.waiting w = some (index, scheduled) := by
      rw [h.waiting, hpc]
      rfl
    have hstep : c.step now (.gateOpens w) = some ((c.leave w).answer index (some wire)) := by
      simp [Calling.step, hwaits, hle, h.cancelled, hc, Calling.request, hrequest]
    refine ⟨_, reach_act hstep, h.goesOn rfl h.seq h.cancelled (Function.update_self _ _ _) (fun w' hw => hleft hw c)
      ?_ (fun _ => List.mem_cons_of_mem _) .inl⟩
    exact List.forall_mem_cons.mpr ⟨List.mem_cons_self, fun a ha => List.mem_cons_of_mem _ (h.admitted a ha)⟩
  | @given w x index scheduled called hpc hc =>
    have hwaits : c.waiting w = some (index, scheduled) := by
      rw [h.waiting, hpc]
      rfl
    have hstep : c.step now (.gateCancelled w) = some ((c.leave w).answer index none) := by
      simp [Calling.step, hwaits, h.cancelled, hc]
    refine ⟨_, reach_act hstep, h.goesOn rfl h.seq h.cancelled (Function.update_self _ _ _) (fun w' hw => hleft hw c)
      (fun a ha => List.mem_cons_of_mem _ (h.admitted a ha)) (fun _ => List.mem_cons_of_mem _) fun _ => ?_⟩
    exact .inr ⟨index, List.mem_cons_self⟩
  | @actor w x a hl =>
    have hkept : a.noMoreWork = true → (s.actors w).noMoreWork = true ∨ ∃ i, (i, none) ∈ c.returned :=
      fun ha => .inl (hl.kept.2 ▸ ha)
    by_cases hwaits : a.pc.waits? = (s.actors w).pc.waits?
    · refine ⟨c, Reach.refl _, h.goesOn rfl h.seq h.cancelled ?_ (fun _ _ => rfl) h.admitted (fun _ hr => hr) hkept⟩
      rw [hwaits, h.waiting]
    · -- the actor has panicked, and its call is gone
      have hnone : a.pc.waits? = none := by
        rcases hl.slot with hpc | ⟨hpc, -⟩
        · exact absurd (congrArg Pc.waits? hpc) hwaits
        · exact Pc.waits?_eq_none hpc
      have hstep : c.step now (.drop w) = some (c.leave w) := by
        rw [hnone, ← h.waiting] at hwaits
        simp [Calling.step, Option.isSome_iff_ne_none, Ne.symm hwaits]
      refine ⟨_, reach_act hstep, h.goesOn rfl h.seq h.cancelled ?_ (fun w' hw => hleft hw c) h.admitted
        (fun _ hr => hr) hkept⟩
      rw [hnone]
      exact Function.update_self _ _ _

/-- A run of the engine and one of its callers, at the same time. -/
def Abreast (t : Clocked (Load run)) (c : Clocked (Calling run run.Worker)) : Prop :=
  c.now = t.now ∧ Follows t.state c.state

/-- The actors of a run are callers. -/
theorem Reach.follows {t u : Clocked (Load run)} {c : Clocked (Calling run run.Worker)}
    (h : Reach (clocked step) Lts.Any t u) (hc : Abreast t c) :
    ∃ d, Reach (clocked Calling.step) Lts.Any c d ∧ Abreast u d := by
  refine h.simulate hc ?_
  rintro s v x ⟨now, d⟩ ⟨rfl, hd⟩ - hx
  cases x with
  | elapse dt =>
    obtain ⟨hdt, rfl⟩ := Lts.clocked_elapse.mp hx
    have hstep : clocked Calling.step ⟨s.now, d⟩ (.elapse dt) = some ⟨s.now + dt, d⟩ :=
      Lts.clocked_elapse.mpr ⟨hdt, rfl⟩
    exact ⟨_, (Reach.refl _).tail trivial hstep, rfl, hd⟩
  | act x =>
    obtain ⟨v, hv, rfl⟩ := Lts.clocked_act.mp hx
    obtain ⟨d', hd', hfollows⟩ := (effect_of_step hv).follows hd
    exact ⟨⟨s.now, d'⟩, hd', rfl, hfollows⟩

/-- When an actor has found nothing left, no actor gets a request for an index
that is drawn later. -/
theorem no_request_after {t u : Clocked (Load run)} (h : Reachable Lts.Any t)
    (hu : Reach (clocked step) Lts.Any t u) {w : run.Worker} (hw : (t.state.actors w).noMoreWork = true) :
    ∀ a ∈ u.state.admissions, a.index < t.state.seq := by
  have hinit : Follows (init run) (Calling.init run run.Worker) :=
    ⟨rfl, rfl, fun _ => rfl, fun _ ha => absurd ha List.not_mem_nil, fun _ h => by cases h⟩
  obtain ⟨c, hc, hnow, hfollows⟩ := Reach.follows h (c := ⟨run.start, .init run run.Worker⟩) ⟨rfl, hinit⟩
  obtain ⟨d, hd, -, hfollows'⟩ := Reach.follows hu ⟨hnow, hfollows⟩
  obtain ⟨i, hi⟩ := hfollows.exhausted w hw
  have hover := Calling.Reachable.over hc hi hd
  intro a ha
  by_contra hle
  have hnone := hover.returned _ (hfollows'.admitted a ha) (hfollows.seq ▸ not_lt.mp hle)
  cases hnone

end Load

end WireSurge.Engine
