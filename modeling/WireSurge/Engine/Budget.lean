import Mathlib.Algebra.BigOperators.Fin
import WireSurge.Engine.Load
import WireSurge.Lib.Tickets

/-!
# The shared budget

The counter of a run is a dispenser of tickets (`Lib/Tickets.lean`): an index is
held by the actor that waits for its slot, and used by the request that `next`
returns. It is lost when `next` returns `None` for it or its actor panics
(`Effect.tickets`). So no index is behind two requests; and a run that the count
alone ends has sent every index below the count once. Each request is drawn by
its call (`Drawn`), so it keeps to the count, to its slot and to the corpus.
`shared_budget` puts them together.
-/

namespace WireSurge.Engine

open Function (update)
open Lts (Clocked Timed)
open WireSurge.Dns (Instant Transport)

namespace Load

variable {run : LoadRun} {s t : Load run} {now : Instant} {x : Act run}

/-! ## The counter as a dispenser -/

/-- The indices as tickets: those in the hands of actors, and those handed out. -/
def tickets (s : Load run) : Tickets run.Worker where
  next := s.seq
  held w := (s.actors w).pc.index?
  used := s.admissions.map Admission.index

/-- Why there may be no request for an index. -/
inductive Lost (s : Load run) (i : Nat) : Prop
  | cancelled : s.cancelled = true → Lost s i
  | panicked {w : run.Worker} : (s.actors w).pc = .panicked → Lost s i
  | refused {now : Instant} : run.work.begin i now = .refused → Lost s i

theorem tickets_setActor (s : Load run) (w : run.Worker) (a : Actor run.transport) :
    (s.setActor w a).tickets = { s.tickets with held := update s.tickets.held w a.pc.index? } := by
  simp only [tickets, setActor, Tickets.mk.injEq, true_and, and_true]
  exact Function.comp_update (fun a : Actor run.transport => a.pc.index?) s.actors w a

/-- An actor goes on with its index, or loses it. -/
theorem steps_setActor {L : Nat → Prop} {w : run.Worker} {a : Actor run.transport}
    (h : a.pc.index? = (s.actors w).pc.index? ∨ a.pc.index? = none ∧ ∀ i, L i) :
    Tickets.Steps L s.tickets (s.setActor w a).tickets := by
  have hself : update s.tickets.held w (s.actors w).pc.index? = s.tickets.held := Function.update_eq_self w _
  rw [tickets_setActor]
  rcases h with h | ⟨h, hL⟩
  · rw [h, hself]
    exact .refl _
  · rw [h]
    cases hi : (s.actors w).pc.index? with
    | none =>
      rw [hi] at hself
      rw [hself]
      exact .refl _
    | some i => exact .single (.lose hi (hL i))

/-- What a step does to the dispenser. -/
theorem Effect.tickets (he : Effect now s x t) : Tickets.Steps t.Lost s.tickets t.tickets := by
  have hfill {w : run.Worker} (h : (s.actors w).pc = .filling) : s.tickets.held w = none := by
    simp only [Load.tickets, h]
    rfl
  cases he with
  | cancel => exact .refl _
  | refused hpc _ hb =>
    rw [tickets_setActor]
    exact .drawLose (hfill hpc) (.refused hb)
  | waits hpc =>
    rw [tickets_setActor]
    exact .single (.draw (hfill hpc))
  | ready hpc _ _ hr =>
    obtain ⟨-, rfl⟩ := hr
    rw [tickets_setActor]
    exact .drawUse (hfill hpc)
  | @opens w index _ _ _ _ hpc _ _ hr =>
    obtain ⟨-, rfl⟩ := hr
    rw [tickets_setActor]
    exact .single (.use (by simp only [Load.tickets, hpc]; rfl))
  | given _ hc => exact steps_setActor (.inr ⟨rfl, fun _ => .cancelled hc⟩)
  | @actor w _ a hl =>
    rcases hl.slot with h | ⟨hb, ha | h⟩
    · exact steps_setActor (.inl (by rw [h]))
    · exact steps_setActor (.inl (by rw [hb, ha]))
    · exact steps_setActor (.inr ⟨hb, fun _ => .panicked (w := w) (by rw [setActor_actors, h])⟩)

theorem Effect.panicked (he : Effect now s x t) {w : run.Worker} (h : (s.actors w).pc = .panicked) :
    (t.actors w).pc = .panicked := by
  rw [he.ended (by rw [h]; rfl), h]

theorem Effect.cancelled (he : Effect now s x t) (h : s.cancelled = true) : t.cancelled = true := by
  cases he with
  | cancel => rfl
  | ready _ _ _ hr | opens _ _ _ hr => rw [hr.eq]; exact h
  | _ => exact h

theorem Effect.lost (he : Effect now s x t) (i : Nat) (h : s.Lost i) : t.Lost i := by
  cases h with
  | cancelled h => exact .cancelled (he.cancelled h)
  | panicked h => exact .panicked (he.panicked h)
  | refused h => exact .refused h

theorem Reachable.tickets {C : Clocked (Load run) → Timed (Act run) → Prop} {t : Clocked (Load run)}
    (h : Reachable C t) : t.state.tickets.Valid ∧ t.state.tickets.Covers t.state.Lost :=
  h.inv (I := fun _ s => s.tickets.Valid ∧ s.tickets.Covers s.Lost) ⟨.start rfl fun _ => rfl, .start rfl⟩
    (fun _ _ _ _ hi => hi)
    fun _ _ _ _ hi he => ⟨hi.1.steps he.tickets, (hi.2.mono he.lost).steps he.tickets⟩

/-! ## The calls -/

/-- The request is that of an index its call drew: at once, or when its slot
had come. -/
structure Drawn (a : Admission run) : Prop where
  request : run.work.request a.index = some (.ok a.wire)
  drew : run.work.begin a.index a.called = .ready ∧ a.returned = a.called ∨
    ∃ scheduled, run.work.begin a.index a.called = .wait scheduled ∧ scheduled ≤ a.returned

theorem Reachable.called {C : Clocked (Load run) → Timed (Act run) → Prop} {t : Clocked (Load run)}
    (h : Reachable C t) :
    Calls (fun index scheduled called => run.work.begin index called = .wait scheduled) Drawn t.state := by
  refine h.inv (I := fun _ s => Calls (fun index scheduled called => run.work.begin index called = .wait scheduled)
    Drawn s) .init (fun _ _ _ _ hi => hi) fun s x t _ hi he => hi.effect he ?_ ?_ ?_
  · exact fun _ _ _ hb => hb
  · exact fun _ _ hb hr => ⟨hr, .inl ⟨hb, rfl⟩⟩
  · exact fun _ _ _ _ _ hb hle hr => ⟨hr, .inr ⟨_, hb, hle⟩⟩

/-! ## The counters -/

/-- A call has found nothing left, or was cancelled. -/
def Over (s : Load run) : Prop := s.cancelled = true ∨ ∃ i < s.seq, ∃ now, run.work.begin i now = .refused

/-- An actor has sent the queries it was given, and is told that there are no more only
when it is so. -/
structure Counted (s : Load run) : Prop where
  sent (w : run.Worker) : (s.actors w).recorder.sent = s.admissions.countP fun a => a.worker = w
  exhausted (w : run.Worker) : (s.actors w).noMoreWork = true → s.Over

theorem Counted.init : Counted (init run) where
  sent _ := rfl
  exhausted _ h := by cases h

theorem Counted.next (h : Counted s) : Counted { s with seq := s.seq + 1 } where
  sent := h.sent
  exhausted w hw := (h.exhausted w hw).imp_right fun ⟨i, hi, hr⟩ => ⟨i, Nat.lt_succ_of_lt hi, hr⟩

theorem Counted.setActor (h : Counted s) {w : run.Worker} {a : Actor run.transport}
    (hs : a.recorder.sent = (s.actors w).recorder.sent)
    (ho : a.noMoreWork = true → (s.actors w).noMoreWork = true ∨ s.Over) : Counted (s.setActor w a) where
  sent := forall_setActor (P := fun w a => a.recorder.sent = s.admissions.countP fun a => a.worker = w) h.sent
    (by rw [hs, h.sent])
  exhausted := forall_setActor (P := fun _ a => a.noMoreWork = true → s.Over) h.exhausted
    fun ha => (ho ha).elim (h.exhausted w) id

theorem Counted.returns (h : Counted s) {w : run.Worker} {index : Nat} {called : Instant} {wire : Dns.Bytes}
    (hr : Returns s now w index called wire t) : Counted t := by
  obtain ⟨-, rfl⟩ := hr
  refine ⟨fun w' => ?_, forall_setActor (P := fun _ a => a.noMoreWork = true → s.Over) h.exhausted (h.exhausted w)⟩
  rw [setActor_admissions, List.countP_cons]
  by_cases hw : w' = w
  · subst hw
    rw [setActor_actors, if_pos (by simp), ← h.sent]
    rfl
  · rw [setActor_actors_of_ne _ _ hw, if_neg (by simpa using Ne.symm hw), h.sent, Nat.add_zero]

theorem Effect.counted (he : Effect now s x t) (h : Counted s) : Counted t := by
  cases he with
  | cancel => exact ⟨h.sent, fun _ _ => .inl rfl⟩
  | refused _ _ hb => exact h.next.setActor rfl fun _ => .inr (.inr ⟨s.seq, Nat.lt_succ_self _, now, hb⟩)
  | waits => exact h.next.setActor rfl .inl
  | ready _ _ _ hr => exact h.next.returns hr
  | opens _ _ _ hr => exact h.returns hr
  | given _ hc => exact h.setActor rfl fun _ => .inr (.inl hc)
  | actor hl => exact h.setActor hl.kept.1 fun ha => .inl (hl.kept.2 ▸ ha)

theorem Reachable.counted {C : Clocked (Load run) → Timed (Act run) → Prop} {t : Clocked (Load run)}
    (h : Reachable C t) : Counted t.state :=
  h.inv (I := fun _ s => Counted s) .init (fun _ _ _ _ hi => hi) fun _ _ _ _ hi he => he.counted hi

/-- The queries that the actors have sent. -/
def totalSent (s : Load run) : Nat := ((List.finRange run.concurrency).map fun w => (s.actors w).recorder.sent).sum

/-- Every request has one worker. -/
theorem sum_countP_worker (l : List (Admission run)) :
    ((List.finRange run.concurrency).map fun w => l.countP fun a => a.worker = w).sum = l.length := by
  rw [← Fin.sum_univ_def]
  induction l with
  | nil => simp
  | cons a l ih =>
    simp only [List.countP_cons, Finset.sum_add_distrib, ih, List.length_cons, decide_eq_true_eq]
    rw [Finset.sum_ite_eq, if_pos (Finset.mem_univ _)]

theorem Counted.totalSent (h : Counted s) : s.totalSent = s.admissions.length := by
  rw [Load.totalSent, ← sum_countP_worker]
  exact congrArg List.sum (List.map_congr_left fun w _ => h.sent w)

theorem foldl_sent (hp : ∀ w, (s.actors w).pc ≠ .panicked) (ws : List run.Worker) (r : Metrics.LoadRecorder) :
    ((ws.map fun w => joined (s.actors w)).foldl mergeActorResult r).sent =
      r.sent + (ws.map fun w => (s.actors w).recorder.sent).sum := by
  induction ws generalizing r with
  | nil => rfl
  | cons w ws ih =>
    rw [List.map_cons, List.foldl_cons, ih, joined, if_neg (hp w), mergeActorResult, Option.getD_some,
      Metrics.LoadRecorder.sent_merge, List.map_cons, List.sum_cons, Nat.add_assoc]

theorem aggregate_sent (hp : ∀ w, (s.actors w).pc ≠ .panicked) : s.aggregate.sent = s.totalSent := by
  rw [aggregate, foldl_sent hp, Metrics.LoadRecorder.sent_new, Nat.zero_add]
  rfl

/-! ## The budget -/

/-- With a count and no deadline, and slots enough for the count, no index below
the count is refused. -/
theorem count_le_of_refused {n i : Nat} {now : Instant} (hn : run.plan.config.count = some n)
    (hd : run.plan.config.duration = none) (hq : ∀ qps, run.plan.qps = some qps → (n : ℚ) ≤ qps * maxRunSecs)
    (h : run.work.begin i now = .refused) : n ≤ i := by
  rcases WorkSource.begin_refused h with ⟨n', hn', hle⟩ | ⟨gate, hg, hge⟩ | ⟨-, d, hd', -⟩
  · cases hn.symm.trans hn'
    exact hle
  · obtain ⟨hpos, hmax⟩ := run.gate_bounds hg
    obtain ⟨qps, hqps, rfl⟩ := run.exists_qps hg
    by_contra hlt
    have hlast : (i : ℚ) + 1 ≤ n := by exact_mod_cast not_le.mp hlt
    have hslot := RateGate.slot_lt hpos hmax (hlast.trans (hq qps hqps))
    have hnone : run.work.deadline = none := by simp [LoadRun.work, hd]
    rw [WorkSource.budgetSecs, hnone, RateGate.slotSecs_eq,
      Double.ofRat_of_le (maxRunSecs_bounded (Nat.cast_nonneg _) le_rfl),
      Double.ge_finite_iff (RateGate.slot_nonneg hpos i)] at hge
    exact absurd hge (not_le.mpr hslot)
  · simp [LoadRun.work, hd] at hd'

theorem Drawn.lt_count {a : Admission run} (h : Drawn a) {n : Nat} (hn : run.plan.config.count = some n) :
    a.index < n := by
  have hr : run.work.begin a.index a.called ≠ .refused := by
    rcases h.drew with ⟨hr, -⟩ | ⟨scheduled, hr, -⟩ <;> rw [hr] <;> exact Begin.noConfusion
  exact WorkSource.begin_lt_count hr hn

/-- The request does not come before its slot. -/
theorem Drawn.slot_le {a : Admission run} (h : Drawn a) {gate : RateGate} (hg : run.work.gate = some gate) :
    ∃ scheduled, gate.scheduled a.index = .ok scheduled ∧ scheduled ≤ a.returned := by
  rcases h.drew with ⟨hr, -⟩ | ⟨scheduled, hr, hle⟩
  · rw [(WorkSource.begin_ready hr).1] at hg
    cases hg
  · obtain ⟨gate', hg', hs, -⟩ := WorkSource.begin_wait hr
    cases hg.symm.trans hg'
    exact ⟨scheduled, hs, hle⟩

/-- The slot is less than a nanosecond before the exact one. -/
theorem Drawn.exact_lt {a : Admission run} (h : Drawn a) {qps : ℚ} (hq : run.plan.qps = some qps) :
    run.start + a.index / qps < a.returned + 1 / 10 ^ 9 := by
  have hg := run.gate_eq hq
  rcases h.drew with ⟨hr, -⟩ | ⟨scheduled, hr, hle⟩
  · rw [(WorkSource.begin_ready hr).1] at hg
    cases hg
  · obtain ⟨gate, hg', rfl, hlt⟩ := run.begin_wait hr
    obtain ⟨hpos, hmax⟩ := run.gate_bounds hg
    cases hg.symm.trans hg'
    have hclose := (abs_lt.mp (RateGate.abs_delay_sub_lt hpos hmax hlt)).1
    dsimp only at hclose
    linarith

/-- The request is the wire of the row of its index. -/
theorem Drawn.row {a : Admission run} (h : Drawn a) :
    ∃ row < run.wires.length,
      run.plan.config.corpus.selectIndex (UInt64.ofNat a.index) run.plan.config.seed run.work.mode = some row ∧
        run.wires[row]? = some a.wire := by
  obtain ⟨row, wire, hrow, hw, hr⟩ := run.request_ok a.index
  cases hr.symm.trans h.request
  exact ⟨row, (List.getElem?_eq_some_iff.mp hw).1, hrow, hw⟩

/-- The requests of a run that only its count has ended. -/
theorem Reachable.spent {t : Clocked (Load run)} (h : Reachable Lts.Any t) {n : Nat}
    (hn : run.plan.config.count = some n) (hd : run.plan.config.duration = none)
    (hq : ∀ qps, run.plan.qps = some qps → (n : ℚ) ≤ qps * maxRunSecs) (hc : t.state.cancelled = false)
    (hw : ∀ w, (t.state.actors w).pc = .done ∨ (t.state.actors w).pc = .failed)
    (ho : ∃ w, (t.state.actors w).noMoreWork = true) :
    (t.state.admissions.map Admission.index).Perm (List.range n) := by
  obtain ⟨hv, hcov⟩ := h.tickets
  have hlost : ∀ i, t.state.Lost i → n ≤ i := by
    rintro i (hx | @⟨w, hx⟩ | hx)
    · rw [hc] at hx
      cases hx
    · rcases hw w with hw | hw <;> rw [hw] at hx <;> cases hx
    · exact count_le_of_refused hn hd hq hx
  obtain ⟨w, ho⟩ := ho
  have hseq : n ≤ t.state.seq := by
    rcases h.counted.exhausted w ho with hx | ⟨i, hi, now, hr⟩
    · rw [hc] at hx
      cases hx
    · exact (count_le_of_refused hn hd hq hr).trans hi.le
  refine Tickets.perm_range hv hcov hlost (fun i hi => ?_) hseq fun w => ?_
  · obtain ⟨a, ha, rfl⟩ := List.mem_map.mp hi
    exact (h.called.admitted a ha).lt_count hn
  · simp only [Load.tickets]
    rcases hw w with hw | hw <;> rw [hw] <;> rfl

/-- In every run, the requests of all actors have distinct indices, each below
the count, not before its slot (which is less than a nanosecond before the exact
one), and with the wire of its row; every index has a row; an actor has sent as many
queries as it was given. A run that is over, uncancelled and with no panic, and in
which an actor has found nothing left, has sent as many queries as the count, one
for each index. -/
theorem shared_budget {t : Clocked (Load run)} (h : Reachable Lts.Any t) :
    (t.state.admissions.map Admission.index).Nodup ∧
    (∀ a ∈ t.state.admissions,
      (∀ n, run.plan.config.count = some n → a.index < n) ∧
      (∀ gate, run.work.gate = some gate →
        ∃ scheduled, gate.scheduled a.index = .ok scheduled ∧ scheduled ≤ a.returned) ∧
      (∀ qps, run.plan.qps = some qps → run.start + a.index / qps < a.returned + 1 / 10 ^ 9) ∧
      ∃ row < run.wires.length,
        run.plan.config.corpus.selectIndex (UInt64.ofNat a.index) run.plan.config.seed run.work.mode = some row ∧
          run.wires[row]? = some a.wire) ∧
    (∀ index, ∃ row < run.wires.length,
      run.plan.config.corpus.selectIndex (UInt64.ofNat index) run.plan.config.seed run.work.mode = some row) ∧
    (∀ w, (t.state.actors w).recorder.sent = t.state.admissions.countP fun a => a.worker = w) ∧
    ∀ n, run.plan.config.count = some n → run.plan.config.duration = none →
      (∀ qps, run.plan.qps = some qps → (n : ℚ) ≤ qps * maxRunSecs) → t.state.cancelled = false →
      (∀ w, (t.state.actors w).pc = .done ∨ (t.state.actors w).pc = .failed) →
      (∃ w, (t.state.actors w).pc = .done ∧ (t.state.actors w).noMoreWork = true) →
      t.state.totalSent = n ∧ t.state.aggregate.sent = n ∧
        (t.state.admissions.map Admission.index).Perm (List.range n) := by
  refine ⟨h.tickets.1.nodup, fun a ha => ?_, fun index => ?_, h.counted.sent, fun n hn hd hq hc hw ho => ?_⟩
  · have hdrawn := h.called.admitted a ha
    exact ⟨fun n hn => hdrawn.lt_count hn, fun gate hg => hdrawn.slot_le hg, fun qps hq => hdrawn.exact_lt hq,
      hdrawn.row⟩
  · obtain ⟨row, wire, hrow, hw, -⟩ := run.request_ok index
    exact ⟨row, (List.getElem?_eq_some_iff.mp hw).1, hrow⟩
  · have hperm := h.spent hn hd hq hc hw (ho.imp fun _ h => h.2)
    have htotal : t.state.totalSent = n := by
      rw [h.counted.totalSent]
      simpa using hperm.length_eq
    refine ⟨htotal, ?_, hperm⟩
    rw [aggregate_sent fun w => ?_, htotal]
    rcases hw w with hw | hw <;> rw [hw] <;> exact Pc.noConfusion

/-! A run in which two actors send one query each. -/

/-- Two queries over DoH at 10 qps for two actors. -/
def sharedRun : LoadRun :=
  sampleRun { sampleConfig .doh 1 (some (.ofRat 10)) none (some 2) with concurrency := 2 } (by decide +kernel) rfl

/-- Its workers. -/
def sharedWorker (i : Fin 2) : sharedRun.Worker := ⟨i, i.isLt⟩

/-- What `w` does up to its exchange, and from its reply on. -/
def asks (w : sharedRun.Worker) : List (Timed (Act sharedRun)) :=
  [.act (.gateOpens w), .act (.actor w .guardFails), .act (.actor w .proceed), .act (.actor w (.poll 0))]

/-- The query of `w` is answered, and `w` finds no more. -/
def ends (w : sharedRun.Worker) : List (Timed (Act sharedRun)) :=
  [.act (.actor w (.react (Dns.DohEvent.responds 0 200 (Dns.Session.replyA 0)))),
    .act (.actor w (.resume 0 Dns.DohResume.answered)), .act (.actor w (.settle 0)), .act (.callNext w),
    .act (.actor w .proceed), .act (.actor w .finish)]

/-- The second worker is first, and each sends one query. -/
def sharedTwo : List (Timed (Act sharedRun)) :=
  let w := sharedWorker 0
  let w' := sharedWorker 1
  [.act (.actor w .connected), .act (.actor w' .connected), .act (.callNext w'), .act (.callNext w)] ++ asks w' ++
    [.elapse (1 / 10)] ++ asks w ++ ends w ++ ends w'

/-- A run to `shared_budget`: two indices, one for each actor. -/
theorem shared_budget_two : ∃ t,
    Lts.run (Lts.clocked step) ⟨0, init sharedRun⟩ sharedTwo = some t ∧
      (t.state.actors (sharedWorker 0)).recorder.sent = 1 ∧ (t.state.actors (sharedWorker 1)).recorder.sent = 1 ∧
      t.state.totalSent = 2 ∧ (t.state.admissions.map Admission.index).Perm (List.range 2) := by
  have hrun : ∃ t ∈ Lts.run (Lts.clocked step) ⟨0, init sharedRun⟩ sharedTwo,
      (t.state.actors (sharedWorker 0)).recorder.sent = 1 ∧ (t.state.actors (sharedWorker 1)).recorder.sent = 1 ∧
        t.state.cancelled = false ∧
        (∀ w ∈ List.finRange sharedRun.concurrency, (t.state.actors w).pc = .done) ∧
        (t.state.actors (sharedWorker 0)).noMoreWork = true := by decide +kernel
  obtain ⟨t, ht, hs, hs', hc, hw, ho⟩ := hrun
  have hdone (w : sharedRun.Worker) : (t.state.actors w).pc = .done := hw w (List.mem_finRange w)
  obtain ⟨-, -, -, -, hall⟩ := shared_budget (Lts.Reach.of_run ht)
  have hqps : sharedRun.plan.qps = some 10 := by decide +kernel
  have hslots (qps : ℚ) (hq : sharedRun.plan.qps = some qps) : ((2 : ℕ) : ℚ) ≤ qps * maxRunSecs := by
    cases hqps.symm.trans hq
    norm_num [maxRunSecs]
  obtain ⟨htotal, -, hperm⟩ := hall 2 rfl rfl hslots hc (fun w => .inl (hdone w)) ⟨sharedWorker 0, hdone _, ho⟩
  exact ⟨t, ht, hs, hs', htotal, hperm⟩

/-! A run at 3 queries a second, whose second slot is rounded to whole
nanoseconds. -/

/-- Two queries over DoH at 3 qps, two at a time. -/
def thirdsRun : LoadRun := sampleRun (sampleConfig .doh 2 (some (.ofRat 3)) none (some 2)) (by decide +kernel) rfl

/-- Its worker. -/
def thirdsWorker : thirdsRun.Worker := ⟨0, by decide +kernel⟩

/-- The second query is returned before a third of a second is over. -/
def secondSlot : List (Timed (Act thirdsRun)) :=
  [.act (.actor thirdsWorker .connected), .act (.callNext thirdsWorker), .act (.gateOpens thirdsWorker),
    .act (.callNext thirdsWorker), .elapse (333333333 / 10 ^ 9), .act (.gateOpens thirdsWorker)]

/-- The request comes a third of a nanosecond before a third of a second. -/
theorem early_request :
    ¬ ∀ (run : LoadRun) (t : Clocked (Load run)), Reachable Lts.Any t → ∀ a ∈ t.state.admissions,
      ∀ qps, run.plan.qps = some qps → run.start + a.index / qps ≤ a.returned := by
  intro h
  have hrun : ∃ t ∈ Lts.run (Lts.clocked step) ⟨0, init thirdsRun⟩ secondSlot,
      ∃ a ∈ t.state.admissions, a.index = 1 ∧ a.returned = 333333333 / 10 ^ 9 := by decide +kernel
  obtain ⟨t, ht, a, ha, hindex, hreturned⟩ := hrun
  have hle := h thirdsRun t (Lts.Reach.of_run ht) a ha 3 (by decide +kernel)
  rw [hindex, hreturned, show thirdsRun.start = 0 from rfl] at hle
  norm_num at hle

end Load

end WireSurge.Engine
