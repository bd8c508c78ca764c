import WireSurge.Engine.Budget
import WireSurge.Engine.Conservation

/-!
# What the fill loop feeds

The fill loop calls `next` as long as its guard holds. The guard asks the
transport whether the connection is closed, and only DoH knows: exactly over DoH
an actor with an unusable connection takes no more work (`closed_not_fed_iff`).
And a call of `next` suspends the actor with the exchanges it has pushed: they
are all started before the actor waits for a slot exactly when there is no room
in the window, or no slot, for a second one (`waiting_flushed_iff`).
-/

namespace WireSurge.Engine

open Lts (Clocked Timed clocked)
open WireSurge.Dns (Bytes Instant)

namespace Load

variable {run : LoadRun} {s : Load run} {now : Instant}

/-! ## Steps that can be taken -/

/-- There is a worker in every run. -/
def firstWorker (run : LoadRun) : run.Worker := ⟨0, run.plan.admitted.concurrency.1⟩

/-- The guard is all that a call of `next` needs. -/
theorem exists_callNext {w : run.Worker} (hpc : (s.actors w).pc = .filling)
    (hm : (s.actors w).mayCall run.cap s.cancelled) : ∃ t, s.callNext now w = some t := by
  simp only [callNext, hpc, hm, and_self, if_true]
  split
  · exact ⟨_, rfl⟩
  · exact ⟨_, rfl⟩
  · obtain ⟨t, -, ht, -⟩ := exists_request { s with seq := s.seq + 1 } now w s.seq now
    exact ⟨t, ht⟩
  · exact ⟨_, rfl⟩

theorem callNext_of_wait {w : run.Worker} {scheduled : Instant} (hpc : (s.actors w).pc = .filling)
    (hm : (s.actors w).mayCall run.cap s.cancelled) (hb : run.work.begin s.seq now = .wait scheduled) :
    s.callNext now w =
      some ({ s with seq := s.seq + 1 }.setActor w { s.actors w with pc := .gated s.seq scheduled now }) := by
  simp only [callNext, hpc, hm, and_self, if_true, hb]

theorem exists_gateOpens {w : run.Worker} {index : Nat} {scheduled called : Instant}
    (hpc : (s.actors w).pc = .gated index scheduled called) (hle : scheduled ≤ now) (hc : s.cancelled = false) :
    ∃ t wire, s.gateOpens now w = some t ∧ Returns s now w index called wire t := by
  obtain ⟨t, wire, ht, hr⟩ := exists_request s now w index called
  exact ⟨t, wire, by simp only [gateOpens, hpc, hle, if_true, hc, Bool.false_eq_true, if_false, ht], hr⟩

/-- An actor at its first call. -/
def fresh (run : LoadRun) : Actor run.transport := { Actor.new run.transport run.progress with pc := .filling }

theorem isClosed_fresh (run : LoadRun) : run.transport.isClosed (fresh run).conn = false :=
  Dns.isClosed_connect run.target run.plan.config.proto

/-- Its guard holds, if its connection is open. -/
theorem mayCall_fresh {c : run.transport.Conn} (h : run.transport.isClosed c = false) :
    ({ fresh run with conn := c } : Actor run.transport).mayCall run.cap false = true := by
  simp [Actor.mayCall, fresh, Actor.new, h, run.cap_pos]

/-- The run in which the first worker has its connection. -/
def connected (run : LoadRun) : Load run := (init run).setActor (firstWorker run) (fresh run)

theorem connected_actors (run : LoadRun) : (connected run).actors (firstWorker run) = fresh run :=
  setActor_actors _ _ _

theorem reachable_connected (run : LoadRun) : Reachable Lts.Any ⟨run.start, connected run⟩ := by
  refine Lts.Reach.tail (.refl _) trivial (a := .act (.actor (firstWorker run) .connected)) ?_
  exact Lts.clocked_act.mpr ⟨connected run, by simp [step, Actor.step, init, Actor.new, connected, fresh], rfl⟩

/-! ## Closed connections -/

/-- Over the other transports, an actor whose correlator was closed calls `next`. -/
theorem exists_fed (h : run.plan.config.proto ≠ .doh) :
    ∃ t : Clocked (Load run), Reachable Lts.Any t ∧ ∃ w, run.transport.unusable (t.state.actors w).conn = true ∧
      ∃ u, t.state.callNext t.now w = some u := by
  obtain ⟨e, c, he, hu, ho⟩ := Dns.exists_unusable_open run.target h run.start
  let w := firstWorker run
  let s := (connected run).setActor w { fresh run with conn := c }
  have hs : Reachable Lts.Any ⟨run.start, s⟩ := by
    refine (reachable_connected run).tail trivial (a := .act (.actor w (.react e))) ?_
    refine Lts.clocked_act.mpr ⟨s, ?_, rfl⟩
    have ha : (fresh run).step run.cap run.timeout (connected run).cancelled run.start (.react e) =
        some { fresh run with conn := c } := by
      simp only [fresh, Actor.step, Actor.new, Pc.isLive, if_true]
      exact congrArg (Option.map _) he
    simp only [step, w, connected_actors, ha, Option.map_some, s]
  have hw : s.actors w = { fresh run with conn := c } := setActor_actors _ _ _
  refine ⟨_, hs, w, ?_, exists_callNext ?_ ?_⟩
  · rw [hw]
    exact hu
  · rw [hw]
    rfl
  · rw [hw]
    exact mayCall_fresh ho

/-- No actor with an unusable connection begins another call of `next`, in any
run of the plan, exactly when the plan is for DoH. -/
theorem closed_not_fed_iff (run : LoadRun) :
    (∀ t : Clocked (Load run), Reachable Lts.Any t → ∀ w, run.transport.unusable (t.state.actors w).conn = true →
      t.state.callNext t.now w = none) ↔ run.plan.config.proto = .doh := by
  refine ⟨fun h => ?_, fun h t _ w hu => ?_⟩
  · by_contra hp
    obtain ⟨t, ht, w, hu, u, hcall⟩ := exists_fed hp
    rw [h t ht w hu] at hcall
    cases hcall
  · have hc : run.transport.isClosed (t.state.actors w).conn = true :=
      (Dns.isClosed_eq_unusable run.target h _).trans hu
    simp [callNext, Actor.mayCall, hc]

/-! A run over TCP in which the peer closes the connection on the first query.
The actor goes on, and each further query fails where it starts
(`Framed.result_of_closed`), with no time passing. -/

/-- Three queries over TCP, one at a time. -/
def fedRun : LoadRun := sampleRun (sampleConfig .do53Tcp 1 none none (some 3)) (by decide +kernel) rfl

/-- Its worker. -/
def fedWorker : fedRun.Worker := ⟨0, by decide +kernel⟩

open Dns (FramedEvent FramedResume Reader Waiter) in
/-- The write of the first query fails, so the connection is closed; the actor goes on
to ask. -/
def closedOnFirst : List (Timed (Act fedRun)) :=
  let ask (q : Dns.Token) : List (Timed (Act fedRun)) :=
    [.act (.callNext fedWorker), .act (.actor fedWorker .guardFails), .act (.actor fedWorker .proceed),
      .act (.actor fedWorker (.poll q))]
  let react (e : FramedEvent) : Timed (Act fedRun) := .act (.actor fedWorker (.react e))
  [.act (.actor fedWorker .connected)] ++ ask 0 ++
    [.act (.actor fedWorker (.resume 0 (FramedResume.waiter .poll))), react .recv, react (.wrote false),
      react .shutdown, react (.reader .close), react (.reader (.notifyOne 0)),
      .act (.actor fedWorker (.resume 0 (FramedResume.waiter .wake))),
      .act (.actor fedWorker (.resume 0 (FramedResume.waiter .check))), .act (.actor fedWorker (.settle 0))] ++
    ask 1 ++ [.act (.actor fedWorker (.settle 1))]

/-- The actor goes on to call `next`. -/
theorem closed_fed :
    ¬ ∀ (run : LoadRun) (t : Clocked (Load run)), Reachable Lts.Any t → ∀ w,
      run.transport.unusable (t.state.actors w).conn = true → t.state.callNext t.now w = none := by
  intro h
  have hrun : ∃ t ∈ Lts.run (clocked step) ⟨0, init fedRun⟩ closedOnFirst,
      fedRun.transport.unusable (t.state.actors fedWorker).conn = true ∧
        (t.state.callNext t.now fedWorker).isSome := by decide +kernel
  obtain ⟨t, ht, hu, hcall⟩ := hrun
  rw [h fedRun t (Lts.Reach.of_run ht) fedWorker hu] at hcall
  cases hcall

/-! ## Exchanges behind a wait -/

theorem Reachable.start_le {C : Clocked (Load run) → Timed (Act run) → Prop} {t : Clocked (Load run)}
    (h : Reachable C t) : run.start ≤ t.now :=
  h.inv (I := fun now _ => run.start ≤ now) le_rfl (fun _ _ _ hdt hi => hi.trans (le_add_of_nonneg_right hdt))
    fun _ _ _ _ hi _ => hi

/-- Where the count or the budget of the slots ends before index 1, a call that
waits is the first, whose slot is the start of the run. -/
theorem scheduled_eq_start {gate : RateGate} (hg : run.work.gate = some gate)
    (h : (∃ n, run.plan.config.count = some n ∧ n ≤ 1) ∨
      (gate.slotSecs 1).ge (run.work.budgetSecs gate) = true) {index : Nat}
    {now scheduled : Instant} (hb : run.work.begin index now = .wait scheduled) : scheduled = run.start := by
  obtain ⟨gate', hg', -, hge⟩ := WorkSource.begin_wait hb
  cases hg.symm.trans hg'
  have hindex : index = 0 := by
    by_contra hne
    rcases h with ⟨n, hn, hle⟩ | hone
    · have := WorkSource.begin_lt_count (w := run.work) (by rw [hb]; exact Begin.noConfusion) hn
      omega
    · rw [RateGate.ge_mono (run.qps_pos hg) (Nat.one_le_iff_ne_zero.mpr hne) hone] at hge
      cases hge
  obtain ⟨gate', -, rfl, -⟩ := run.begin_wait hb
  rw [hindex, RateGate.delay_zero, add_zero]

/-- The slot of the first query comes with the run, and the first worker has it. -/
theorem exists_first (hb : run.work.begin 0 run.start = .wait run.start) :
    ∃ s wire, Reachable Lts.Any ⟨run.start, s⟩ ∧ s.seq = 1 ∧ s.cancelled = false ∧
      s.actors (firstWorker run) = (fresh run).pushExchange run.start 0 wire := by
  let w := firstWorker run
  let s := { connected run with seq := 1 }.setActor w { fresh run with pc := .gated 0 run.start run.start }
  have hcall : (connected run).callNext run.start w = some s := by
    have hw : (connected run).actors w = fresh run := connected_actors run
    have hcall := callNext_of_wait (w := w) (by rw [hw]; rfl) (hw ▸ mayCall_fresh (isClosed_fresh run)) hb
    rwa [hw] at hcall
  have hpc : (s.actors w).pc = .gated 0 run.start run.start := by rw [setActor_actors]
  obtain ⟨t, wire, ht, -, heq⟩ := exists_gateOpens hpc le_rfl rfl
  refine ⟨t, wire, ?_, by rw [heq]; rfl, by rw [heq]; rfl, ?_⟩
  · have hs := (reachable_connected run).tail trivial (a := .act (.callNext w)) (Lts.clocked_act.mpr ⟨s, hcall, rfl⟩)
    exact hs.tail trivial (a := .act (.gateOpens w)) (Lts.clocked_act.mpr ⟨_, ht, rfl⟩)
  · rw [heq, setActor_actors, setActor_actors]
    rfl

/-- With room and a slot for a second query, the first worker waits for that
slot with its first exchange not started. -/
theorem exists_held_back {gate : RateGate} (hg : run.work.gate = some gate) (hcap : 1 < run.cap)
    (hn : ∀ n, run.plan.config.count = some n → 1 < n)
    (hb : (gate.slotSecs 1).ge (run.work.budgetSecs gate) = false) :
    ∃ t : Clocked (Load run), Reachable Lts.Any t ∧ ∃ w index scheduled called,
      (t.state.actors w).pc = .gated index scheduled called ∧ t.now < scheduled ∧
        ∃ f ∈ (t.state.actors w).inflight, f.polled = false := by
  obtain ⟨hpos, hmax⟩ := run.gate_bounds hg
  have hfirst : run.work.begin 0 run.start = .wait run.start := by
    have hb0 : (gate.slotSecs 0).ge (run.work.budgetSecs gate) = false :=
      Bool.eq_false_of_not_eq_true fun h => by rw [RateGate.ge_mono hpos zero_le_one h] at hb; cases hb
    have hbegin := run.begin_of_gate hg (fun n hc => Nat.zero_lt_one.trans (hn n hc)) hb0 run.start
    rwa [RateGate.delay_zero, add_zero] at hbegin
  have hsecond := run.begin_of_gate hg hn hb run.start
  obtain ⟨s, wire, hs, hseq, hc, ha⟩ := exists_first hfirst
  have hmay : (s.actors (firstWorker run)).mayCall run.cap s.cancelled = true := by
    have hopen : run.transport.isClosed run.transport.connect = false := isClosed_fresh run
    simp [Actor.mayCall, ha, hc, Actor.pushExchange, fresh, Actor.new, hcap, hopen]
  have hcall := callNext_of_wait (by rw [ha]; rfl) hmay (by rw [hseq]; exact hsecond)
  refine ⟨_, hs.tail trivial (a := .act (.callNext (firstWorker run))) (Lts.clocked_act.mpr ⟨_, hcall, rfl⟩),
    firstWorker run, s.seq, run.start + gate.delay 1, run.start, by rw [setActor_actors], ?_, ?_⟩
  · exact lt_add_of_pos_right _ (RateGate.delay_one_pos hpos hmax (run.slot_lt hg hb))
  · refine ⟨⟨0, wire, 0, run.start, false⟩, ?_, rfl⟩
    simp [ha, Actor.pushExchange, fresh, Actor.new]

/-- In every run at a capped rate, an actor that waits for a slot has started
all its exchanges, exactly when the plan has no room in the window, or no slot,
for a second query. -/
theorem waiting_flushed_iff {gate : RateGate} (hg : run.work.gate = some gate) :
    (∀ t : Clocked (Load run), Reachable Lts.Any t → ∀ w index scheduled called,
      (t.state.actors w).pc = .gated index scheduled called → t.now < scheduled →
        ∀ f ∈ (t.state.actors w).inflight, f.polled = true) ↔
      run.cap ≤ 1 ∨ (∃ n, run.plan.config.count = some n ∧ n ≤ 1) ∨
        (gate.slotSecs 1).ge (run.work.budgetSecs gate) = true := by
  refine ⟨fun h => ?_, fun h t ht w index scheduled called hpc hlt f hf => ?_⟩
  · by_contra hcond
    simp only [not_or, not_exists, not_and, not_le, Bool.not_eq_true] at hcond
    obtain ⟨hcap, hn, hb⟩ := hcond
    obtain ⟨t, ht, w, index, scheduled, called, hpc, hlt, f, hf, hpolled⟩ := exists_held_back hg hcap hn hb
    rw [h t ht w index scheduled called hpc hlt f hf] at hpolled
    cases hpolled
  · rcases h with hcap | h
    · -- a call that waits has its place in the window
      have hroom := (ht.conserved w).gated hpc
      have hpos := List.length_pos_of_mem hf
      omega
    · rw [scheduled_eq_start hg h (ht.called.gated w hpc)] at hlt
      exact absurd ht.start_le (not_le.mpr hlt)

/-! Runs at 10 queries a second, with a window of one query and of two. -/

/-- Two queries over UDP at 10 qps, one at a time. -/
def narrowRun : LoadRun :=
  sampleRun (sampleConfig .do53Udp 1 (some (.ofRat 10)) none (some 2)) (by decide +kernel) rfl

/-- Two queries over UDP at 10 qps, two at a time. -/
def burstRun : LoadRun :=
  sampleRun (sampleConfig .do53Udp 2 (some (.ofRat 10)) none (some 2)) (by decide +kernel) rfl

/-- Its worker. -/
def burstWorker : burstRun.Worker := ⟨0, by decide +kernel⟩

/-- The first query is handed out, and the second waits for its slot. -/
def secondWaits : List (Timed (Act burstRun)) :=
  [.act (.actor burstWorker .connected), .act (.callNext burstWorker), .act (.gateOpens burstWorker),
    .act (.callNext burstWorker)]

/-- `waiting_flushed_iff` for a window of one. -/
theorem waiting_flushed_narrow :
    narrowRun.work.gate = some ⟨0, 10, .rounded⟩ ∧ ∀ t : Clocked (Load narrowRun), Reachable Lts.Any t →
      ∀ w index scheduled called, (t.state.actors w).pc = .gated index scheduled called → t.now < scheduled →
        ∀ f ∈ (t.state.actors w).inflight, f.polled = true := by
  have hg : narrowRun.work.gate = some ⟨0, 10, .rounded⟩ := by decide +kernel
  exact ⟨hg, (waiting_flushed_iff hg).mpr (.inl (by decide +kernel))⟩

/-- With a window of two the first query is held back by the wait for the second slot. -/
theorem burst_held_back :
    ¬ ∀ (run : LoadRun), run.work.gate.isSome → ∀ t : Clocked (Load run), Reachable Lts.Any t →
      ∀ w index scheduled called, (t.state.actors w).pc = .gated index scheduled called → t.now < scheduled →
        ∀ f ∈ (t.state.actors w).inflight, f.polled = true := by
  intro h
  have hrun : ∃ t ∈ Lts.run (clocked step) ⟨0, init burstRun⟩ secondWaits,
      t.now = 0 ∧ (t.state.actors burstWorker).pc = .gated 1 (1 / 10) 0 ∧
        ∃ f ∈ (t.state.actors burstWorker).inflight, f.polled = false := by decide +kernel
  obtain ⟨t, ht, hnow, hpc, f, hf, hpolled⟩ := hrun
  have := h burstRun (by decide +kernel) t (Lts.Reach.of_run ht) burstWorker _ _ _ hpc (by rw [hnow]; norm_num) f hf
  rw [hpolled] at this
  cases this

end Load

end WireSurge.Engine
