import WireSurge.Engine.Load

/-!
# Queries are conserved

Every query an actor has sent is counted once, or still in flight
(`Conserved`), whatever completes, ticks or is cancelled. The equation holds of
every slot that is published as running, and its sum over the actors of the
merged recorder (`aggregate_balance`). `conservation` puts them together.
-/

namespace WireSurge.Engine

open WireSurge.Metrics (LoadRecorder)
open WireSurge.Dns (Instant Bytes Transport)

/-- What the counters of an actor say of its window. -/
structure Conserved {T : Transport} (cap : Nat) (cancelled : Bool) (a : Actor T) : Prop where
  connecting : a.pc = .connecting → a.recorder.settled = 0 ∧ a.inflight = []
  failed : a.pc = .failed → a.recorder.sent = 0 ∧ a.recorder.settled = 1 ∧ a.inflight = []
  balance : a.pc ≠ .failed → a.recorder.sent = a.recorder.settled + a.inflight.length
  window : a.inflight.length ≤ cap
  /-- A call that waits has its place in the window. -/
  gated {index : Nat} {scheduled called : Instant} : a.pc = .gated index scheduled called → a.inflight.length < cap
  published {slot : WorkerSlot} : a.slot = some slot → slot.status = .running →
    slot.recorder.sent = slot.recorder.settled + slot.inFlight
  draining {until_ : Instant} : a.pc = .draining until_ → a.interrupted = true
  stopped : a.pc = .closing ∨ a.pc = .done → a.interrupted = false → a.inflight = []
  interrupted : a.interrupted = true → cancelled = true

namespace Conserved

variable {T : Transport} {cap : Nat} {cancelled : Bool} {now : Instant} {a b : Actor T}

theorem new (T : Transport) (cap : Nat) (progress : Bool) : Conserved cap false (Actor.new T progress) where
  connecting _ := ⟨rfl, rfl⟩
  failed h := by cases h
  balance _ := rfl
  window := Nat.zero_le _
  gated h := by cases h
  published {slot} h hs := by
    cases progress
    · cases h
    · cases h; cases hs
  draining h := by cases h
  stopped h := by rcases h with h | h <;> cases h
  interrupted h := by cases h

theorem cancel (h : Conserved cap cancelled a) : Conserved cap true a :=
  { h with interrupted := fun _ => rfl }

/-- A step that changes the place of the actor, and not its counters and window. -/
theorem move (h : Conserved cap cancelled a) (hf : a.pc ≠ .failed) (hr : b.recorder = a.recorder)
    (hi : b.inflight.length = a.inflight.length) (hn : b.interrupted = true → cancelled = true)
    (hpub : ∀ {slot}, b.slot = some slot → slot.status = .running →
      slot.recorder.sent = slot.recorder.settled + slot.inFlight)
    (hc : b.pc = .connecting → a.pc = .connecting) (hfail : b.pc ≠ .failed)
    (hg : ∀ {index scheduled called}, b.pc = .gated index scheduled called → b.inflight.length < cap)
    (hd : ∀ {until_}, b.pc = .draining until_ → b.interrupted = true)
    (hs : b.pc = .closing ∨ b.pc = .done → b.interrupted = false → b.inflight = []) :
    Conserved cap cancelled b where
  connecting hb := by
    have := h.connecting (hc hb)
    rw [hr]
    exact ⟨this.1, List.length_eq_zero_iff.mp (by rw [hi, this.2]; rfl)⟩
  failed hb := absurd hb hfail
  balance _ := by rw [hr, hi]; exact h.balance hf
  window := by rw [hi]; exact h.window
  gated := hg
  published := hpub
  draining := hd
  stopped := hs
  interrupted := hn

theorem exhaust (h : Conserved cap cancelled a) (hpc : a.pc = .filling ∨ ∃ i s c, a.pc = .gated i s c) :
    Conserved cap cancelled a.exhaust := by
  refine h.move ?_ rfl rfl h.interrupted h.published ?_ ?_ ?_ ?_ ?_
  · rcases hpc with hpc | ⟨i, s, c, hpc⟩ <;> simp [hpc]
  all_goals simp [Actor.exhaust]

theorem wait (h : Conserved cap cancelled a) (hpc : a.pc = .filling) (hroom : a.inflight.length < cap) (index : Nat)
    (scheduled called : Instant) : Conserved cap cancelled { a with pc := .gated index scheduled called } := by
  refine h.move (by simp [hpc]) rfl rfl h.interrupted h.published ?_ ?_ (fun _ => hroom) ?_ ?_
  all_goals simp

/-- A request is sent and in flight. -/
theorem pushExchange (h : Conserved cap cancelled a) (hpc : a.pc ≠ .failed) (hroom : a.inflight.length < cap)
    (index : Nat) (wire : Bytes) : Conserved cap cancelled (a.pushExchange now index wire) where
  connecting hb := by cases hb
  failed hb := by cases hb
  balance _ := by
    have := h.balance hpc
    simp only [Actor.pushExchange, LoadRecorder.sent_onSent, LoadRecorder.settled_onSent, List.length_append,
      List.length_singleton]
    omega
  window := by simp only [Actor.pushExchange, List.length_append, List.length_singleton]; omega
  gated hb := by cases hb
  published := h.published
  draining hb := by cases hb
  stopped hb := by rcases hb with hb | hb <;> cases hb
  interrupted := h.interrupted

/-- An exchange is over: counted once, and no longer in flight. -/
theorem settle (h : Conserved cap cancelled a) {f : Flight} {result : Dns.Outcome} {pc : Pc}
    (hf : a.flight? f.token = some f)
    (hpc : a.pc = .selecting ∧ pc = .filling ∨ ∃ until_, a.pc = .draining until_ ∧ pc = a.pc) :
    Conserved cap cancelled (a.settle now f result pc) := by
  have hmem : f ∈ a.inflight := List.mem_of_find?_eq_some hf
  have hlen : (a.inflight.eraseP fun g => g.token = f.token).length = a.inflight.length - 1 :=
    List.length_eraseP_of_mem hmem (by simp)
  have hpos : 0 < a.inflight.length := List.length_pos_of_mem hmem
  have hnf : a.pc ≠ .failed := by rcases hpc with ⟨hpc, -⟩ | ⟨u, hpc, -⟩ <;> simp [hpc]
  have hpc' : pc = .filling ∨ ∃ until_, pc = .draining until_ ∧ a.pc = .draining until_ := by
    rcases hpc with ⟨-, hpc⟩ | ⟨u, hpc, rfl⟩
    · exact .inl hpc
    · exact .inr ⟨u, hpc, hpc⟩
  have hbal := h.balance hnf
  have hwin := h.window
  constructor
  · intro hb
    rcases hpc' with rfl | ⟨u, rfl, -⟩ <;> cases hb
  · intro hb
    rcases hpc' with rfl | ⟨u, rfl, -⟩ <;> cases hb
  · intro _
    simp only [Actor.settle, LoadRecorder.sent_record, LoadRecorder.settled_record, hlen]
    omega
  · simp only [Actor.settle, hlen]
    omega
  · intro index scheduled called hb
    rcases hpc' with rfl | ⟨u, rfl, -⟩ <;> cases hb
  · exact h.published
  · intro until_ hb
    rcases hpc' with rfl | ⟨u, rfl, hu⟩
    · cases hb
    · exact h.draining hu
  · intro hb
    rcases hpc' with rfl | ⟨u, rfl, -⟩ <;> rcases hb with hb | hb <;> cases hb
  · exact h.interrupted

theorem step (h : Conserved cap cancelled a) (hl : Actor.Local now cancelled a b) : Conserved cap cancelled b := by
  cases hl with
  | connected hpc =>
    refine h.move (by simp [hpc]) rfl rfl h.interrupted h.published ?_ ?_ ?_ ?_ ?_
    all_goals simp
  | connectFailed hpc =>
    obtain ⟨hset, hin⟩ := h.connecting hpc
    have hsent := h.balance (by simp [hpc])
    rw [hset, hin] at hsent
    refine ⟨fun hb => ?_, fun _ => ⟨hsent, ?_, hin⟩, fun hb => absurd rfl hb, h.window, fun hb => ?_, fun hb hs => ?_,
      fun hb => ?_, fun hb => ?_, h.interrupted⟩
    · cases hb
    · simp [Actor.publish, hset]
    · cases hb
    · obtain ⟨-, -, rfl⟩ := Option.map_eq_some_iff.mp hb
      cases hs
    · cases hb
    · rcases hb with hb | hb <;> cases hb
  | @moved pc hm =>
    have hin : pc = .closing → a.inflight = [] := by
      rintro rfl
      rcases hm with ⟨-, h⟩ | ⟨-, ⟨h, -⟩ | h | ⟨-, h⟩⟩
      · cases h
      · cases h
      · cases h
      · exact h
    have hpc : a.pc = .filling ∨ a.pc = .filled := hm.imp And.left And.left
    have hpc' : pc = .filled ∨ pc = .filling ∨ pc = .selecting ∨ pc = .closing := by
      rcases hm with ⟨-, h⟩ | ⟨-, ⟨h, -⟩ | h | ⟨h, -⟩⟩ <;> simp [h]
    refine h.move ?_ rfl rfl h.interrupted h.published ?_ ?_ ?_ ?_ ?_
    · rcases hpc with hpc | hpc <;> simp [hpc]
    · rcases hpc' with rfl | rfl | rfl | rfl <;> simp
    · rcases hpc' with rfl | rfl | rfl | rfl <;> simp
    · rcases hpc' with rfl | rfl | rfl | rfl <;> simp
    · rcases hpc' with rfl | rfl | rfl | rfl <;> simp
    · rintro (hb | hb) -
      · exact hin hb
      · rcases hpc' with rfl | rfl | rfl | rfl <;> cases hb
  | conn hpc =>
    exact ⟨h.connecting, h.failed, h.balance, h.window, h.gated, h.published, h.draining, h.stopped, h.interrupted⟩
  | polled hpc hf =>
    refine h.move ?_ rfl (List.length_map ..) h.interrupted h.published (fun hb => hb) ?_ (fun hb => ?_) h.draining
      (fun hb => ?_)
    · rintro hb; rw [hb] at hpc; cases hpc
    · rintro hb; rw [show a.pc = .failed from hb] at hpc; cases hpc
    · rw [show a.pc = _ from hb] at hpc; cases hpc
    · rcases hb with hb | hb <;> rw [show a.pc = _ from hb] at hpc <;> cases hpc
  | settled hf _ hpc => exact h.settle hf hpc
  | tick hpc =>
    refine h.move (by simp [hpc]) rfl rfl h.interrupted (fun hb _ => ?_) ?_ ?_ ?_ ?_ ?_
    · obtain ⟨-, -, rfl⟩ := Option.map_eq_some_iff.mp hb
      exact h.balance (by simp [hpc])
    all_goals simp [Actor.publish]
  | cancelArm hpc hc =>
    refine h.move (by simp [hpc]) rfl rfl (fun _ => hc) h.published ?_ ?_ ?_ ?_ ?_
    all_goals simp
  | drained hpc =>
    refine h.move (by simp [hpc]) rfl rfl h.interrupted h.published ?_ ?_ ?_ ?_ (fun _ hb => ?_)
    · simp
    · simp
    · simp
    · simp
    · rw [h.draining hpc] at hb
      cases hb
  | finish hpc =>
    refine h.move (by simp [hpc]) rfl rfl h.interrupted (fun hb hs => ?_) ?_ ?_ ?_ ?_ fun _ => h.stopped (.inl hpc)
    · obtain ⟨-, -, rfl⟩ := Option.map_eq_some_iff.mp hb
      cases hs
    all_goals simp [Actor.publish]
  | panic hpc =>
    refine h.move ?_ rfl rfl h.interrupted h.published ?_ ?_ ?_ ?_ ?_
    · rintro hb
      rw [hb] at hpc
      rcases hpc with hpc | hpc <;> cases hpc
    all_goals simp

end Conserved

namespace Load

open Lts (Clocked Timed)

variable {run : LoadRun}

theorem room_of_mayCall {T : Transport} {cap : Nat} {cancelled : Bool} {a : Actor T}
    (h : a.mayCall cap cancelled) : a.inflight.length < cap := by
  simp only [Actor.mayCall, Bool.and_eq_true, decide_eq_true_eq] at h
  exact h.1.1.1

/-- Every actor of the run keeps its equation. -/
theorem Effect.conserved {s t : Load run} {now : Instant} {x : Act run} (he : Effect now s x t)
    (h : ∀ w, Conserved run.cap s.cancelled (s.actors w)) : ∀ w, Conserved run.cap t.cancelled (t.actors w) := by
  cases he with
  | cancel => exact fun w => (h w).cancel
  | refused hpc hmay hb => exact forall_setActor h ((h _).exhaust (.inl hpc))
  | waits hpc hmay hb => exact forall_setActor h ((h _).wait hpc (room_of_mayCall hmay) _ _ _)
  | ready hpc hmay hb hr =>
    obtain ⟨-, rfl⟩ := hr
    exact forall_setActor h ((h _).pushExchange (by simp [hpc]) (room_of_mayCall hmay) _ _)
  | opens hpc _ _ hr =>
    obtain ⟨-, rfl⟩ := hr
    exact forall_setActor h ((h _).pushExchange (by simp [hpc]) ((h _).gated hpc) _ _)
  | given hpc _ _ => exact forall_setActor h ((h _).exhaust (.inr ⟨_, _, _, hpc⟩))
  | actor hl => exact forall_setActor h ((h _).step hl)

theorem Reachable.conserved {C : Clocked (Load run) → Timed (Act run) → Prop} {t : Clocked (Load run)}
    (h : Reachable C t) (w : run.Worker) : Conserved run.cap t.state.cancelled (t.state.actors w) :=
  h.inv (I := fun _ s => ∀ w, Conserved run.cap s.cancelled (s.actors w)) (fun _ => .new _ _ _)
    (fun _ _ _ _ hi => hi) (fun _ _ _ _ hi he => he.conserved hi) w

/-! ## The aggregate -/

/-- The futures in flight of all actors; those of an actor that has ended are dropped. -/
def totalInFlight (s : Load run) : Nat :=
  ((List.finRange run.concurrency).map fun w => (s.actors w).inflight.length).sum

/-- The actors that never had a connection. -/
def failedConnects (s : Load run) : Nat := (List.finRange run.concurrency).countP fun w => (s.actors w).pc = .failed

theorem foldl_balance (s : Load run) (h : ∀ w, Conserved run.cap s.cancelled (s.actors w))
    (hp : ∀ w, (s.actors w).pc ≠ .panicked) (ws : List run.Worker) (r : LoadRecorder) :
    let total := (ws.map fun w => joined (s.actors w)).foldl mergeActorResult r
    total.sent + (ws.countP fun w => (s.actors w).pc = .failed) + r.settled =
      total.settled + (ws.map fun w => (s.actors w).inflight.length).sum + r.sent := by
  induction ws generalizing r with
  | nil => simp only [List.map_nil, List.foldl_nil, List.countP_nil, List.sum_nil]; omega
  | cons w ws ih =>
    have hw := ih (r.merge (s.actors w).recorder)
    have hj : mergeActorResult r (joined (s.actors w)) = r.merge (s.actors w).recorder := by
      rw [joined, if_neg (hp w), mergeActorResult, Option.getD_some]
    simp only [LoadRecorder.sent_merge, LoadRecorder.settled_merge] at hw
    simp only [List.map_cons, List.foldl_cons, hj, List.countP_cons, List.sum_cons]
    by_cases hf : (s.actors w).pc = .failed
    · obtain ⟨hsent, hset, hin⟩ := (h w).failed hf
      simp only [hf, decide_true, if_true, hin, List.length_nil]
      omega
    · have hbal := (h w).balance hf
      simp only [hf, decide_false, Bool.false_eq_true, if_false]
      omega

/-- The equations of the workers add up in the aggregate, with one connection
error for each failed connect. -/
theorem aggregate_balance (s : Load run) (h : ∀ w, Conserved run.cap s.cancelled (s.actors w))
    (hp : ∀ w, (s.actors w).pc ≠ .panicked) :
    s.aggregate.sent + s.failedConnects = s.aggregate.settled + s.totalInFlight := by
  have := foldl_balance s h hp (List.finRange run.concurrency) .new
  simpa [aggregate, failedConnects, totalInFlight] using this

/-- In every state of every run: the queries sent by an actor with a connection
are those with an outcome and those in flight; so it is in every slot published
as running; an actor that was not cancelled ends with none in flight, a
cancelled one with at most its window; and when no actor has panicked, the
aggregate is the sum of the workers. -/
theorem conservation {t : Clocked (Load run)} (h : Reachable Lts.Any t) :
    (∀ w, (t.state.actors w).pc ≠ .failed →
      (t.state.actors w).recorder.sent =
        (t.state.actors w).recorder.settled + (t.state.actors w).inflight.length) ∧
    (∀ w slot, (t.state.actors w).slot = some slot → slot.status = .running →
      slot.recorder.sent = slot.recorder.settled + slot.inFlight) ∧
    (∀ w, (t.state.actors w).pc = .done →
      ((t.state.actors w).interrupted = false →
        (t.state.actors w).recorder.sent = (t.state.actors w).recorder.settled) ∧
      (t.state.actors w).recorder.sent ≤ (t.state.actors w).recorder.settled + run.cap ∧
      ((t.state.actors w).interrupted = true → t.state.cancelled = true)) ∧
    ((∀ w, (t.state.actors w).pc ≠ .panicked) →
      t.state.aggregate.sent + t.state.failedConnects = t.state.aggregate.settled + t.state.totalInFlight) := by
  have hc := h.conserved
  refine ⟨fun w => (hc w).balance, fun w slot => (hc w).published, fun w hd => ?_,
    aggregate_balance t.state hc⟩
  have hbal := (hc w).balance (by simp [hd])
  refine ⟨fun hi => ?_, ?_, (hc w).interrupted⟩
  · rw [hbal, (hc w).stopped (.inr hd) hi]
    rfl
  · have := (hc w).window
    omega

/-! A run in which the one query is answered. -/

def countRun : LoadRun := sampleRun (sampleConfig .do53Udp 2 none none (some 1)) (by decide +kernel) rfl

def countWorker : countRun.Worker := ⟨0, by decide +kernel⟩

open Dns (UdpResume Reader) in
def answeredOnce : List (Timed (Act countRun)) :=
  [.act (.actor countWorker .connected), .act (.callNext countWorker), .act (.callNext countWorker),
    .act (.actor countWorker .proceed), .act (.actor countWorker (.poll 0)),
    .act (.actor countWorker (.resume 0 UdpResume.sent)),
    .act (.actor countWorker (.resume 0 (UdpResume.waiter .poll))), .elapse 1,
    .act (.actor countWorker (.react (Reader.complete (Dns.Session.replyA 0)))),
    .act (.actor countWorker (.react (Reader.notifyOne 0))),
    .act (.actor countWorker (.resume 0 (UdpResume.waiter .wake))),
    .act (.actor countWorker (.resume 0 (UdpResume.waiter .check))), .act (.actor countWorker (.settle 0)),
    .act (.actor countWorker .guardFails), .act (.actor countWorker .proceed), .act (.actor countWorker .finish)]

/-- A run to `conservation`: one query, its reply, and the aggregate. -/
theorem conservation_answered : ∃ t,
    Lts.run (Lts.clocked step) ⟨0, init countRun⟩ answeredOnce = some t ∧
      (t.state.actors countWorker).pc = .done ∧ (t.state.actors countWorker).recorder.received = 1 ∧
      (t.state.actors countWorker).recorder.sent = (t.state.actors countWorker).recorder.settled ∧
      t.state.aggregate.sent + t.state.failedConnects = t.state.aggregate.settled + t.state.totalInFlight := by
  have hrun : ∃ t ∈ Lts.run (Lts.clocked step) ⟨0, init countRun⟩ answeredOnce,
      (t.state.actors countWorker).pc = .done ∧ (t.state.actors countWorker).recorder.received = 1 ∧
        (t.state.actors countWorker).interrupted = false ∧
        ∀ w ∈ List.finRange countRun.concurrency, (t.state.actors w).pc ≠ .panicked := by decide +kernel
  obtain ⟨t, ht, hpc, hrec, hint, hpanic⟩ := hrun
  obtain ⟨-, -, hdone, hagg⟩ := conservation (Lts.Reach.of_run ht)
  exact ⟨t, ht, hpc, hrec, (hdone countWorker hpc).1 hint, hagg fun w => hpanic w (List.mem_finRange w)⟩

end Load

end WireSurge.Engine
