import WireSurge.Engine.Budget
import WireSurge.Metrics.Snapshot

/-!
# The end of a load run

What `run_load_with_progress` gives when all its actors are joined: the merged
recorder and the list of the workers, in `LoadStats` and in the final snapshot.
Every worker is in the list once, and listed as done; so the list is truthful
exactly when every worker had its connection (`final_workers_iff`). The slot of
a worker whose connect failed says so (`Reported`).
-/

namespace WireSurge.Engine

open Lts (Clocked Timed)
open WireSurge.Dns (Instant Transport)
open WireSurge.Metrics (AggregateStats Histogram LoadRecorder RunSnapshot WorkerStats)

/-- The texts of the slots. -/
def WorkerStatus.text : WorkerStatus → String
  | .starting => "starting"
  | .running => "running"
  | .done => "done"
  | .failed => "failed"

/-- The name of the worker `index`. -/
def workerId (index : Nat) : String := "worker-" ++ toString index

theorem workerId_inj {i j : Nat} (h : workerId i = workerId j) : i = j := by
  rw [workerId, workerId, String.append_right_inj] at h
  exact Nat.repr_injective h

/-- `LoadStats`. -/
structure LoadStats where
  duration : Double
  recorder : LoadRecorder
  workers : List WorkerStats
  cancelled : Bool

/-- What is sent last. -/
def LoadStats.finalSnapshot (lib : Histogram) (stats : LoadStats) : RunSnapshot where
  elapsed := stats.duration
  finalSample := true
  aggregate := .fromRecorder lib stats.recorder stats.duration 0
  workers := stats.workers

/-- The joined recorders, by worker id. -/
def listWorkers (lib : Histogram) (recorders : List (Nat × LoadRecorder)) (duration : Double) : List WorkerStats :=
  recorders.map fun (index, recorder) => recorder.snapshotWorker lib (workerId index) "done" duration 0

/-- A worker as the sampler shows its slot. -/
def WorkerSlot.shown (lib : Histogram) (slot : WorkerSlot) (index : Nat) (elapsed : Double) : WorkerStats :=
  slot.recorder.snapshotWorker lib (workerId index) slot.status.text elapsed slot.inFlight

namespace Load

variable {run : LoadRun}

/-- The recorders of the workers, as they are joined. -/
def recorders (s : Load run) : List (Nat × LoadRecorder) :=
  (List.finRange run.concurrency).map fun w => (w.val, (joined (s.actors w)).getD LoadRecorder.new.onConnError)

/-- The workers as the final snapshot lists them. -/
def finalWorkers (lib : Histogram) (s : Load run) (duration : Double) : List WorkerStats :=
  listWorkers lib s.recorders duration

/-- The statistics of a run, of its recorders at the end. -/
def loadStats (lib : Histogram) (s : Load run) (duration : Double) : LoadStats where
  duration := duration
  recorder := s.aggregate
  workers := s.finalWorkers lib duration
  cancelled := s.cancelled

/-- The final snapshot of the run. -/
def finalSnapshot (lib : Histogram) (s : Load run) (duration : Double) : RunSnapshot :=
  (s.loadStats lib duration).finalSnapshot lib

/-! ## Connections -/

/-- History: which workers have had their connection. -/
def noteConnected (_ : Clocked (Load run)) (x : Timed (Act run)) (connected : run.Worker → Bool) : run.Worker → Bool :=
  match x with
  | .act (.actor w .connected) => Function.update connected w true
  | _ => connected

/-- The states of a run, with its history of connections. -/
def Reachable.Noted (t : Clocked (Load run) × (run.Worker → Bool)) : Prop :=
  Lts.Reach (Lts.noted (Lts.clocked step) noteConnected) Lts.Any (⟨run.start, init run⟩, fun _ => false) t

end Load

namespace Actor

variable {T : Transport} {a b : Actor T} {cap : Nat} {timeout : Dns.Duration} {cancelled : Bool} {now : Instant}

@[simp] theorem isSome_publish (inFlight : Nat) (status : WorkerStatus) :
    (a.publish inFlight status).slot.isSome = a.slot.isSome := Option.isSome_map

/-- How an actor leaves the connect. -/
theorem step_of_connecting (hpc : a.pc = .connecting) {x : Act T}
    (h : a.step cap timeout cancelled now x = some b) :
    x = .connected ∧ b = { a with pc := .filling } ∨
      x ≠ .connected ∧ (b = ({ a with pc := .failed, recorder := a.recorder.onConnError }.publish 0 .failed) ∨
        b = { a with pc := .panicked }) := by
  cases x with
  | connected =>
    simp only [step, Option.ite_none_right_eq_some, Option.some.injEq] at h
    exact .inl ⟨rfl, h.2.symm⟩
  | connectFailed | connectCancelled =>
    simp only [step, Option.ite_none_right_eq_some, Option.some.injEq] at h
    exact .inr ⟨by simp, .inl h.2.symm⟩
  | panic =>
    simp only [step, Option.ite_none_right_eq_some, Option.some.injEq] at h
    exact .inr ⟨by simp, .inr h.2.symm⟩
  | settle tok =>
    simp only [step, hpc] at h
    split at h
    · split at h <;> cases h
    · cases h
  | _ => simp [step, hpc, Pc.awaits, Pc.isLive] at h

/-- Behind the connect an actor does not come to it again. -/
theorem Local.behind (h : Local now cancelled a b) (hpc : a.pc ≠ .connecting) :
    a.pc ≠ .failed ∧ b.pc ≠ .connecting ∧ b.pc ≠ .failed ∧ b.slot.isSome = a.slot.isSome := by
  cases h with
  | connected hc | connectFailed hc => exact absurd hc hpc
  | moved hm =>
    rcases hm with ⟨ha, rfl⟩ | ⟨ha, ⟨rfl, -⟩ | rfl | ⟨rfl, -⟩⟩ <;>
      exact ⟨ha ▸ Pc.noConfusion, Pc.noConfusion, Pc.noConfusion, rfl⟩
  | conn hl | polled hl =>
    have hfailed : a.pc ≠ .failed := fun hf => by rw [hf] at hl; cases hl
    exact ⟨hfailed, hpc, hfailed, rfl⟩
  | settled _ _ hm =>
    rcases hm with ⟨ha, rfl⟩ | ⟨until_, ha, rfl⟩
    · exact ⟨ha ▸ Pc.noConfusion, Pc.noConfusion, Pc.noConfusion, rfl⟩
    · have hfailed : a.pc ≠ .failed := ha ▸ Pc.noConfusion
      exact ⟨hfailed, hpc, hfailed, rfl⟩
  | tick ha | finish ha =>
    exact ⟨ha ▸ Pc.noConfusion, Pc.noConfusion, Pc.noConfusion, isSome_publish _ _⟩
  | cancelArm ha | drained ha => exact ⟨ha ▸ Pc.noConfusion, Pc.noConfusion, Pc.noConfusion, rfl⟩
  | panic hl =>
    have hfailed : a.pc ≠ .failed := fun hf => by rw [hf] at hl; rcases hl with hl | hl <;> cases hl
    exact ⟨hfailed, Pc.noConfusion, Pc.noConfusion, rfl⟩

/-- What the place of an actor says of its connection, and its slot of its place. -/
structure Reported (progress : Bool) (connected : Bool) (a : Actor T) : Prop where
  slotted : a.slot.isSome = progress
  connecting : a.pc = .connecting → connected = false
  failed : a.pc = .failed → connected = false ∧ ∀ slot ∈ a.slot, slot.status = .failed ∧ slot.inFlight = 0
  connected : a.pc ≠ .connecting → a.pc ≠ .failed → a.pc ≠ .panicked → connected = true

namespace Reported

variable {progress connected : Bool}

theorem new (T : Transport) (progress : Bool) : Reported progress false (Actor.new T progress) where
  slotted := by cases progress <;> rfl
  connecting _ := rfl
  failed h := by cases h
  connected h := absurd rfl h

/-- An actor that is behind its connect, and stays there. -/
theorem behind (h : Reported progress connected a) (hs : b.slot.isSome = a.slot.isSome) (ha : a.pc ≠ .connecting)
    (hf : a.pc ≠ .failed) (hp : a.pc ≠ .panicked) (hb : b.pc ≠ .connecting) (hbf : b.pc ≠ .failed) :
    Reported progress connected b where
  slotted := hs.trans h.slotted
  connecting hc := absurd hc hb
  failed hc := absurd hc hbf
  connected _ _ _ := h.connected ha hf hp

theorem step (h : Reported progress connected a) {x : Act T} (hx : a.step cap timeout cancelled now x = some b) :
    (x = .connected → Reported progress true b) ∧ (x ≠ .connected → Reported progress connected b) := by
  by_cases hpc : a.pc = .connecting
  · rcases step_of_connecting hpc hx with ⟨rfl, rfl⟩ | ⟨hne, rfl | rfl⟩
    · exact ⟨fun _ => ⟨h.slotted, nofun, nofun, fun _ _ _ => rfl⟩, fun hne => absurd rfl hne⟩
    · refine ⟨fun he => absurd he hne, fun _ => ⟨(isSome_publish _ _).trans h.slotted, nofun, fun _ => ?_, ?_⟩⟩
      · refine ⟨h.connecting hpc, fun slot hslot => ?_⟩
        obtain ⟨old, -, rfl⟩ := Option.mem_map.mp hslot
        exact ⟨rfl, rfl⟩
      · exact fun _ hf => absurd rfl hf
    · exact ⟨fun he => absurd he hne, fun _ => ⟨h.slotted, nofun, nofun, fun _ _ hp => absurd rfl hp⟩⟩
  · have hl := local_of_step hx
    obtain ⟨hf, hb, hbf, hs⟩ := hl.behind hpc
    have hreported := h.behind hs hpc hf hl.not_panicked hb hbf
    have htrue : connected = true := h.connected hpc hf hl.not_panicked
    exact ⟨fun _ => htrue ▸ hreported, fun _ => hreported⟩

end Reported

end Actor

namespace Load

variable {run : LoadRun}

theorem noteConnected_of_ne {s : Clocked (Load run)} {w : run.Worker} {x : Actor.Act run.transport}
    {connected : run.Worker → Bool} (h : x ≠ .connected) :
    noteConnected s (.act (.actor w x)) connected = connected := by
  cases x with
  | connected => exact absurd rfl h
  | _ => rfl

theorem reported_step {s v : Load run} {now : Instant} {x : Act run} {connected : run.Worker → Bool}
    (h : ∀ w, Actor.Reported run.progress (connected w) (s.actors w)) (hx : s.step now x = some v) :
    ∀ w, Actor.Reported run.progress (noteConnected ⟨now, s⟩ (.act x) connected w) (v.actors w) := by
  have hon {w : run.Worker} {a : Actor run.transport} (hs : a.slot.isSome = (s.actors w).slot.isSome)
      (hw : (s.actors w).pc = .filling ∨ ∃ i slot called, (s.actors w).pc = .gated i slot called)
      (ha : a.pc = .filling ∨ a.pc = .filled ∨ ∃ i slot called, a.pc = .gated i slot called) :
      Actor.Reported run.progress (connected w) a := by
    refine (h w).behind hs ?_ ?_ ?_ ?_ ?_
    · rcases hw with hw | ⟨_, _, _, hw⟩ <;> simp [hw]
    · rcases hw with hw | ⟨_, _, _, hw⟩ <;> simp [hw]
    · rcases hw with hw | ⟨_, _, _, hw⟩ <;> simp [hw]
    · rcases ha with ha | ha | ⟨_, _, _, ha⟩ <;> simp [ha]
    · rcases ha with ha | ha | ⟨_, _, _, ha⟩ <;> simp [ha]
  cases effect_of_step hx with
  | cancel => exact h
  | refused hpc => exact forall_setActor h (hon rfl (.inl hpc) (.inr (.inl rfl)))
  | waits hpc => exact forall_setActor h (hon rfl (.inl hpc) (.inr (.inr ⟨_, _, _, rfl⟩)))
  | ready hpc _ _ hr =>
    obtain ⟨-, rfl⟩ := hr
    exact forall_setActor h (hon rfl (.inl hpc) (.inl rfl))
  | opens hpc _ _ hr =>
    obtain ⟨-, rfl⟩ := hr
    exact forall_setActor h (hon rfl (.inr ⟨_, _, _, hpc⟩) (.inl rfl))
  | given hpc _ hor =>
    rcases hor with rfl | rfl <;> exact forall_setActor h (hon rfl (.inr ⟨_, _, _, hpc⟩) (.inr (.inl rfl)))
  | @actor w y a hl =>
    obtain ⟨b, hb, heq⟩ := Option.map_eq_some_iff.mp hx
    rw [← heq]
    obtain ⟨hconnected, hother⟩ := (h w).step hb
    by_cases hy : y = .connected
    · subst hy
      intro w'
      by_cases hw : w' = w
      · subst hw
        rw [setActor_actors, noteConnected, Function.update_self]
        exact hconnected rfl
      · rw [setActor_actors_of_ne _ _ hw, noteConnected, Function.update_of_ne hw]
        exact h w'
    · rw [noteConnected_of_ne hy]
      exact forall_setActor h (hother hy)

theorem Reachable.Noted.reported {t : Clocked (Load run) × (run.Worker → Bool)} (h : Noted t) (w : run.Worker) :
    Actor.Reported run.progress (t.2 w) (t.1.state.actors w) := by
  refine Lts.Reach.inv (I := fun t : Clocked (Load run) × (run.Worker → Bool) =>
    ∀ w, Actor.Reported run.progress (t.2 w) (t.1.state.actors w)) h (fun _ => .new _ _) ?_ w
  rintro ⟨s, connected⟩ x t hi - hx
  obtain ⟨u, hu, rfl⟩ := Option.map_eq_some_iff.mp hx
  cases x with
  | elapse dt =>
    obtain ⟨-, rfl⟩ := Lts.clocked_elapse.mp hu
    exact hi
  | act x =>
    obtain ⟨v, hv, rfl⟩ := Lts.clocked_act.mp hu
    exact reported_step hi hv

/-! ## Truthful workers -/

/-- Each worker is listed once, and as failed when it never had its connection. -/
structure TruthfulWorkers (connected : run.Worker → Bool) (workers : List WorkerStats) : Prop where
  once (w : run.Worker) : (workers.map WorkerStats.id).count (workerId w) = 1
  only : workers.length = run.concurrency
  failed (w : run.Worker) : connected w = false → ∀ stats ∈ workers, stats.id = workerId w →
    stats.status = "failed" ∧ stats.openConnections = 0

theorem ids_finalWorkers (lib : Histogram) (s : Load run) (duration : Double) :
    (s.finalWorkers lib duration).map WorkerStats.id =
      (List.finRange run.concurrency).map fun w : run.Worker => workerId w.val := by
  simp only [finalWorkers, listWorkers, recorders, List.map_map]
  rfl

theorem mem_ids_finalWorkers (lib : Histogram) (s : Load run) (duration : Double) (w : run.Worker) :
    workerId w ∈ (s.finalWorkers lib duration).map WorkerStats.id := by
  rw [ids_finalWorkers]
  exact List.mem_map.mpr ⟨w, List.mem_finRange w, rfl⟩

theorem count_finalWorkers (lib : Histogram) (s : Load run) (duration : Double) (w : run.Worker) :
    ((s.finalWorkers lib duration).map WorkerStats.id).count (workerId w) = 1 := by
  have hnodup : ((s.finalWorkers lib duration).map WorkerStats.id).Nodup := by
    rw [ids_finalWorkers]
    exact (List.nodup_finRange _).map fun _ _ h => Fin.ext (workerId_inj h)
  exact List.count_eq_one_of_mem hnodup (mem_ids_finalWorkers lib s duration w)

/-- Every worker is listed as done, with its connection. -/
theorem finalWorkers_done (lib : Histogram) (s : Load run) (duration : Double) :
    ∀ stats ∈ s.finalWorkers lib duration, stats.status = "done" ∧ stats.openConnections = 1 := by
  intro stats hstats
  obtain ⟨recorder, -, rfl⟩ := List.mem_map.mp hstats
  exact ⟨rfl, rfl⟩

theorem truthful_iff (lib : Histogram) (s : Load run) (duration : Double) (connected : run.Worker → Bool) :
    TruthfulWorkers connected (s.finalWorkers lib duration) ↔ ∀ w, connected w = true := by
  constructor
  · intro h w
    by_contra hw
    obtain ⟨stats, hstats, hid⟩ := List.mem_map.mp (s.mem_ids_finalWorkers lib duration w)
    have hfailed := (h.failed w (by simpa using hw) stats hstats hid).1
    rw [(s.finalWorkers_done lib duration stats hstats).1] at hfailed
    exact absurd hfailed (by decide)
  · intro h
    refine ⟨s.count_finalWorkers lib duration, ?_, fun w hw => ?_⟩
    · rw [← List.length_map WorkerStats.id, ids_finalWorkers, List.length_map, List.length_finRange]
    · rw [h w] at hw
      cases hw

/-- When all actors have returned, the list of the workers is truthful, in the
result and in the final snapshot, if and only if every worker had its
connection; each worker is in it once all the same. The live slot of a worker
that has had none, because its connect failed or was cancelled, shows that. -/
theorem final_workers_iff (lib : Histogram) (duration : Double) {t : Clocked (Load run) × (run.Worker → Bool)}
    (h : Reachable.Noted t) (hended : ∀ w, (t.1.state.actors w).pc = .done ∨ (t.1.state.actors w).pc = .failed ∨
      (t.1.state.actors w).pc = .panicked) :
    (TruthfulWorkers t.2 (t.1.state.loadStats lib duration).workers ∧
        TruthfulWorkers t.2 (t.1.state.finalSnapshot lib duration).workers ↔ ∀ w, t.2 w = true) ∧
      (∀ w : run.Worker,
        ((t.1.state.loadStats lib duration).workers.map WorkerStats.id).count (workerId w) = 1 ∧
        ((t.1.state.finalSnapshot lib duration).workers.map WorkerStats.id).count (workerId w) = 1) ∧
      ∀ w, t.2 w = false → (t.1.state.actors w).pc ≠ .panicked → (t.1.state.actors w).slot.isSome = run.progress ∧
        ∀ slot ∈ (t.1.state.actors w).slot, ∀ elapsed,
          (slot.shown lib w elapsed).status = "failed" ∧ (slot.shown lib w elapsed).openConnections = 0 := by
  have htruthful := t.1.state.truthful_iff lib duration t.2
  have hcount := t.1.state.count_finalWorkers lib duration
  refine ⟨?_, fun w => ⟨hcount w, hcount w⟩, fun w hnever hpanic => ?_⟩
  · exact ⟨fun hboth => htruthful.mp hboth.1, fun hall => ⟨htruthful.mpr hall, htruthful.mpr hall⟩⟩
  · have hpc : (t.1.state.actors w).pc = .failed := by
      rcases hended w with hdone | hfailed | hpanicked
      · have hconnected : t.2 w = true := by
          apply (h.reported w).connected <;> rw [hdone] <;> exact Pc.noConfusion
        rw [hnever] at hconnected
        cases hconnected
      · exact hfailed
      · exact absurd hpanicked hpanic
    have hslot := ((h.reported w).failed hpc).2
    refine ⟨(h.reported w).slotted, fun slot hmem elapsed => ?_⟩
    have hshown : slot.shown lib w elapsed =
        slot.recorder.snapshotWorker lib (workerId w) "failed" elapsed 0 := by
      rw [WorkerSlot.shown, (hslot slot hmem).1, (hslot slot hmem).2, WorkerStatus.text]
    rw [hshown]
    exact ⟨rfl, rfl⟩

/-! A worker whose connect fails. -/

/-- One query over TCP, two at a time. -/
def refusedRun : LoadRun := sampleRun (sampleConfig .do53Tcp 2 none none (some 1)) (by decide +kernel) rfl

def refusedWorker : refusedRun.Worker := ⟨0, by decide +kernel⟩

/-- The largest value stands for every percentile. -/
def largest : Histogram where
  valueAtQuantile values _ := values.fold max 0
  max values := values.fold max 0

/-- A run, with a note of the workers that were connected. -/
def notedRun (run : LoadRun) (xs : List (Timed (Act run))) : Option (Clocked (Load run) × (run.Worker → Bool)) :=
  Lts.run (Lts.noted (Lts.clocked step) noteConnected) (⟨run.start, init run⟩, fun _ => false) xs

/-- A run to `final_workers_iff`: the worker is connected, then cancelled. -/
theorem final_workers_connected : ∃ t,
    notedRun refusedRun [.act (.actor refusedWorker .connected), .act .cancel,
      .act (.actor refusedWorker .guardFails), .act (.actor refusedWorker .proceed),
      .act (.actor refusedWorker .finish)] = some t ∧
      TruthfulWorkers t.2 (t.1.state.finalSnapshot largest 0).workers := by
  have hrun : ∃ t ∈ notedRun refusedRun [.act (.actor refusedWorker .connected), .act .cancel,
      .act (.actor refusedWorker .guardFails), .act (.actor refusedWorker .proceed),
      .act (.actor refusedWorker .finish)], ∀ w, (t.1.state.actors w).pc = .done ∧ t.2 w = true := by
    decide +kernel
  obtain ⟨t, ht, hdone⟩ := hrun
  have hiff := (final_workers_iff largest 0 (Lts.Reach.of_run ht) fun w => .inl (hdone w).1).1
  exact ⟨t, ht, (hiff.mpr fun w => (hdone w).2).2⟩

/-- The connect of the one worker fails, and the list shows it as done. -/
theorem failed_connect_listed_done :
    ¬ ∀ (run : LoadRun) (lib : Histogram) (duration : Double) (t : Clocked (Load run) × (run.Worker → Bool)),
      Reachable.Noted t → (∀ w, (t.1.state.actors w).pc = .done ∨ (t.1.state.actors w).pc = .failed) →
        TruthfulWorkers t.2 (t.1.state.loadStats lib duration).workers := by
  intro h
  have hrun : ∃ t ∈ notedRun refusedRun [.act (.actor refusedWorker .connectFailed)],
      ∀ w, (t.1.state.actors w).pc = .failed ∧ t.2 w = false := by decide +kernel
  obtain ⟨t, ht, hfailed⟩ := hrun
  have htruthful := h refusedRun largest 0 t (Lts.Reach.of_run ht) fun w => .inr (hfailed w).1
  have hconnected := (t.1.state.truthful_iff largest 0 t.2).mp htruthful refusedWorker
  rw [(hfailed refusedWorker).2] at hconnected
  cases hconnected

end Load

end WireSurge.Engine
