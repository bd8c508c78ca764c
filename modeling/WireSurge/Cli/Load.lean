import WireSurge.Cli.Run
import WireSurge.Engine.Budget
import WireSurge.Engine.Conservation

/-!
# The load command

`load_command` takes its exit code from the merged recorder of the run. That a
run without goodput does not exit with that of a success needs a counter that
shows it: a query sent, or a connection lost. `loadCommand_truthful_iff` is
which runs have one.
-/

namespace WireSurge.Cli

open WireSurge.Core (WireSurgeError)
open Dns (Instant)
open Engine (Actor Conserved Load LoadRun QueryBuilder ValidatedLoadPlan)
open Lts (Clocked Timed)
open Metrics (LoadRecorder)

/-! ## The command -/

/-- What the command reads of a run's `LoadStats`. -/
structure LoadStats where
  recorder : LoadRecorder
  cancelled : Bool

/-- The result of the run, and the exit code of the signal that came first. -/
def driveWithSignal (result : Except WireSurgeError LoadStats) (signal : Option (Except WireSurgeError Int)) :
    Except WireSurgeError (LoadStats × Int) :=
  match signal with
  | none => result.map (·, 0)
  | some (.error error) => .error error
  | some (.ok code) => result.map (·, code)

/-- The exit code of a run, of its outcome and the code of its signal. -/
def outcomeCode (stats : LoadStats) (exitCode : Int) (emptyRun : Bool) : Int :=
  if stats.cancelled || exitCode ≠ 0 then exitCode
  else if stats.recorder.goodput = 0 ∧ (0 < stats.recorder.sent ∨ 0 < stats.recorder.connErrors ∧ ¬emptyRun) then 1
  else 0

/-- `load_command`, from what its run gives. -/
def loadCommand (plan : ValidatedLoadPlan) (result : Except WireSurgeError LoadStats)
    (signal : Option (Except WireSurgeError Int)) : Except WireSurgeError (LoadStats × Int) :=
  (driveWithSignal result signal).map fun (stats, exitCode) =>
    (stats, outcomeCode stats exitCode (plan.config.count = some 0))

/-! ## The recorders of a run -/

/-- Responses that count as goodput were received, and a failed connect shows. -/
structure Shown {T : Dns.Transport} (a : Actor T) : Prop where
  goodput : a.recorder.goodput ≤ a.recorder.received
  failed : a.pc = .failed → 0 < a.recorder.connErrors

theorem goodput_record (r : LoadRecorder) (result : Dns.Outcome) (elapsedUs : Nat) (h : r.goodput ≤ r.received) :
    (r.record result elapsedUs).goodput ≤ (r.record result elapsedUs).received := by
  unfold LoadRecorder.record
  split
  · rename_i response
    simp only [LoadRecorder.onResponse, LoadRecorder.goodput, Function.update_apply]
    have : r.rcodes 0 ≤ r.received := h
    split
    · rename_i hb
      rw [← hb]
      omega
    · omega
  all_goals exact h

theorem Shown.local {T : Dns.Transport} {a b : Actor T} {now : Instant} {cancelled : Bool} (h : Shown a)
    (hl : Actor.Local now cancelled a b) : Shown b := by
  cases hl with
  | connectFailed => exact ⟨h.goodput, fun _ => Nat.succ_pos _⟩
  | settled _ _ hpc =>
    refine ⟨goodput_record _ _ _ h.goodput, fun hf => ?_⟩
    rcases hpc with ⟨-, rfl⟩ | ⟨u, hpc, rfl⟩
    · cases hf
    · rw [show a.pc = .failed from hf] at hpc
      cases hpc
  | conn | polled => exact ⟨h.goodput, h.failed⟩
  | moved hm =>
    refine ⟨h.goodput, fun hf => ?_⟩
    rcases hm with ⟨-, rfl⟩ | ⟨-, ⟨rfl, -⟩ | rfl | ⟨rfl, -⟩⟩ <;> cases hf
  | connected | tick | cancelArm | drained | finish | panic => exact ⟨h.goodput, fun hf => by cases hf⟩

variable {run : LoadRun} {C : Clocked (Load run) → Timed (Load.Act run) → Prop} {t : Clocked (Load run)}

theorem shown (h : Load.Reachable C t) (w : run.Worker) : Shown (t.state.actors w) := by
  refine h.inv (I := fun _ s => ∀ w, Shown (s.actors w)) (fun _ => ⟨Nat.le_refl _, nofun⟩) (fun _ _ _ _ hi => hi)
    (fun s x t _ hi he => ?_) w
  cases he with
  | cancel => exact hi
  | refused hpc | waits hpc | given hpc => exact Load.forall_setActor hi ⟨(hi _).goodput, nofun⟩
  | ready _ _ _ hr | opens _ _ _ hr =>
    obtain ⟨-, rfl⟩ := hr
    exact Load.forall_setActor hi ⟨(hi _).goodput, nofun⟩
  | actor hl => exact Load.forall_setActor hi ((hi _).local hl)

/-- A counter of the aggregate is the sum over the workers. -/
theorem foldl_mergeActorResult {f : LoadRecorder → Nat} (hf : ∀ a b, f (a.merge b) = f a + f b)
    (results : List (Option LoadRecorder)) (r : LoadRecorder) :
    f (results.foldl Load.mergeActorResult r) =
      f r + (results.map fun x => f (x.getD LoadRecorder.new.onConnError)).sum := by
  induction results generalizing r with
  | nil => rfl
  | cons x results ih =>
    rw [List.foldl_cons, ih, Load.mergeActorResult, hf, List.map_cons, List.sum_cons, Nat.add_assoc]

/-- What the aggregate counts of a worker. -/
def counted (s : Load run) (w : run.Worker) : LoadRecorder :=
  (Load.joined (s.actors w)).getD LoadRecorder.new.onConnError

/-- A counter of the aggregate is zero when it is for every worker. -/
theorem aggregate_eq_zero {f : LoadRecorder → Nat} (hf : ∀ a b, f (a.merge b) = f a + f b) (h0 : f .new = 0)
    (s : Load run) : f s.aggregate = 0 ↔ ∀ w, f (counted s w) = 0 := by
  rw [Load.aggregate, foldl_mergeActorResult hf, h0, Nat.zero_add, List.sum_eq_zero_iff_forall_eq_nat]
  simp [counted]

theorem counted_of_ne {s : Load run} {w : run.Worker} (h : (s.actors w).pc ≠ .panicked) :
    counted s w = (s.actors w).recorder := by
  rw [counted, Load.joined, if_neg h, Option.getD_some]

/-! ## Truthful exit codes -/

/-- The command is not cancelled. -/
def NeverCancelled (_ : Clocked (Load run)) : Timed (Load.Act run) → Prop
  | .act .cancel => False
  | _ => True

instance (s : Clocked (Load run)) : ∀ a, Decidable (NeverCancelled s a)
  | .act .cancel => isFalse id
  | .elapse _ => isTrue trivial
  | .act (.callNext _) => isTrue trivial
  | .act (.gateOpens _) => isTrue trivial
  | .act (.gateCancelled _) => isTrue trivial
  | .act (.actor _ _) => isTrue trivial

/-- Every actor's task is over. -/
def Ended (s : Load run) : Prop :=
  ∀ w, (s.actors w).pc = .done ∨ (s.actors w).pc = .failed ∨ (s.actors w).pc = .panicked

/-- The statistics that the outcome reads. -/
def stats (s : Load run) : LoadStats := ⟨s.aggregate, s.cancelled⟩

/-- The exit code is that of a success exactly for an empty plan, or when there was goodput. -/
def Truthful (plan : ValidatedLoadPlan) (code : Int) (goodput : Nat) : Prop :=
  code = 0 ↔ plan.config.count = some 0 ∨ 0 < goodput

theorem not_cancelled (h : Load.Reachable NeverCancelled t) : t.state.cancelled = false := by
  refine h.inv (I := fun _ s => s.cancelled = false) rfl (fun _ _ _ _ hi => hi) fun s x t hC hi he => ?_
  cases he with
  | cancel => exact hC.elim
  | ready _ _ _ hr | opens _ _ _ hr => rw [hr.eq]; exact hi
  | refused | waits | given | actor => exact hi

/-- No query was admitted, and every actor had its connection and came to its end. -/
def Silent (s : Load run) : Prop := s.admissions = [] ∧ ∀ w, (s.actors w).pc = .done

/-- What a silent run counts. -/
theorem Silent.recorder (hs : Silent t.state) (h : Load.Reachable C t) (w : run.Worker) :
    (counted t.state w).sent = 0 ∧ (counted t.state w).settled = 0 := by
  have hpc := hs.2 w
  have hsent : (t.state.actors w).recorder.sent = 0 := by
    rw [h.counted.sent, hs.1]
    rfl
  have hbal := (h.conserved w).balance (by rw [hpc]; exact Engine.Pc.noConfusion)
  rw [counted_of_ne (by rw [hpc]; exact Engine.Pc.noConfusion)]
  omega

/-- A run that has ended shows neither a query nor a lost connection exactly
when it is silent. -/
theorem silent_iff (h : Load.Reachable C t) (he : Ended t.state) :
    t.state.aggregate.sent = 0 ∧ t.state.aggregate.connErrors = 0 ↔ Silent t.state := by
  rw [aggregate_eq_zero (f := LoadRecorder.sent) (fun _ _ => rfl) rfl,
    aggregate_eq_zero (f := LoadRecorder.connErrors) (fun _ _ => rfl) rfl]
  constructor
  · rintro ⟨hsent, hconn⟩
    have hdone (w : run.Worker) : (t.state.actors w).pc = .done := by
      rcases he w with hpc | hpc | hpc
      · exact hpc
      · have hc := hconn w
        rw [counted_of_ne (by rw [hpc]; exact Engine.Pc.noConfusion)] at hc
        exact absurd hc ((shown h w).failed hpc).ne'
      · have hc := hconn w
        simp [counted, Load.joined, hpc, LoadRecorder.onConnError] at hc
    refine ⟨List.eq_nil_iff_forall_not_mem.mpr fun a ha => ?_, hdone⟩
    have hs := hsent a.worker
    rw [counted_of_ne (by rw [hdone]; exact Engine.Pc.noConfusion), h.counted.sent, List.countP_eq_zero] at hs
    exact hs a ha (by simp)
  · intro hs
    refine ⟨fun w => (hs.recorder h w).1, fun w => ?_⟩
    have := (hs.recorder h w).2
    simp only [LoadRecorder.settled] at this
    omega

theorem Silent.goodput (hs : Silent t.state) (h : Load.Reachable C t) : t.state.aggregate.goodput = 0 := by
  rw [aggregate_eq_zero (f := LoadRecorder.goodput) (fun _ _ => rfl) rfl]
  intro w
  have hset := (hs.recorder h w).2
  have hgood := (shown h w).goodput
  rw [counted_of_ne (by rw [hs.2 w]; exact Engine.Pc.noConfusion)] at hset ⊢
  simp only [LoadRecorder.settled] at hset
  omega

/-- An empty plan admits nothing. -/
theorem admissions_of_empty (h : Load.Reachable C t) (hn : run.plan.config.count = some 0) :
    t.state.admissions = [] := by
  refine List.eq_nil_iff_forall_not_mem.mpr fun a ha => ?_
  exact absurd ((h.called.admitted a ha).lt_count hn) (Nat.not_lt_zero _)

/-- Nor does it send, or count a response. -/
theorem aggregate_of_empty (h : Load.Reachable C t) (hn : run.plan.config.count = some 0) :
    t.state.aggregate.sent = 0 := by
  rw [aggregate_eq_zero (f := LoadRecorder.sent) (fun _ _ => rfl) rfl]
  intro w
  by_cases hpc : (t.state.actors w).pc = .panicked
  · simp [counted, Load.joined, hpc, LoadRecorder.onConnError, LoadRecorder.new]
  · rw [counted_of_ne hpc, h.counted.sent, admissions_of_empty h hn]
    rfl

/-- The exit code of an uncancelled run. -/
theorem exitCode_stats (h : Load.Reachable NeverCancelled t) :
    exitCode (loadCommand run.plan (.ok (stats t.state)) none) =
      if t.state.aggregate.goodput = 0 ∧ (0 < t.state.aggregate.sent ∨
        0 < t.state.aggregate.connErrors ∧ run.plan.config.count ≠ some 0) then 1 else 0 := by
  simp only [loadCommand, driveWithSignal, Except.map, exitCode, outcomeCode, stats, not_cancelled h]
  simp

/-- The exit code of an uncancelled run is truthful: where the wires of a plan
cannot be built, when the plan is not empty; and for a run that has ended, when
the plan is empty, a query was admitted, a connect failed, or an actor panicked. -/
theorem loadCommand_truthful_iff (plan : ValidatedLoadPlan) :
    (∀ (buildQuery : QueryBuilder) (error : WireSurgeError), plan.wires buildQuery = .ok (.error error) →
      (Truthful plan (exitCode (loadCommand plan (.error error) none)) 0 ↔ plan.config.count ≠ some 0)) ∧
    ∀ run : LoadRun, run.plan = plan → ∀ t : Clocked (Load run), Load.Reachable NeverCancelled t → Ended t.state →
      (Truthful plan (exitCode (loadCommand plan (.ok (stats t.state)) none)) t.state.aggregate.goodput ↔
        plan.config.count = some 0 ∨ t.state.admissions ≠ [] ∨
          ∃ w, (t.state.actors w).pc = .failed ∨ (t.state.actors w).pc = .panicked) := by
  refine ⟨fun _ error _ => ?_, ?_⟩
  · have hcode : exitCode (loadCommand plan (.error error) none) ≠ 0 := by
      simp only [loadCommand, driveWithSignal, Except.map, exitCode]
      split <;> decide
    simp [Truthful, hcode]
  · rintro run rfl t h he
    rw [Truthful, exitCode_stats h]
    by_cases hn : run.plan.config.count = some 0
    · simp [hn, aggregate_of_empty h hn]
    have hsilent : (t.state.admissions ≠ [] ∨
        ∃ w, (t.state.actors w).pc = .failed ∨ (t.state.actors w).pc = .panicked) ↔
        ¬Silent t.state := by
      rw [Silent, not_and_or, not_forall]
      refine or_congr_right (exists_congr fun w => ?_)
      rcases he w with hpc | hpc | hpc <;> simp [hpc]
    simp only [hn, false_or, hsilent, ne_eq, not_false_eq_true, and_true]
    by_cases hs : Silent t.state
    · obtain ⟨hsent, hconn⟩ := (silent_iff h he).mpr hs
      simp [hs, hsent, hconn, hs.goodput h]
    · have hshow : 0 < t.state.aggregate.sent ∨ 0 < t.state.aggregate.connErrors := by
        have := mt (silent_iff h he).mp hs
        omega
      simp only [hs, hshow, and_true, not_false_eq_true, iff_true, ite_eq_right_iff, one_ne_zero, imp_false]
      omega

/-! Runs of one actor: its query is answered; and it is connected only when the
second that the run has is over. -/

/-- A run to `loadCommand_truthful_iff`: the query of the run is answered. -/
theorem loadCommand_truthful_answered : ∃ t : Clocked (Load Load.countRun),
    Lts.run (Lts.clocked Load.step) ⟨0, Load.init Load.countRun⟩ Load.answeredOnce = some t ∧
      t.state.aggregate.goodput = 1 ∧
      Truthful Load.countRun.plan (exitCode (loadCommand Load.countRun.plan (.ok (stats t.state)) none))
        t.state.aggregate.goodput := by
  have hrun : ∃ t ∈ Lts.run (Lts.clocked Load.step) ⟨0, Load.init Load.countRun⟩ Load.answeredOnce,
      t.state.aggregate.goodput = 1 ∧ t.state.admissions.length = 1 ∧
        ∀ w ∈ List.finRange Load.countRun.concurrency, (t.state.actors w).pc = .done := by decide +kernel
  obtain ⟨t, ht, hgood, hadm, hdone⟩ := hrun
  have hr : Load.Reachable NeverCancelled t := .of_along ht (by decide +kernel)
  have hended : Ended t.state := fun w => .inl (hdone w (List.mem_finRange w))
  refine ⟨t, ht, hgood, ((loadCommand_truthful_iff Load.countRun.plan).2 _ rfl t hr hended).mpr ?_⟩
  exact .inr (.inl fun hnil => by simp [hnil] at hadm)

/-- A run of a second over UDP. -/
def lateRun : LoadRun :=
  Engine.sampleRun (Engine.sampleConfig .do53Udp 1 none (some 1) none) (by decide +kernel) rfl

/-- Its worker. -/
def lateWorker : lateRun.Worker := ⟨0, by decide +kernel⟩

/-- Its connect takes longer than that. -/
def connectedLate : List (Timed (Load.Act lateRun)) :=
  [.elapse (3 / 2), .act (.actor lateWorker .connected), .act (.callNext lateWorker),
    .act (.actor lateWorker .proceed), .act (.actor lateWorker .finish)]

/-- A run that sends nothing, as its time is over before the first query, exits
with the code of a success. -/
theorem loadCommand_silent : ¬ ∀ (run : LoadRun) (t : Clocked (Load run)), Load.Reachable NeverCancelled t →
    Ended t.state → Truthful run.plan (exitCode (loadCommand run.plan (.ok (stats t.state)) none))
      t.state.aggregate.goodput := by
  intro h
  have hrun : ∃ t ∈ Lts.run (Lts.clocked Load.step) ⟨0, Load.init lateRun⟩ connectedLate,
      exitCode (loadCommand lateRun.plan (.ok (stats t.state)) none) = 0 ∧ t.state.aggregate.goodput = 0 ∧
        ∀ w ∈ List.finRange lateRun.concurrency, (t.state.actors w).pc = .done := by decide +kernel
  obtain ⟨t, ht, hcode, hgood, hdone⟩ := hrun
  have hr : Load.Reachable NeverCancelled t := .of_along ht (by decide +kernel)
  rcases (h lateRun t hr fun w => .inl (hdone w (List.mem_finRange w))).mp hcode with hn | hn
  · cases hn
  · exact absurd hn (by rw [hgood]; exact lt_irrefl 0)

end WireSurge.Cli
