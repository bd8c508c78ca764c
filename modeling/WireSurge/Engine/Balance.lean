import Mathlib.Algebra.Order.BigOperators.Group.Finset
import WireSurge.Engine.Conservation
import WireSurge.Engine.Progress

/-!
# The balance of a snapshot

The sampler reads the slots one after another while the actors go on, so that a
snapshot shows its workers at different times. Each slot balances on its own
(`Shown`): what its worker has sent is settled or in flight. So the snapshot
does, whenever it was collected (`snapshots_balance`), and its rcodes are those of
its responses.
-/

namespace WireSurge.Engine

open Lts (Clocked Timed)
open WireSurge.Dns (Instant Transport)
open WireSurge.Metrics (AggregateStats Histogram LoadRecorder RunSnapshot WorkerStats)

/-! ## Slots -/

/-- The connect of the worker failed. -/
def WorkerSlot.failures (slot : WorkerSlot) : Nat := if slot.status = .failed then 1 else 0

/-- What the worker has sent, and its connect when that failed, is settled or in flight;
and so is all of it, as long as no exchange is dropped. -/
structure WorkerSlot.Shown (cancelled : Bool) (slot : WorkerSlot) : Prop where
  recorder : slot.recorder.Balanced
  le : slot.recorder.settled + slot.inFlight ≤ slot.recorder.sent + slot.failures
  eq : cancelled = false → slot.recorder.settled + slot.inFlight = slot.recorder.sent + slot.failures

theorem WorkerSlot.Shown.mono {cancelled cancelled' : Bool} {slot : WorkerSlot} (h : slot.Shown cancelled)
    (hc : cancelled' = false → cancelled = false) : slot.Shown cancelled' :=
  ⟨h.recorder, h.le, fun hc' => h.eq (hc hc')⟩

namespace Actor

variable {T : Transport} {a b : Actor T} {cap : Nat} {cancelled : Bool} {now : Instant}

/-- The slot of the actor balances, and its recorder is sound. -/
structure Shows (cancelled : Bool) (a : Actor T) : Prop where
  recorder : a.recorder.Balanced
  slot : ∀ slot ∈ a.slot, slot.Shown cancelled

theorem Shows.new (T : Transport) (progress : Bool) : Shows false (Actor.new T progress) where
  recorder := LoadRecorder.balanced_new
  slot slot hslot := by
    cases progress with
    | false => cases hslot
    | true =>
      cases hslot
      exact ⟨LoadRecorder.balanced_new, le_rfl, fun _ => rfl⟩

/-- The slot is as it was. -/
theorem Shows.kept (h : Shows cancelled a) (hslot : b.slot = a.slot) (hrecorder : b.recorder.Balanced) :
    Shows cancelled b :=
  ⟨hrecorder, fun slot hs => h.slot slot (hslot ▸ hs)⟩

theorem Shows.publish (hrecorder : a.recorder.Balanced) {inFlight : Nat} {status : WorkerStatus}
    (h : WorkerSlot.Shown cancelled ⟨a.recorder, inFlight, status⟩) : Shows cancelled (a.publish inFlight status) where
  recorder := hrecorder
  slot slot hslot := by
    obtain ⟨-, -, rfl⟩ := Option.map_eq_some_iff.mp (Option.mem_def.mp hslot)
    exact h

theorem balanced_apply {r : LoadRecorder} (h : r.Balanced) (e : LoadRecorder.Event) : (r.apply e).Balanced := by
  rw [LoadRecorder.apply_eq]
  exact h.merge (LoadRecorder.balanced_single e)

theorem balanced_record {r : LoadRecorder} (h : r.Balanced) (result : Dns.Outcome) (elapsedUs : Nat) :
    (r.record result elapsedUs).Balanced := by
  unfold LoadRecorder.record
  split
  · exact balanced_apply h (.response _ _ _ _)
  · exact balanced_apply h .timeout
  · exact balanced_apply h .connError
  · exact balanced_apply h .error

theorem Shows.local (h : Shows cancelled a) (hc : Conserved cap cancelled a) (hl : Local now cancelled a b) :
    Shows cancelled b := by
  cases hl with
  | connectFailed hpc =>
    -- nothing is sent, and the one thing settled is the failed connect
    obtain ⟨hsettled, hempty⟩ := hc.connecting hpc
    have hbalance := hc.balance (by rw [hpc]; exact Pc.noConfusion)
    rw [hempty, hsettled] at hbalance
    have hrecorder : a.recorder.onConnError.Balanced := balanced_apply h.recorder .connError
    have heq : a.recorder.onConnError.settled + 0 = a.recorder.onConnError.sent + 1 := by
      simp only [LoadRecorder.settled, LoadRecorder.onConnError] at hsettled ⊢
      simp only [List.length_nil] at hbalance
      omega
    exact .publish hrecorder ⟨hrecorder, heq.le, fun _ => heq⟩
  | tick hpc =>
    have hbalance := hc.balance (by rw [hpc]; exact Pc.noConfusion)
    refine .publish ?_ ⟨?_, ?_, fun _ => ?_⟩
    · exact h.recorder
    · exact h.recorder
    · exact hbalance.ge
    · exact hbalance.symm
  | finish hpc =>
    have hbalance := hc.balance (by rw [hpc]; exact Pc.noConfusion)
    refine .publish ?_ ⟨?_, ?_, fun hcancelled => ?_⟩
    · exact h.recorder
    · exact h.recorder
    · show a.recorder.settled + 0 ≤ a.recorder.sent + 0
      omega
    · have hnot : a.interrupted = false :=
        Bool.eq_false_of_not_eq_true fun hi => Bool.false_ne_true (hcancelled.symm.trans (hc.interrupted hi))
      rw [hc.stopped (.inl hpc) hnot] at hbalance
      exact hbalance.symm
  | settled => exact h.kept rfl (balanced_record h.recorder _ _)
  | connected | moved | conn | polled | cancelArm | drained | panic => exact h.kept rfl h.recorder

end Actor

/-- Every slot of a run balances. -/
theorem Load.Effect.shows {run : LoadRun} {s t : Load run} {now : Instant} {x : Load.Act run}
    (he : Load.Effect now s x t) (hc : ∀ w, Conserved run.cap s.cancelled (s.actors w))
    (h : ∀ w, (s.actors w).Shows s.cancelled) : ∀ w, (t.actors w).Shows t.cancelled := by
  cases he with
  | cancel => exact fun w => ⟨(h w).recorder, fun slot hslot => ((h w).slot slot hslot).mono Bool.noConfusion⟩
  | refused | waits | given => exact Load.forall_setActor h ((h _).kept rfl (h _).recorder)
  | ready _ _ _ hr | opens _ _ _ hr =>
    obtain ⟨-, rfl⟩ := hr
    exact Load.forall_setActor h ((h _).kept rfl (Actor.balanced_apply (h _).recorder .sent))
  | actor hl => exact Load.forall_setActor h ((h _).local (hc _) hl)

/-! ## Snapshots -/

/-- The workers that a snapshot shows as failed. -/
def failedWorkers (snapshot : RunSnapshot) : Nat := snapshot.workers.countP fun worker => worker.status = "failed"

/-- What the counters of a snapshot say of each other. -/
structure SnapshotBalances (cancelled : Bool) (snapshot : RunSnapshot) : Prop where
  le : snapshot.aggregate.received + snapshot.aggregate.timeouts + snapshot.aggregate.errors +
    snapshot.aggregate.connErrors + snapshot.aggregate.inFlight ≤ snapshot.aggregate.sent + failedWorkers snapshot
  eq : cancelled = false → snapshot.aggregate.received + snapshot.aggregate.timeouts + snapshot.aggregate.errors +
    snapshot.aggregate.connErrors + snapshot.aggregate.inFlight = snapshot.aggregate.sent + failedWorkers snapshot
  rcodes : ∑ code : Fin 17, snapshot.aggregate.rcodes[Metrics.LoadRecorder.rcodeName code.val]?.getD 0 =
    snapshot.aggregate.received
  goodput : snapshot.aggregate.goodput ≤ snapshot.aggregate.received
  truncated : snapshot.aggregate.truncated ≤ snapshot.aggregate.received
  inFlight : (snapshot.workers.map WorkerStats.inFlight).sum = snapshot.aggregate.inFlight

theorem SnapshotBalances.mono {cancelled cancelled' : Bool} {snapshot : RunSnapshot}
    (h : SnapshotBalances cancelled snapshot) (hc : cancelled' = false → cancelled = false) :
    SnapshotBalances cancelled' snapshot where
  le := h.le
  eq hc' := h.eq (hc hc')
  rcodes := h.rcodes
  goodput := h.goodput
  truncated := h.truncated
  inFlight := h.inFlight

/-- The count under the name of a bucket is what is in it. -/
theorem getD_rcodeBreakdown (r : LoadRecorder) (code : Fin 17) :
    r.rcodeBreakdown[LoadRecorder.rcodeName code.val]?.getD 0 = r.rcodes code := by
  rcases Nat.eq_zero_or_pos (r.rcodes code) with hzero | hpos
  · have hnot : LoadRecorder.rcodeName code.val ∉ r.rcodeBreakdown := by
      intro hmem
      obtain ⟨other, hother, hname⟩ := LoadRecorder.mem_rcodeBreakdown.mp hmem
      rw [Fin.ext (LoadRecorder.rcodeName_inj hname), hzero] at hother
      exact Nat.lt_irrefl _ hother
    rw [Std.ExtTreeMap.getElem?_eq_none hnot, hzero]
    rfl
  · rw [LoadRecorder.getElem?_rcodeBreakdown hpos]
    rfl

section

variable (slots : List WorkerSlot) (r : LoadRecorder)

/-- The slots merged into a recorder. -/
def mergedInto : LoadRecorder := (slots.map WorkerSlot.recorder).foldl LoadRecorder.merge r

theorem balanced_mergedInto (hr : r.Balanced) (h : ∀ slot ∈ slots, slot.recorder.Balanced) :
    (mergedInto slots r).Balanced := by
  induction slots generalizing r with
  | nil => exact hr
  | cons slot slots ih =>
    exact ih (r.merge slot.recorder) (hr.merge (h slot List.mem_cons_self))
      fun slot' hslot => h slot' (List.mem_cons_of_mem _ hslot)

/-- The counters of the slots add up. -/
theorem sum_mergedInto : (mergedInto slots r).settled = r.settled + (slots.map fun slot => slot.recorder.settled).sum ∧
    (mergedInto slots r).sent = r.sent + (slots.map fun slot => slot.recorder.sent).sum := by
  induction slots generalizing r with
  | nil => exact ⟨rfl, rfl⟩
  | cons slot slots ih =>
    obtain ⟨hsettled, hsent⟩ := ih (r.merge slot.recorder)
    rw [LoadRecorder.settled_merge] at hsettled
    rw [LoadRecorder.sent_merge] at hsent
    rw [List.map_cons, List.sum_cons, List.map_cons, List.sum_cons]
    refine ⟨hsettled.trans (Nat.add_assoc _ _ _), hsent.trans (Nat.add_assoc _ _ _)⟩

end

section

variable {cancelled : Bool} {slots : List WorkerSlot}

/-- What is asked of each slot adds up. -/
theorem sum_shown (h : ∀ slot ∈ slots, slot.Shown cancelled) :
    let settled := (slots.map fun slot => slot.recorder.settled).sum + (slots.map WorkerSlot.inFlight).sum
    let sent := (slots.map fun slot => slot.recorder.sent).sum + (slots.map WorkerSlot.failures).sum
    settled ≤ sent ∧ (cancelled = false → settled = sent) := by
  induction slots with
  | nil => exact ⟨le_rfl, fun _ => rfl⟩
  | cons slot slots ih =>
    obtain ⟨hle, heq⟩ := ih fun slot' hslot => h slot' (List.mem_cons_of_mem _ hslot)
    have hslot := h slot List.mem_cons_self
    simp only [List.map_cons, List.sum_cons]
    refine ⟨?_, fun hc => ?_⟩
    · have := hslot.le
      omega
    · have := hslot.eq hc
      have := heq hc
      omega

theorem text_eq_failed {status : WorkerStatus} : status.text = "failed" ↔ status = .failed := by
  cases status <;> decide

/-- The rows of the workers show the slots, whatever else is in them. -/
theorem sum_rows {row : Nat → WorkerSlot → WorkerStats} (hstatus : ∀ i slot, (row i slot).status = slot.status.text)
    (hinFlight : ∀ i slot, (row i slot).inFlight = slot.inFlight) :
    (slots.mapIdx row).countP (fun worker => worker.status = "failed") = (slots.map WorkerSlot.failures).sum ∧
      ((slots.mapIdx row).map WorkerStats.inFlight).sum = (slots.map WorkerSlot.inFlight).sum := by
  induction slots generalizing row with
  | nil => exact ⟨rfl, rfl⟩
  | cons slot slots ih =>
    obtain ⟨hcount, hsum⟩ := ih (fun i slot => hstatus (i + 1) slot) (fun i slot => hinFlight (i + 1) slot)
    rw [List.mapIdx_cons, List.countP_cons, List.map_cons, List.sum_cons, List.map_cons, List.sum_cons, List.map_cons,
      List.sum_cons, hcount, hsum, hinFlight, hstatus, WorkerSlot.failures]
    simp only [text_eq_failed, decide_eq_true_eq, and_true]
    exact Nat.add_comm _ _

theorem balances_collect (lib : Histogram) (elapsed : Double) (finalSample : Bool)
    (h : ∀ slot ∈ slots, slot.Shown cancelled) :
    SnapshotBalances cancelled (collectSnapshot lib slots elapsed finalSample) := by
  obtain ⟨hsettled, hsent⟩ := sum_mergedInto slots .new
  have hbalanced := balanced_mergedInto slots _ LoadRecorder.balanced_new fun slot hslot => (h slot hslot).recorder
  obtain ⟨hle, heq⟩ := sum_shown h
  have hnew : LoadRecorder.new.settled = 0 ∧ LoadRecorder.new.sent = 0 := ⟨rfl, rfl⟩
  rw [hnew.1, Nat.zero_add] at hsettled
  rw [hnew.2, Nat.zero_add] at hsent
  obtain ⟨hfailed, hrows⟩ : failedWorkers (collectSnapshot lib slots elapsed finalSample) = _ ∧ _ :=
    sum_rows (fun _ _ => rfl) fun _ _ => rfl
  refine ⟨?_, fun hc => ?_, ?_, ?_, hbalanced.truncated, hrows⟩
  · rw [hfailed]
    show (mergedInto slots .new).settled + _ ≤ (mergedInto slots .new).sent + _
    rw [hsettled, hsent]
    exact hle
  · rw [hfailed]
    show (mergedInto slots .new).settled + _ = (mergedInto slots .new).sent + _
    rw [hsettled, hsent]
    exact heq hc
  · show ∑ code : Fin 17, (mergedInto slots .new).rcodeBreakdown[LoadRecorder.rcodeName code.val]?.getD 0 = _
    simp only [getD_rcodeBreakdown]
    exact hbalanced.rcodes
  · show (mergedInto slots .new).rcodes 0 ≤ (mergedInto slots .new).received
    rw [← hbalanced.rcodes]
    exact Finset.single_le_sum (fun _ _ => Nat.zero_le _) (Finset.mem_univ 0)

end

/-! ## Runs -/

namespace Watched

variable {run : LoadRun} {lib : Histogram} {s t : Watched run} {now : Instant} {x : Act run}

/-- The slots balance, those that have been read, and the snapshots that have been sent. -/
structure Balances (s : Watched run) : Prop where
  conserved (w : run.Worker) : Conserved run.cap s.load.cancelled (s.load.actors w)
  shows (w : run.Worker) : (s.load.actors w).Shows s.load.cancelled
  read {elapsed : Double} {slots : List WorkerSlot} : s.sampler = .collecting elapsed slots →
    ∀ slot ∈ slots, slot.Shown s.load.cancelled
  sent : ∀ snapshot ∈ s.sent, snapshot.finalSample = false → SnapshotBalances s.load.cancelled snapshot

namespace Balances

theorem init (run : LoadRun) : Balances (Watched.init run) where
  conserved _ := Conserved.new run.transport run.cap run.progress
  shows _ := Actor.Shows.new run.transport run.progress
  read h := by
    simp only [Watched.init] at h
    split at h <;> cases h
  sent _ h := by cases h

theorem effect (h : Balances s) (he : Effect lib now s x t) : Balances t := by
  cases he with
  | @load x load hl =>
    have hmono : load.cancelled = false → s.load.cancelled = false := hl.not_cancelled
    refine ⟨hl.conserved h.conserved, hl.shows h.conserved h.shows, fun hs slot hslot => ?_,
      fun snapshot hsent hf => ?_⟩
    · exact (h.read hs slot hslot).mono hmono
    · exact (h.sent snapshot hsent hf).mono hmono
  | moves hm =>
    refine ⟨h.conserved, h.shows, fun hs slot hslot => ?_, h.sent⟩
    obtain rfl : _ = Sampler.collecting _ _ := hs
    rw [hm.nothing_read] at hslot
    cases hslot
  | @read elapsed slots slot w hs _ hslot =>
    refine ⟨h.conserved, h.shows, fun hs' slot' hslot' => ?_, h.sent⟩
    cases hs'
    rcases List.mem_append.mp hslot' with hold | hnew
    · exact h.read hs slot' hold
    · rw [List.mem_singleton.mp hnew]
      exact (h.shows w).slot slot hslot
  | sent hs _ =>
    refine ⟨h.conserved, h.shows, nofun, List.forall_mem_cons.mpr ⟨fun _ => ?_, h.sent⟩⟩
    exact balances_collect lib _ _ (h.read hs)
  | receiverGone | join | abort => exact ⟨h.conserved, h.shows, h.read, h.sent⟩
  | finish =>
    refine ⟨h.conserved, h.shows, h.read, fun snapshot hsent hf => ?_⟩
    split at hsent
    · rcases List.mem_cons.mp hsent with rfl | hsent
      · cases hf
      · exact h.sent snapshot hsent hf
    · exact h.sent snapshot hsent hf

end Balances

theorem Reachable.balances {t : Clocked (Watched run)} (h : Reachable lib t) : Balances t.state :=
  Lts.clocked_inv (I := fun _ => Balances) h (.init run) (fun _ _ _ _ hi => hi)
    fun _ _ _ _ hx hi => hi.effect (effect_of_step lib hx)

/-- In every snapshot that a run sends while it goes on, whenever the slots were read: the
responses, timeouts and errors and the queries in flight are those sent, with one
connection error for each worker shown as failed, unless the run was cancelled; they
are never more. The counts under the names of the rcodes are those of the
responses, and the rows of the workers have all the queries in flight. -/
theorem snapshots_balance (lib : Histogram) {t : Clocked (Watched run)} (h : Reachable lib t) {snapshot : RunSnapshot}
    (hsent : snapshot ∈ t.state.sent) (hf : snapshot.finalSample = false) :
    SnapshotBalances t.state.load.cancelled snapshot :=
  h.balances.sent snapshot hsent hf

/-- `snapshots_balance` for a snapshot with one query in flight. -/
theorem snapshots_balance_one : ∃ t,
    Lts.run (Lts.clocked (step Load.largest)) ⟨0, init watchedRun⟩ (sampledOnce.take 10) = some t ∧
      t.state.load.cancelled = false ∧ ∃ snapshot ∈ t.state.sent, snapshot.aggregate.sent = 1 ∧
        snapshot.aggregate.inFlight = 1 ∧ SnapshotBalances false snapshot := by
  have hrun : ∃ t ∈ Lts.run (Lts.clocked (step Load.largest)) ⟨0, init watchedRun⟩ (sampledOnce.take 10),
      t.state.load.cancelled = false ∧ ∃ snapshot ∈ t.state.sent, snapshot.finalSample = false ∧
        snapshot.aggregate.sent = 1 ∧ snapshot.aggregate.inFlight = 1 := by decide +kernel
  obtain ⟨t, ht, hc, snapshot, hsent, hf, hone, hin⟩ := hrun
  have hbalance := snapshots_balance Load.largest (Lts.Reach.of_run ht) hsent hf
  rw [hc] at hbalance
  exact ⟨t, ht, hc, snapshot, hsent, hone, hin, hbalance⟩

end Watched

end WireSurge.Engine
