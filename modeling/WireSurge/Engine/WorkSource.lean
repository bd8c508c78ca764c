import WireSurge.Engine.RateGate

/-!
# The work source

`WorkSource::next` in the two parts that its wait at the rate gate leaves:
`begin` draws on the index that the shared counter gives out, and `request`
builds the request once the wait is over. The counter itself is in `Load.lean`;
it is an `AtomicU64` in the source and a natural number there, since no run
draws `2 ^ 64` indices.

A run (`LoadRun`) is a plan with the wires built for its corpus, so every row
that is selected has its wire (`request_ok`), and no call stops the program
(`begin_ne_panicked`).
-/

namespace WireSurge.Engine

open Checked (Checked)
open WireSurge.Core (WireSurgeError)
open WireSurge.Corpus (Corpus SelectMode)
open WireSurge.Dns (Bytes Duration Instant Target Transport)

/-- `WorkSource`. -/
structure WorkSource where
  count : Option Nat
  deadline : Option Instant
  gate : Option RateGate
  corpus : Corpus
  wires : List Bytes
  seed : UInt64
  mode : SelectMode

/-- How a call of `next` goes on from the index it draws. -/
inductive Begin
  /-- `None` at once. -/
  | refused
  /-- The wait at the rate gate. -/
  | wait (scheduled : Instant)
  /-- The request at once. -/
  | ready
  /-- The slot is no duration. -/
  | panicked
  deriving DecidableEq

namespace WorkSource

/-- The seconds that slots may take: up to the deadline, or to the bound on a run. -/
def budgetSecs (w : WorkSource) (gate : RateGate) : Double :=
  match w.deadline with
  | some d => gate.arithmetic.asSecsF64 (max (d - gate.start) 0)
  | none => .ofRat maxRunSecs

/-- `next` up to its wait. -/
def begin (w : WorkSource) (index : Nat) (now : Instant) : Begin :=
  if w.count.any fun n => n ≤ index then .refused
  else
    match w.gate with
    | some gate =>
      if (gate.slotSecs index).ge (w.budgetSecs gate) then .refused
      else
        match gate.scheduled index with
        | .ok scheduled => .wait scheduled
        | .error _ => .panicked
    | none => if w.deadline.any fun d => d ≤ now then .refused else .ready

/-- The rest of `next`: the row, and a copy of its wire. The permutation mode
has no row when its walk does not end. -/
def request (w : WorkSource) (index : Nat) : Option (Checked Bytes) :=
  (w.corpus.selectIndex (UInt64.ofNat index) w.seed w.mode).map fun row => Checked.index w.wires row

variable {w : WorkSource} {index : Nat} {now : Instant}

theorem begin_lt_count (h : w.begin index now ≠ .refused) {n : Nat} (hn : w.count = some n) : index < n := by
  unfold begin at h
  split at h
  · exact absurd rfl h
  · rename_i hc
    simpa [hn] using hc

theorem begin_wait {scheduled : Instant} (h : w.begin index now = .wait scheduled) :
    ∃ gate, w.gate = some gate ∧ gate.scheduled index = .ok scheduled ∧
      (gate.slotSecs index).ge (w.budgetSecs gate) = false := by
  unfold begin at h
  split at h
  · cases h
  · split at h
    · rename_i gate hg
      split at h
      · cases h
      · rename_i hge
        split at h
        · rename_i hs
          cases h
          exact ⟨gate, hg, hs, Bool.eq_false_of_not_eq_true hge⟩
        · cases h
    · split at h <;> cases h

theorem begin_ready (h : w.begin index now = .ready) :
    w.gate = none ∧ ∀ d, w.deadline = some d → now < d := by
  unfold begin at h
  split at h
  · cases h
  · split at h
    · split at h
      · cases h
      · split at h <;> cases h
    · rename_i hg
      split at h
      · cases h
      · rename_i hd
        exact ⟨hg, fun d hd' => by simpa [hd'] using hd⟩

/-- Why an index is refused: the count, the budget of the slots, or the deadline. -/
theorem begin_refused (h : w.begin index now = .refused) :
    (∃ n, w.count = some n ∧ n ≤ index) ∨
      (∃ gate, w.gate = some gate ∧ (gate.slotSecs index).ge (w.budgetSecs gate) = true) ∨
      w.gate = none ∧ ∃ d, w.deadline = some d ∧ d ≤ now := by
  unfold begin at h
  split at h
  · rename_i hc
    obtain ⟨n, hn, hle⟩ := (Option.any_eq_true _ _).mp hc
    exact .inl ⟨n, hn, of_decide_eq_true hle⟩
  · split at h
    · rename_i gate hg
      split at h
      · rename_i hge
        exact .inr (.inl ⟨gate, hg, hge⟩)
      · split at h <;> cases h
    · rename_i hg
      split at h
      · rename_i hd
        obtain ⟨d, hd, hle⟩ := (Option.any_eq_true _ _).mp hd
        exact .inr (.inr ⟨hg, d, hd, of_decide_eq_true hle⟩)
      · cases h

theorem begin_panicked (h : w.begin index now = .panicked) :
    ∃ gate p, w.gate = some gate ∧ gate.scheduled index = .error p ∧
      (gate.slotSecs index).ge (w.budgetSecs gate) = false := by
  unfold begin at h
  split at h
  · cases h
  · split at h
    · rename_i gate hg
      split at h
      · cases h
      · rename_i hge
        split at h
        · cases h
        · rename_i p hp
          exact ⟨gate, p, hg, hp, Bool.eq_false_of_not_eq_true hge⟩
    · split at h <;> cases h

/-- A call that draws an index inside the count and the budget waits for its slot. -/
theorem begin_of_gate {gate : RateGate} {scheduled : Instant} (hg : w.gate = some gate)
    (hn : ∀ n, w.count = some n → index < n) (hb : (gate.slotSecs index).ge (w.budgetSecs gate) = false)
    (hs : gate.scheduled index = .ok scheduled) : w.begin index now = .wait scheduled := by
  have hc : (w.count.any fun n => decide (n ≤ index)) = false := by
    cases hw : w.count with
    | none => rfl
    | some n => simpa using hn n hw
  simp only [begin, hc, hg, hb, hs, Bool.false_eq_true, if_false]

/-- An index that is refused leaves every later call with a larger one refused. -/
theorem begin_refused_mono (hq : ∀ gate, w.gate = some gate → 0 < gate.qps) {i j : Nat} {now later : Instant}
    (h : w.begin i now = .refused) (hij : i ≤ j) (hnow : now ≤ later) : w.begin j later = .refused := by
  rcases begin_refused h with ⟨n, hn, hle⟩ | ⟨gate, hg, hge⟩ | ⟨hg, d, hd, hle⟩
  · rw [begin, if_pos (by rw [hn]; exact decide_eq_true (hle.trans hij))]
  · simp only [begin, hg, RateGate.ge_mono (hq gate hg) hij hge, if_true, ite_self]
  · have hpast : (w.deadline.any fun d => decide (d ≤ later)) = true := by
      rw [hd]
      exact decide_eq_true (hle.trans hnow)
    simp only [begin, hg, hpast, if_true, ite_self]

end WorkSource

/-! ## Runs -/

/-- The query builder over the message library: id, name, type, options. -/
abbrev QueryBuilder := UInt16 → String → UInt16 → List EdnsOption → Except WireSurgeError Bytes

/-- One wire for each row of the corpus, or the first error. -/
def ValidatedLoadPlan.wires (plan : ValidatedLoadPlan) (buildQuery : QueryBuilder) :
    Checked (Except WireSurgeError (List Bytes)) := do
  let names ← plan.config.corpus.iterRows
  return names.mapM fun name => buildQuery 0 name plan.config.qtype plan.config.ednsOptions

/-- What `run_load_with_progress` starts its actors with. -/
structure LoadRun where
  plan : ValidatedLoadPlan
  target : Target
  buildQuery : QueryBuilder
  start : Instant
  wires : List Bytes
  built : plan.wires buildQuery = .ok (.ok wires)
  /-- Live progress is on: every actor has a slot and a ticker. -/
  progress : Bool
  /-- That of the code is `rounded`. -/
  arithmetic : Arithmetic

namespace LoadRun

/-- The number of actors. -/
def concurrency (run : LoadRun) : Nat := run.plan.config.concurrency

/-- The transport of the run. -/
def transport (run : LoadRun) : Transport := run.plan.config.proto.transport run.target

/-- The in-flight window of an actor. -/
def cap (run : LoadRun) : Nat := min run.transport.maxInFlight run.plan.config.inFlight

/-- The timeout of a query. -/
def timeout (run : LoadRun) : Duration := run.plan.config.timeout

/-- The work of the run, its deadline counted from the start. -/
def work (run : LoadRun) : WorkSource where
  count := run.plan.config.count
  deadline := run.plan.config.duration.map fun d => run.start + d
  gate := run.plan.qps.map fun qps => { start := run.start, qps, arithmetic := run.arithmetic }
  corpus := run.plan.config.corpus
  wires := run.wires
  seed := run.plan.config.seed
  mode := if run.plan.config.randomize then .randomReplace else .sequential

theorem length_of_mapM {ε α β : Type} {f : α → Except ε β} {xs : List α} {ys : List β} (h : xs.mapM f = .ok ys) :
    ys.length = xs.length := by
  induction xs generalizing ys with
  | nil => cases h; rfl
  | cons x xs ih =>
    rw [List.mapM_cons] at h
    cases hx : f x with
    | error e => rw [hx] at h; cases h
    | ok y =>
      cases hxs : xs.mapM f with
      | error e => rw [hx, hxs] at h; cases h
      | ok zs =>
        rw [hx, hxs] at h
        cases h
        rw [List.length_cons, List.length_cons, ih hxs]

/-- There is a wire for every row. -/
theorem length_wires (run : LoadRun) : run.wires.length = run.plan.config.corpus.len := by
  have h := run.built
  unfold ValidatedLoadPlan.wires at h
  cases hr : run.plan.config.corpus.iterRows with
  | error e => rw [hr] at h; cases h
  | ok names =>
    rw [hr] at h
    have hw := length_of_mapM (Except.ok.inj h)
    have hn := length_of_mapM hr
    rw [hw, hn, List.length_range]

/-- The wire of an index is the one built for the row that is selected. -/
theorem request_ok (run : LoadRun) (index : Nat) :
    ∃ row wire, run.work.corpus.selectIndex (UInt64.ofNat index) run.work.seed run.work.mode = some row ∧
      run.wires[row]? = some wire ∧ run.work.request index = some (.ok wire) := by
  have hmode : run.work.mode ≠ .randomPermute := by
    simp only [work]
    split <;> exact SelectMode.noConfusion
  obtain ⟨row, hrow⟩ := run.work.corpus.selectIndex_isSome (UInt64.ofNat index) run.work.seed hmode
  have hlt : row < run.wires.length := by
    rw [length_wires]
    refine Corpus.selectIndex_lt (Nat.lt_of_le_of_lt run.plan.admitted.rows ?_) hrow
    simp [maxCorpusRows]
  refine ⟨row, run.wires[row], hrow, List.getElem?_eq_getElem hlt, ?_⟩
  rw [WorkSource.request, hrow, Option.map_some]
  exact congrArg some (Checked.index_of_lt hlt)

theorem gate_eq (run : LoadRun) {qps : ℚ} (h : run.plan.qps = some qps) :
    run.work.gate = some ⟨run.start, qps, run.arithmetic⟩ := by simp [work, h]

theorem exists_qps (run : LoadRun) {gate : RateGate} (h : run.work.gate = some gate) :
    ∃ qps, run.plan.qps = some qps ∧ gate = ⟨run.start, qps, run.arithmetic⟩ := by
  obtain ⟨qps, hqps, rfl⟩ := Option.map_eq_some_iff.mp h
  exact ⟨qps, hqps, rfl⟩

theorem gate_bounds (run : LoadRun) {gate : RateGate} (h : run.work.gate = some gate) :
    0 < gate.qps ∧ gate.qps ≤ maxQps := by
  obtain ⟨qps, hqps, rfl⟩ := run.exists_qps h
  exact ValidatedLoadPlan.qps_bounds hqps

theorem qps_pos (run : LoadRun) {gate : RateGate} (h : run.work.gate = some gate) : 0 < gate.qps :=
  (run.gate_bounds h).1

/-- The slots of a run take no longer than a run may. -/
theorem budgetSecs_eq (run : LoadRun) {gate : RateGate} (hg : run.work.gate = some gate) :
    ∃ secs h, run.work.budgetSecs gate = .finite secs h ∧ secs ≤ maxRunSecs := by
  obtain ⟨qps, -, rfl⟩ := run.exists_qps hg
  unfold WorkSource.budgetSecs
  cases hduration : run.plan.config.duration with
  | none =>
    have hd : run.work.deadline = none := by simp [work, hduration]
    have hbounded := maxRunSecs_bounded (Nat.cast_nonneg maxRunSecs) le_rfl
    rw [hd]
    exact ⟨_, hbounded, Double.ofRat_of_le hbounded, le_rfl⟩
  | some duration =>
    have hd : run.work.deadline = some (run.start + duration) := by simp [work, hduration]
    have hnonneg : (0 : ℚ) ≤ duration := duration.cast_nonneg
    have hle : (duration : ℚ) ≤ maxRunSecs := by exact_mod_cast (run.plan.admitted.duration hduration).2
    rw [hd]
    dsimp only
    rw [add_sub_cancel_left, max_eq_left hnonneg]
    cases run.arithmetic with
    | exact =>
      have hbounded := maxRunSecs_bounded hnonneg hle
      exact ⟨_, hbounded, Double.ofRat_of_le hbounded, hle⟩
    | rounded => exact asSecsF64_eq hnonneg hle

/-- A slot inside the budget is within the bound on a run. -/
theorem slot_lt (run : LoadRun) {gate : RateGate} (hg : run.work.gate = some gate) {index : Nat}
    (h : (gate.slotSecs index).ge (run.work.budgetSecs gate) = false) : gate.slot index < maxRunSecs := by
  obtain ⟨secs, hbounded, hsecs, hle⟩ := run.budgetSecs_eq hg
  by_contra hge
  rw [hsecs, RateGate.slotSecs_eq, (Double.ge_finite_iff (RateGate.slot_nonneg (run.qps_pos hg) index)).mpr
    (hle.trans (not_lt.mp hge))] at h
  cases h

/-- A call that waits, waits for the slot of its index, which is within the bound on a run. -/
theorem begin_wait (run : LoadRun) {index : Nat} {now scheduled : Instant}
    (h : run.work.begin index now = .wait scheduled) :
    ∃ gate, run.work.gate = some gate ∧ scheduled = run.start + gate.delay index ∧ gate.slot index < maxRunSecs := by
  obtain ⟨gate, hg, hs, hge⟩ := WorkSource.begin_wait h
  have hlt := run.slot_lt hg hge
  rw [RateGate.scheduled_eq (run.qps_pos hg) hlt] at hs
  obtain ⟨qps, -, rfl⟩ := run.exists_qps hg
  exact ⟨_, hg, (Except.ok.inj hs).symm, hlt⟩

/-- The conversion of the slots to durations never stops the program. -/
theorem begin_ne_panicked (run : LoadRun) (index : Nat) (now : Instant) : run.work.begin index now ≠ .panicked := by
  intro h
  obtain ⟨gate, p, hg, hp, hge⟩ := WorkSource.begin_panicked h
  rw [RateGate.scheduled_eq (run.qps_pos hg) (run.slot_lt hg hge)] at hp
  cases hp

/-- A call that draws an index inside the count and the budget waits for its slot. -/
theorem begin_of_gate (run : LoadRun) {gate : RateGate} (hg : run.work.gate = some gate) {index : Nat}
    (hn : ∀ n, run.plan.config.count = some n → index < n)
    (hb : (gate.slotSecs index).ge (run.work.budgetSecs gate) = false) (now : Instant) :
    run.work.begin index now = .wait (run.start + gate.delay index) := by
  obtain ⟨qps, -, rfl⟩ := run.exists_qps hg
  exact WorkSource.begin_of_gate hg hn hb (RateGate.scheduled_eq (run.qps_pos hg) (run.slot_lt hg hb))

theorem cap_pos (run : LoadRun) : 0 < run.cap := by
  have h := Dns.two_le_maxInFlight run.target run.plan.config.proto
  exact lt_min (by rw [transport]; omega) run.plan.admitted.inFlight.1

end LoadRun

end WireSurge.Engine
