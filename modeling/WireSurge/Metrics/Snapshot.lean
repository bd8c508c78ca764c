import WireSurge.Core.Json
import WireSurge.Metrics.Rcodes
import WireSurge.Metrics.Runner

/-!
# Run snapshots

What is shown of recorders: `snapshotWorker` for one connection, and
`AggregateStats` for a run. The percentiles come from the histogram library, of
which `Histogram` is what is used.

Recorders are ordered by what has been added to them, and the counters of an
aggregate follow that order (`noMore_fromRecorder`).
-/

namespace WireSurge.Metrics

/-- `hdrhistogram`, on the values recorded. -/
structure Histogram where
  valueAtQuantile : Multiset Nat → ℚ → Nat
  max : Multiset Nat → Nat

theorem thousand_bounded : |(1000 : ℚ)| ≤ maxDouble := by
  have hpow : (1 : ℚ) ≤ 2 ^ 971 := one_le_pow₀ (by norm_num)
  rw [abs_of_pos (by norm_num), maxDouble]
  calc (1000 : ℚ) ≤ (2 ^ 53 - 1) * 1 := by norm_num
    _ ≤ (2 ^ 53 - 1) * 2 ^ 971 := mul_le_mul_of_nonneg_left hpow (by norm_num)

/-- `us as f64 / 1000.0`. -/
def millis (us : Nat) : Double := .quotient (Core.Number.natToF64 us) (.finite 1000 thousand_bounded)

/-- `count as f64 / elapsed_s`, or zero when no time has passed. -/
def perSecond (elapsed : Double) (count : Nat) : Double :=
  if elapsed.gt 0 then .quotient (Core.Number.natToF64 count) elapsed else 0

namespace LoadRecorder

variable (lib : Histogram)

/-- `percentile_ms`. -/
def percentileMs (r : LoadRecorder) (quantile : ℚ) : Double := millis (lib.valueAtQuantile r.hist quantile)

/-- `max_ms`. -/
def maxMs (r : LoadRecorder) : Double := millis (lib.max r.hist)

/-- `snapshot_worker`. -/
def snapshotWorker (r : LoadRecorder) (id status : String) (elapsed : Double) (inFlight : Nat) : WorkerStats where
  id := id
  status := status
  qps := perSecond elapsed r.sent
  rps := perSecond elapsed r.received
  p50Ms := r.percentileMs lib (50 / 100)
  p95Ms := r.percentileMs lib (95 / 100)
  p99Ms := r.percentileMs lib (99 / 100)
  errorRate := perSecond elapsed (r.errors + r.connErrors)
  timeoutRate := perSecond elapsed r.timeouts
  openConnections := if status ≠ "failed" then 1 else 0
  inFlight := inFlight

end LoadRecorder

/-- `AggregateStats`. -/
structure AggregateStats where
  sent : Nat
  received : Nat
  timeouts : Nat
  errors : Nat
  connErrors : Nat
  truncated : Nat
  bytesIn : Nat
  inFlight : Nat
  goodput : Nat
  recvQps : Double
  goodputQps : Double
  rcodes : Std.ExtTreeMap String Nat
  p50Ms : Double
  p95Ms : Double
  p99Ms : Double
  maxMs : Double

/-- `from_recorder`. -/
def AggregateStats.fromRecorder (lib : Histogram) (r : LoadRecorder) (elapsed : Double) (inFlight : Nat) :
    AggregateStats where
  sent := r.sent
  received := r.received
  timeouts := r.timeouts
  errors := r.errors
  connErrors := r.connErrors
  truncated := r.truncated
  bytesIn := r.bytesIn
  inFlight := inFlight
  goodput := r.goodput
  recvQps := perSecond elapsed r.received
  goodputQps := perSecond elapsed r.goodput
  rcodes := r.rcodeBreakdown
  p50Ms := r.percentileMs lib (50 / 100)
  p95Ms := r.percentileMs lib (95 / 100)
  p99Ms := r.percentileMs lib (99 / 100)
  maxMs := r.maxMs lib

/-- `RunSnapshot`. -/
structure RunSnapshot where
  elapsed : Double
  finalSample : Bool
  aggregate : AggregateStats
  workers : List WorkerStats

/-! ## More recorded -/

namespace LoadRecorder

/-- `s` is `r` with more recorded. -/
instance : Preorder LoadRecorder where
  le r s := ∃ d, s = r + d
  le_refl r := ⟨0, (add_zero r).symm⟩
  le_trans := by
    rintro r s t ⟨d, rfl⟩ ⟨e, rfl⟩
    exact ⟨d + e, add_assoc r d e⟩

instance : AddLeftMono LoadRecorder where
  elim := by
    rintro r s t ⟨d, rfl⟩
    exact ⟨d, (add_assoc r s d).symm⟩

theorem le_apply (r : LoadRecorder) (e : Event) : r ≤ r.apply e := ⟨new.apply e, apply_eq r e⟩

theorem le_record (r : LoadRecorder) (result : Dns.Outcome) (elapsedUs : Nat) : r ≤ r.record result elapsedUs := by
  unfold record
  split
  · exact r.le_apply (.response _ _ _ _)
  · exact r.le_apply .timeout
  · exact r.le_apply .connError
  · exact r.le_apply .error

theorem rcodes_le {r s : LoadRecorder} (h : r ≤ s) (code : Fin 17) : r.rcodes code ≤ s.rcodes code := by
  obtain ⟨d, rfl⟩ := h
  exact Nat.le_add_right _ _

/-- The count under a name. -/
theorem breakdown_le {r s : LoadRecorder} (h : r ≤ s) (name : String) :
    r.rcodeBreakdown[name]?.getD 0 ≤ s.rcodeBreakdown[name]?.getD 0 := by
  by_cases hname : name ∈ r.rcodeBreakdown
  · obtain ⟨code, hpos, rfl⟩ := mem_rcodeBreakdown.mp hname
    have hle := rcodes_le h code
    rw [getElem?_rcodeBreakdown hpos, getElem?_rcodeBreakdown (hpos.trans_le hle)]
    exact hle
  · rw [Std.ExtTreeMap.getElem?_eq_none hname]
    exact Nat.zero_le _

end LoadRecorder

/-- No counter of `a` is above that of `b`. -/
structure AggregateStats.NoMore (a b : AggregateStats) : Prop where
  sent : a.sent ≤ b.sent
  received : a.received ≤ b.received
  timeouts : a.timeouts ≤ b.timeouts
  errors : a.errors ≤ b.errors
  connErrors : a.connErrors ≤ b.connErrors
  truncated : a.truncated ≤ b.truncated
  bytesIn : a.bytesIn ≤ b.bytesIn
  goodput : a.goodput ≤ b.goodput
  rcodes (name : String) : a.rcodes[name]?.getD 0 ≤ b.rcodes[name]?.getD 0

theorem AggregateStats.noMore_fromRecorder (lib : Histogram) {r s : LoadRecorder} (h : r ≤ s)
    (elapsed elapsed' : Double) (inFlight inFlight' : Nat) :
    (fromRecorder lib r elapsed inFlight).NoMore (fromRecorder lib s elapsed' inFlight') := by
  have hrcodes := LoadRecorder.breakdown_le h
  have hgoodput := LoadRecorder.rcodes_le h 0
  obtain ⟨d, rfl⟩ := h
  exact ⟨Nat.le_add_right _ _, Nat.le_add_right _ _, Nat.le_add_right _ _, Nat.le_add_right _ _,
    Nat.le_add_right _ _, Nat.le_add_right _ _, Nat.le_add_right _ _, hgoodput, hrcodes⟩

end WireSurge.Metrics
