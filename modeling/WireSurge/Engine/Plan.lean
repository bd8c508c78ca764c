import Mathlib.Algebra.Order.Ring.Rat
import Mathlib.Data.NNRat.Defs
import Mathlib.Tactic.NormNum
import WireSurge.Corpus.Select
import WireSurge.Dns.Transport
import WireSurge.Lib.Double

/-!
# Load plans

`LoadConfig` and its admission checks. A `ValidatedLoadPlan` is a configuration
that passed them, and so its bounds hold by construction (`admitted`).
-/

namespace WireSurge.Engine

open WireSurge.Core (WireSurgeError bind_eq_ok failWhen failWhen_eq_ok)
open WireSurge.Corpus (Corpus)
open WireSurge.Dns (Bytes LoadProto)

/-- `EdnsOption`. -/
structure EdnsOption where
  code : UInt16
  payload : Bytes
  deriving DecidableEq, Repr

/-- `LoadConfig`. -/
structure LoadConfig where
  proto : LoadProto
  corpus : Corpus
  qtype : UInt16
  concurrency : Nat
  inFlight : Nat
  timeout : ℚ≥0
  qpsCap : Option Double
  duration : Option ℚ≥0
  count : Option Nat
  randomize : Bool
  seed : UInt64
  ednsOptions : List EdnsOption

def maxConcurrency : Nat := 1024
def maxInFlight : Nat := 1024
def maxQps : Nat := 1_000_000
def maxAggregateInFlight : Nat := 4096
def maxInFlightBytes : Nat := 256 * 1024 * 1024
def maxCorpusRows : Nat := 10_000_000
def maxWireLen : Nat := 65535

/-- Also the bound on the wait at the rate gate. -/
def maxRunSecs : Nat := 7 * 24 * 3600

/-- The admission error of a field. -/
def fieldError (code message path : String) : WireSurgeError :=
  ((WireSurgeError.new code message).atPath path).reject

/-- `usize` and `u64` products saturate. -/
def saturatingMul (a b : Nat) : Nat := min (a * b) (2 ^ 64 - 1)

/-- `ResourceBudget`: what a plan takes at most. -/
structure ResourceBudget where
  totalInFlight : Nat
  inFlightBytes : Nat
  corpusRows : Nat
  deriving DecidableEq, Repr

namespace ResourceBudget

/-- `of`; the products saturate. -/
def of (config : LoadConfig) : ResourceBudget :=
  let totalInFlight := saturatingMul config.concurrency config.inFlight
  { totalInFlight, inFlightBytes := saturatingMul totalInFlight maxWireLen, corpusRows := config.corpus.len }

/-- `check`: what is over its bound is named in the error. -/
def check (b : ResourceBudget) : Except WireSurgeError Unit := do
  failWhen (b.totalInFlight > maxAggregateInFlight)
    (fieldError "invalid_aggregate_in_flight"
      ("connections times in-flight must be at most " ++ toString maxAggregateInFlight) "concurrency")
  failWhen (b.inFlightBytes > maxInFlightBytes)
    (fieldError "invalid_in_flight_bytes" "estimated in-flight bytes exceed the resource budget" "in_flight")
  failWhen (b.corpusRows > maxCorpusRows)
    (fieldError "corpus_too_large" ("corpus must have at most " ++ toString maxCorpusRows ++ " rows") "file")

end ResourceBudget

/-- The checks of `ValidatedLoadPlan::new`, in order. -/
def LoadConfig.check (c : LoadConfig) : Except WireSurgeError Unit := do
  failWhen (c.concurrency = 0) (fieldError "invalid_concurrency" "concurrency must be at least 1" "concurrency")
  failWhen (c.concurrency > maxConcurrency)
    (fieldError "invalid_concurrency" ("concurrency must be at most " ++ toString maxConcurrency) "concurrency")
  failWhen (c.inFlight = 0) (fieldError "invalid_in_flight" "in-flight depth must be at least 1" "in_flight")
  failWhen (c.inFlight > maxInFlight)
    (fieldError "invalid_in_flight" ("in-flight depth must be at most " ++ toString maxInFlight) "in_flight")
  failWhen (c.qpsCap.any fun qps => qps.le 0 || !qps.isFinite)
    (fieldError "invalid_qps" "qps cap must be a positive, finite number" "qps_cap")
  failWhen (c.qpsCap.any fun qps => qps.gt maxQps)
    (fieldError "invalid_qps" ("qps cap must be at most " ++ toString maxQps) "qps_cap")
  failWhen (c.duration.any fun d => d = 0 || (maxRunSecs : ℚ≥0) < d)
    (fieldError "invalid_duration" ("duration must be at most " ++ toString maxRunSecs ++ " seconds") "duration")
  failWhen (c.duration.isNone && c.count.isNone)
    (WireSurgeError.new "invalid_stop_condition" "a duration (-l) or a count must be set").reject
  failWhen (c.timeout < 1 / 1000 || 60 < c.timeout)
    (fieldError "invalid_timeout" "timeout must be between 1ms and 60s" "timeout")
  (ResourceBudget.of c).check

/-- `ValidatedLoadPlan`: a configuration that has passed its checks. -/
structure ValidatedLoadPlan where
  config : LoadConfig
  valid : config.check = .ok ()

namespace ValidatedLoadPlan

/-- `ValidatedLoadPlan::new`. -/
def new (config : LoadConfig) : Except WireSurgeError ValidatedLoadPlan :=
  match h : config.check with
  | .ok () => .ok ⟨config, h⟩
  | .error error => .error error

/-- `resource_budget`. -/
def resourceBudget (plan : ValidatedLoadPlan) : ResourceBudget := .of plan.config

/-- The cap on the rate; it is finite. -/
def qps (plan : ValidatedLoadPlan) : Option ℚ :=
  match plan.config.qpsCap with
  | some (.finite value _) => some value
  | _ => none

end ValidatedLoadPlan

/-- The bounds of a plan. -/
structure Admitted (c : LoadConfig) : Prop where
  concurrency : 0 < c.concurrency ∧ c.concurrency ≤ maxConcurrency
  inFlight : 0 < c.inFlight ∧ c.inFlight ≤ maxInFlight
  qps {f : Double} : c.qpsCap = some f → ∃ q h, f = .finite q h ∧ 0 < q ∧ q ≤ maxQps
  duration {d : ℚ≥0} : c.duration = some d → 0 < d ∧ d ≤ (maxRunSecs : ℚ≥0)
  stops : c.duration.isSome ∨ c.count.isSome
  timeout : 1 / 1000 ≤ c.timeout ∧ c.timeout ≤ 60
  rows : c.corpus.len ≤ maxCorpusRows

theorem admitted_of_check {c : LoadConfig} (h : c.check = .ok ()) : Admitted c := by
  simp only [LoadConfig.check, ResourceBudget.check, ResourceBudget.of, bind_eq_ok, failWhen_eq_ok,
    decide_eq_false_iff_not, Bool.or_eq_false_iff, Bool.and_eq_false_iff, not_lt, gt_iff_lt,
    Option.isNone_eq_false_iff] at h
  obtain ⟨hc0, hc, hi0, hi, hq0, hq, hd, hs, ⟨ht0, ht⟩, -, -, hr⟩ := h
  refine ⟨⟨Nat.pos_of_ne_zero hc0, hc⟩, ⟨Nat.pos_of_ne_zero hi0, hi⟩, fun {f} hf => ?_, fun {d} hd' => ?_, hs,
    ⟨ht0, ht⟩, hr⟩
  · rw [hf] at hq0 hq
    cases f with
    | finite q h => exact ⟨q, h, rfl, by simpa [Double.le, Double.isFinite] using hq0, by simpa [Double.gt] using hq⟩
    | infinite | nan => simp [Double.le, Double.isFinite] at hq0
  · rw [hd'] at hd
    simp only [Option.any_some, Bool.or_eq_false_iff, decide_eq_false_iff_not, not_lt] at hd
    exact ⟨pos_iff_ne_zero.mpr hd.1, hd.2⟩

theorem ValidatedLoadPlan.admitted (plan : ValidatedLoadPlan) : Admitted plan.config := admitted_of_check plan.valid

namespace ValidatedLoadPlan

variable {plan : ValidatedLoadPlan} {q : ℚ}

theorem qps_bounds (h : plan.qps = some q) : 0 < q ∧ q ≤ maxQps := by
  unfold qps at h
  split at h
  · rename_i value _ hv
    cases h
    obtain ⟨q, _, hq, hpos, hle⟩ := plan.admitted.qps hv
    cases hq
    exact ⟨hpos, hle⟩
  · cases h

theorem qps_pos (h : plan.qps = some q) : 0 < q := (qps_bounds h).1

end ValidatedLoadPlan

end WireSurge.Engine
