import WireSurge.Lib.Double

/-!
# Runner records

`RunnerStats`, the record of a runner that a watcher reads, and
`ReportSummary`, the one of a run that is kept. Both get their verdict from
whether the run was a success; `finishWithLatency_errorRate` is what the error
rate of a runner says of it.
-/

namespace WireSurge.Metrics

/-- `WorkerStats`. -/
structure WorkerStats where
  id : String
  status : String
  qps : Double
  rps : Double
  p50Ms : Double
  p95Ms : Double
  p99Ms : Double
  errorRate : Double
  timeoutRate : Double
  openConnections : Nat
  inFlight : Nat
  deriving DecidableEq

/-- `WorkerStats::idle`. -/
def WorkerStats.idle (id : String) : WorkerStats where
  id := id
  status := "idle"
  qps := 0
  rps := 0
  p50Ms := 0
  p95Ms := 0
  p99Ms := 0
  errorRate := 0
  timeoutRate := 0
  openConnections := 0
  inFlight := 0

/-- The process of a runner. -/
structure Host where
  pid : Nat
  version : String

/-- `RunnerStats`. -/
structure RunnerStats where
  id : String
  name : String
  source : String
  status : String
  pid : Nat
  version : String
  startedAt : Nat
  lastHeartbeat : Nat
  activeRunId : Option String
  workers : List WorkerStats
  qps : Double
  rps : Double
  p50Ms : Double
  p95Ms : Double
  p99Ms : Double
  errorRate : Double
  timeoutRate : Double
  openConnections : Nat
  cpuPct : Double
  memoryBytes : Nat
  deriving DecidableEq

namespace RunnerStats

/-- `local`: the record of a run that starts at `now`. -/
def localRunner (host : Host) (now : Nat) (activeRunId : Option String) (workers : Nat) : RunnerStats where
  id := "local-" ++ toString host.pid
  name := "local-cli"
  source := "cli"
  status := "active"
  pid := host.pid
  version := host.version
  startedAt := now
  lastHeartbeat := now
  activeRunId := activeRunId
  workers := (List.range (max workers 1)).map fun index => .idle ("worker-" ++ toString index)
  qps := 0
  rps := 0
  p50Ms := 0
  p95Ms := 0
  p99Ms := 0
  errorRate := 0
  timeoutRate := 0
  openConnections := 0
  cpuPct := 0
  memoryBytes := 0

/-- The requests in a second, when one takes `durationMs`. -/
def rate (durationMs : Double) : Double := if durationMs.gt 0 then .quotient 1000 durationMs else 0

/-- What a finished run leaves of a worker. -/
def finishWorker (worker : WorkerStats) (durationMs errorRate : Double) : WorkerStats :=
  { worker with
    status := "idle"
    rps := rate durationMs
    qps := rate durationMs
    p50Ms := durationMs
    p95Ms := durationMs
    p99Ms := durationMs
    errorRate }

/-- `finish_with_latency`. -/
def finishWithLatency (stats : RunnerStats) (now : Nat) (durationMs : Double) (success : Bool) : RunnerStats :=
  let errorRate := if success then 0 else rate durationMs
  { stats with
    status := "idle"
    activeRunId := none
    lastHeartbeat := now
    rps := rate durationMs
    qps := rate durationMs
    p50Ms := durationMs
    p95Ms := durationMs
    p99Ms := durationMs
    errorRate
    workers := stats.workers.modifyHead fun worker => finishWorker worker durationMs errorRate }

/-- `finalize_failed`. -/
def finalizeFailed (stats : RunnerStats) (now : Nat) : RunnerStats :=
  { stats with status := "failed", activeRunId := none, lastHeartbeat := now }

/-- The record of a run that a signal has stopped. -/
def cancelled (stats : RunnerStats) : RunnerStats := { stats with status := "cancelled", activeRunId := none }

/-- The record says of no run that it is active. -/
def Closed (stats : RunnerStats) : Prop := stats.status ≠ "active" ∧ stats.activeRunId = none

instance (stats : RunnerStats) : Decidable stats.Closed := inferInstanceAs (Decidable (_ ∧ _))

theorem closed_finishWithLatency (stats : RunnerStats) (now : Nat) (durationMs : Double) (success : Bool) :
    (stats.finishWithLatency now durationMs success).Closed := ⟨(by decide : "idle" ≠ "active"), rfl⟩

theorem closed_finalizeFailed (stats : RunnerStats) (now : Nat) : (stats.finalizeFailed now).Closed :=
  ⟨(by decide : "failed" ≠ "active"), rfl⟩

theorem closed_cancelled (stats : RunnerStats) : stats.cancelled.Closed :=
  ⟨(by decide : "cancelled" ≠ "active"), rfl⟩

theorem not_closed_localRunner (host : Host) (now : Nat) (activeRunId : Option String) (workers : Nat) :
    ¬ (localRunner host now activeRunId workers).Closed := fun h => h.1 rfl

/-- The duration is finite, and not zero. -/
def HasRate : Double → Prop
  | .finite value _ => 0 < value
  | .infinite _ | .nan => False

instance : DecidablePred HasRate
  | .finite _ _ => inferInstanceAs (Decidable (_ < _))
  | .infinite _ | .nan => inferInstanceAs (Decidable False)

theorem rate_eq_zero {durationMs : Double} : rate durationMs = 0 ↔ ¬ HasRate durationMs := by
  cases durationMs with
  | finite value h =>
    simp only [rate, Double.gt, decide_eq_true_eq, HasRate]
    split
    · rename_i hpos
      simp [hpos, Double.quotient_ne_zero (by norm_num : (1 : ℚ) ≤ 1000) h hpos]
    · rename_i hpos
      simp [hpos]
  | infinite negative => cases negative <;> simp [rate, Double.gt, Double.quotient, HasRate]
  | nan => simp [rate, Double.gt, HasRate]

/-- A failure shows in the error rate when the run has a rate at all. -/
theorem finishWithLatency_errorRate (stats : RunnerStats) (now : Nat) (durationMs : Double) (success : Bool) :
    (stats.finishWithLatency now durationMs success).errorRate = 0 ↔ success ∨ ¬ HasRate durationMs := by
  cases success <;> simp [finishWithLatency, rate_eq_zero]

/-- The first worker has the error rate of the runner. -/
theorem finishWithLatency_workers {stats : RunnerStats} (h : stats.workers ≠ []) (now : Nat) (durationMs : Double)
    (success : Bool) : ∃ worker, (stats.finishWithLatency now durationMs success).workers.head? = some worker ∧
      worker.errorRate = (stats.finishWithLatency now durationMs success).errorRate := by
  obtain ⟨worker, workers, hw⟩ := List.exists_cons_of_ne_nil h
  simp only [finishWithLatency, hw, List.modifyHead_cons, List.head?_cons]
  exact ⟨_, rfl, rfl⟩

theorem workers_localRunner_ne_nil (host : Host) (now : Nat) (activeRunId : Option String) (workers : Nat) :
    (localRunner host now activeRunId workers).workers ≠ [] := by
  simp [localRunner]

end RunnerStats

/-! ## Reports -/

/-- `ReportSummary`. -/
structure ReportSummary where
  id : String
  startedAt : Nat
  durationMs : Double
  scenarioHash : String
  gitCommit : Option String
  status : String
  totalRequests : Nat
  totalErrors : Nat
  p50Ms : Double
  p95Ms : Double
  p99Ms : Double
  errorSummary : String
  redactionStatus : String
  deriving DecidableEq

/-- `single_request`: of one request, its latency is every percentile. -/
def ReportSummary.singleRequest (id : String) (now : Nat) (durationMs : Double) (success : Bool) : ReportSummary where
  id := id
  startedAt := now
  durationMs := durationMs
  scenarioHash := "single-request"
  gitCommit := none
  status := if success then "passed" else "failed"
  totalRequests := 1
  totalErrors := if success then 0 else 1
  p50Ms := durationMs
  p95Ms := durationMs
  p99Ms := durationMs
  errorSummary := if success then "none" else "request failed"
  redactionStatus := "redacted"

theorem ReportSummary.singleRequest_passed {id : String} {now : Nat} {durationMs : Double} {success : Bool} :
    (singleRequest id now durationMs success).status = "passed" ↔ success := by
  cases success <;> simp [singleRequest]

end WireSurge.Metrics
