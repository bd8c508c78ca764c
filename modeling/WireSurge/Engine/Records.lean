import WireSurge.Engine.Run

/-!
# What a run leaves behind

Of a run one can see the response it got, the record of its runner and its
report (`Seen`). `runRunSpec_leaves` says what they are in the end, when the
records could be written: the runner's record is closed, whatever the outcome,
and it is open only while the run waits for its exchange; and a run with a
result has its verdict in both of its records.
-/

namespace WireSurge.Engine

open WireSurge.Core
open Metrics (Host RunnerStats ReportSummary)
open Prog

/-- What can be seen of a run. -/
structure Seen where
  spec : Option RunSpec
  response : Option HttpResponse
  /-- The runner's record. -/
  record : Option RunnerStats
  report : Option ReportSummary

namespace Seen

def start : Seen := ⟨none, none, none, none⟩

@[simp] def observe (s : Seen) : (op : Call) → op.Answer → Seen
  | .target _, .ok spec => { s with spec := some spec }
  | .exchange _, some (.ok response) => { s with response := some response }
  | .snapshot stats, .ok () => { s with record := some stats }
  | .report _ summary _, .ok () => { s with report := some summary }
  | _, _ => s

/-- The runner's record says of no run that it is active. -/
def Closed (s : Seen) : Prop := ∀ record, s.record = some record → record.Closed

theorem not_closed {s : Seen} {record : RunnerStats} (h : s.record = some record) (hr : ¬ record.Closed) :
    ¬ s.Closed :=
  fun hc => hr (hc record h)

end Seen

/-- Every write of a runner's record succeeds. -/
@[simp] def SnapshotsWritten : (op : Call) → op.Answer → Prop
  | .snapshot _, ans => ans = .ok ()
  | _, _ => True

/-- What surroundings that write the runner's record show of a run. -/
def seen : World Call Call.Answer Seen := fun s op ans s' => SnapshotsWritten op ans ∧ s' = s.observe op ans

/-- The runner's record is open while the run waits for its exchange. -/
@[simp] def OpenInExchange (s : Seen) : Call → Prop
  | .exchange _ => ¬ s.Closed
  | _ => True

/-! ## The requests -/

section

variable {I : Seen → Call → Prop} {s : Seen}

theorem safe_call {op : Call} {Q : op.Answer → Seen → Prop} :
    Safe seen I Q (Prog.request op) s ↔ I s op ∧ ∀ ans, SnapshotsWritten op ans → Q ans (s.observe op ans) := by
  constructor
  · exact fun h => ⟨h.1, fun ans hw => h.2 ans _ ⟨hw, rfl⟩⟩
  · refine fun h => ⟨h.1, ?_⟩
    rintro ans s' ⟨hw, rfl⟩
    exact h.2 ans hw

@[simp] theorem safe_clock {Q : Except WireSurgeError Nat → Seen → Prop} :
    Safe seen I Q clock.run s ↔ I s .clock ∧ ∀ now, Q (.ok now) s := by
  rw [clock, safe_run_lift]
  exact safe_call.trans (by simp)

@[simp] theorem safe_exchange {request : RequestSpec}
    {Q : Except WireSurgeError (Option (Except WireSurgeError HttpResponse)) → Seen → Prop} :
    Safe seen I Q (exchange request).run s ↔
      I s (.exchange request) ∧ ∀ ans, Q (.ok ans) (s.observe (.exchange request) ans) := by
  rw [exchange, safe_run_lift]
  exact safe_call.trans (by simp)

@[simp] theorem safe_writeRunnerSnapshot {stats : RunnerStats} {Q : Except WireSurgeError Unit → Seen → Prop} :
    Safe seen I Q (writeRunnerSnapshot stats).run s ↔
      I s (.snapshot stats) ∧ Q (.ok ()) { s with record := some stats } :=
  safe_call.trans (by simp)

@[simp] theorem safe_writeReport {dir : String} {summary : ReportSummary} {details : ReportDetails}
    {Q : Except WireSurgeError Unit → Seen → Prop} :
    Safe seen I Q (writeReport dir summary details).run s ↔
      I s (.report dir summary details) ∧ Q (.ok ()) { s with report := some summary } ∧ ∀ e, Q (.error e) s := by
  refine safe_call.trans (and_congr_right fun _ => ⟨fun h => ⟨h (.ok ()) trivial, fun e => h (.error e) trivial⟩, ?_⟩)
  rintro ⟨hok, herror⟩ (e | ⟨⟩) -
  · exact herror e
  · exact hok

end

/-! ## The run -/

variable {s : Seen}

/-- Without a response, the record is closed. -/
theorem awaitResponse_leaves (request : RequestSpec) {active : RunnerStats} (h : s.record = some active)
    (ha : ¬ active.Closed) :
    Safe seen OpenInExchange
      (onOk (fun response s' => s' = { s with response := some response }) fun _ => Seen.Closed)
      (awaitResponse request active).run s := by
  simp only [awaitResponse, safe_run_bind, safe_exchange]
  refine ⟨Seen.not_closed h ha, ?_⟩
  rintro (_ | error | response)
  · simp only [onOk, safe_run_bind, safe_run_throw, Seen.Closed, safe_writeRunnerSnapshot, OpenInExchange,
      Option.some.injEq, forall_eq', active.closed_cancelled, and_self]
  · simp only [onOk, unixTimestamp, safe_run_bind, safe_run_pure, safe_run_throw, safe_run_lift, Seen.Closed,
      safe_writeRunnerSnapshot, OpenInExchange, Option.some.injEq, forall_eq', active.closed_finalizeFailed, and_self,
      safe_clock, implies_true]
  · simp only [onOk, safe_run_pure, Seen.observe]

theorem dryRun_leaves (host : Host) (request : RequestSpec) (expect : Option Expect) (options : RunOptions) :
    Safe seen OpenInExchange (fun _ => Seen.Closed) (dryRun host request expect options).run s := by
  simp only [dryRun, generateId, unixTimestamp, safe_run_bind, safe_run_pure, Seen.Closed, safe_writeRunnerSnapshot,
    OpenInExchange, onOk, Option.some.injEq, forall_eq', RunnerStats.closed_finishWithLatency, and_self, safe_clock,
    implies_true]

theorem sendRequestInner_leaves (host : Host) (request : RequestSpec) (options : RunOptions) :
    Safe seen OpenInExchange
      (onOk (fun outcome s' => outcome.activeRunner.workers ≠ [] ∧
          s' = { s with response := some outcome.response, record := some outcome.activeRunner })
        fun _ => Seen.Closed)
      (sendRequestInner host request options).run s := by
  simp only [sendRequestInner, generateId, unixTimestamp, safe_run_bind, safe_clock, safe_run_pure, onOk,
    OpenInExchange,
    true_and, safe_writeRunnerSnapshot]
  intro now now'
  have hopen := RunnerStats.not_closed_localRunner host (now' / 1000) (some (Core.generateId now "run" request.id))
    options.parallel
  refine (awaitResponse_leaves request rfl hopen).mono fun r s' hr => ?_
  cases r with
  | error e => exact hr
  | ok response =>
    rw [onOk]
    exact ⟨RunnerStats.workers_localRunner_ne_nil _ _ _ _, hr⟩

theorem reportRun_leaves (request : RequestSpec) (outcome : SendOutcome) (runner : RunnerStats)
    (assertion : AssertionOutcome) (options : RunOptions) :
    Safe seen OpenInExchange
      (onOk (fun _ s' => ∃ report, s' = { s with report } ∧ ∀ dir, options.reportDir = some dir →
          ∃ id now, report = some (.singleRequest id now outcome.response.durationMs
            (isSuccess outcome.response assertion)))
        fun _ s' => s' = s)
      (reportRun request outcome runner assertion options).run s := by
  unfold reportRun
  cases hdir : options.reportDir with
  | none => exact ⟨s.report, rfl, nofun⟩
  | some dir =>
    simp only [generateId, unixTimestamp, safe_run_bind, safe_run_pure, onOk, safe_writeReport, safe_clock,
      OpenInExchange, Option.some.injEq, true_and, implies_true, and_true]
    intro now now'
    refine ⟨_, rfl, fun dir' hdir' => ⟨_, _, rfl⟩⟩

/-- The records of a live run with a result. -/
def Judged (json : JsonText) (expect : Option Expect) (options : RunOptions) (result : RunResult) (s : Seen) : Prop :=
  ∃ response active now, s.response = some response ∧
    result.assertion = evaluateExpect json expect response options.secretValues ∧ active.workers ≠ [] ∧
    s.record = some (RunnerStats.finishWithLatency active now response.durationMs
      (isSuccess response result.assertion)) ∧
    ∀ dir, options.reportDir = some dir → ∃ id now,
      s.report = some (.singleRequest id now response.durationMs (isSuccess response result.assertion))

theorem liveRun_leaves (json : JsonText) (host : Host) (request : RequestSpec) (expect : Option Expect)
    (options : RunOptions) :
    Safe seen OpenInExchange
      (fun r s' => s'.Closed ∧ ∀ result, r = .ok result → s'.spec = s.spec ∧ Judged json expect options result s')
      (liveRun json host request expect options).run s := by
  rw [liveRun, safe_run_bind]
  refine (sendRequestInner_leaves host request options).mono fun r s' hr => ?_
  rcases r with e | outcome
  · rw [onOk]
    exact ⟨hr, fun _ h => by cases h⟩
  obtain ⟨hworkers, rfl⟩ := hr
  simp only [unixTimestamp, safe_run_bind, safe_clock, safe_run_pure, onOk, OpenInExchange, true_and,
    safe_writeRunnerSnapshot]
  intro now
  refine (reportRun_leaves request outcome _ _ options).mono fun r s' hr => ?_
  have hclosed := outcome.activeRunner.closed_finishWithLatency (now / 1000) outcome.response.durationMs
    (isSuccess outcome.response (evaluateExpect json expect outcome.response options.secretValues))
  rcases r with e | report
  · subst hr
    rw [onOk]
    refine ⟨?_, fun _ h => by cases h⟩
    rintro record ⟨⟩
    exact hclosed
  · obtain ⟨report', rfl, hreport⟩ := hr
    rw [onOk]
    refine ⟨?_, ?_⟩
    · rintro record ⟨⟩
      exact hclosed
    · rintro result ⟨⟩
      exact ⟨rfl, outcome.response, outcome.activeRunner, now / 1000, rfl, rfl, hworkers, rfl, hreport⟩

theorem safe_expandSpec {I : Seen → Call → Prop} {Q : Except WireSurgeError RequestSpec → Seen → Prop}
    (spec : RunSpec) (scope : Scope) (hI : I s .panic) (hQ : ∀ r, Q r s) :
    Safe seen I Q (expandSpec spec scope).run s := by
  unfold expandSpec
  split
  · exact hQ _
  · exact ⟨hI, nofun⟩
  · exact ⟨hI, nofun⟩

/-- What a run leaves: its record is closed, and, when it has a live result, judged. -/
theorem runRunSpec_leaves (json : JsonText) (host : Host) (spec : RunSpec) (cliVars cliSecrets : BTreeMap String)
    (options : RunOptions) (hs : s.Closed) :
    Safe seen OpenInExchange
      (fun r s' => s'.Closed ∧ (options.dryRun = false → ∀ result, r = .ok result → s'.spec = s.spec ∧
        Judged json spec.expect { options with secretValues := cliSecrets.values.map String.toList } result s'))
      (runRunSpec json host spec cliVars cliSecrets options).run s := by
  simp only [runRunSpec, safe_run_bind, safe_clock, onOk, OpenInExchange, true_and]
  intro now
  refine safe_expandSpec spec _ trivial fun r => ?_
  cases r with
  | error e => exact ⟨hs, fun _ _ h => by cases h⟩
  | ok request =>
    rw [onOk]
    cases hdry : options.dryRun with
    | true => exact (dryRun_leaves ..).mono fun r s' hr => ⟨hr, fun h => by cases h⟩
    | false => exact (liveRun_leaves ..).mono fun r s' hr => ⟨hr.1, fun _ => hr.2⟩

end WireSurge.Engine
