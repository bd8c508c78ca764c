import WireSurge.Core.Scenario
import WireSurge.Lib.Prog
import WireSurge.Metrics.Runner

/-!
# A run

`run_run_spec_with_cancellation`: a request is expanded, sent, and judged. It
is a program that asks for what it needs of its surroundings (`Call`): the
clock, the exchange with the target, and the writes of its records, each of
which may fail.
-/

namespace WireSurge.Engine

open WireSurge.Core
open Checked (Panic)
open Metrics (Host RunnerStats ReportSummary)
open Str (Text toAsciiLowercase)

/-! ## Responses and verdicts -/

/-- `HttpResponse`. -/
structure HttpResponse where
  statusCode : UInt16
  reason : String
  headers : BTreeMap String
  body : String
  durationMs : Double
  warnings : List String

/-- The response as an assertion sees it: its headers by their names in lower case. -/
def HttpResponse.toCallResponse (r : HttpResponse) : CallResponse where
  status := some r.statusCode
  code := none
  headers := lowerKeys r.headers
  body := r.body
  durationMs := r.durationMs
  warnings := r.warnings

/-- `to_json_value_with`. -/
def HttpResponse.redactedOutput (r : HttpResponse) (secretValues : List Text) : HttpResponse :=
  { r with
    headers := r.headers.map fun key value =>
      if isSensitiveHeaderName key then String.ofList redacted else RequestSpec.redactString value secretValues
    body := RequestSpec.redactString r.body secretValues }

/-- `AssertionOutcome`. -/
inductive AssertionOutcome
  | notEvaluated
  | passed
  | failed (error : WireSurgeError)
  deriving DecidableEq

/-- `matches!(assertion, AssertionOutcome::Failed(_))`. -/
def AssertionOutcome.isFailed : AssertionOutcome → Bool
  | .failed _ => true
  | .notEvaluated | .passed => false

/-- A message with the secrets in it masked. -/
def maskMessage (error : WireSurgeError) (secretValues : List Text) : WireSurgeError :=
  { error with message := String.ofList (maskSecretValues error.message.toList secretValues) }

/-- `evaluate_expect`; the message of a failure is masked. -/
def evaluateExpect (json : JsonText) (expect : Option Expect) (response : HttpResponse) (secretValues : List Text) :
    AssertionOutcome :=
  match expect with
  | none => .notEvaluated
  | some expect =>
    match evaluate json expect response.toCallResponse secretValues with
    | .ok () => .passed
    | .error error => .failed (maskMessage error secretValues)

/-- `RunOptions`. -/
structure RunOptions where
  parallel : Nat
  failFast : Bool
  dryRun : Bool
  verbose : Bool
  reportDir : Option String
  secretValues : List Text

/-- `RunResult`. -/
structure RunResult where
  id : String
  request : RequestSpec
  response : Option HttpResponse
  runner : RunnerStats
  report : Option ReportSummary
  warnings : List String
  dryRun : Bool
  assertion : AssertionOutcome
  secretValues : List Text

/-- `assertion_failed`. -/
def RunResult.assertionFailed (r : RunResult) : Bool := r.assertion.isFailed

/-- What is serialized into the details of a report. -/
structure ReportDetails where
  runId : String
  request : RedactedRequestSpec
  response : HttpResponse
  runner : RunnerStats
  assertion : AssertionOutcome

/-! ## What a run asks for -/

/-- What a run asks of its surroundings. -/
inductive Call
  /-- The time, in milliseconds. -/
  | clock
  /-- The file, or the stored request, of a name. -/
  | target (name : String)
  | snapshot (stats : RunnerStats)
  | report (dir : String) (summary : ReportSummary) (details : ReportDetails)
  /-- `select!` of the exchange and the cancellation. -/
  | exchange (request : RequestSpec)
  /-- A panic; there is no answer. -/
  | panic

/-- What it is answered; an exchange that is cancelled has no response. -/
abbrev Call.Answer : Call → Type
  | clock => Nat
  | target _ => Except WireSurgeError RunSpec
  | snapshot _ => Except WireSurgeError Unit
  | report .. => Except WireSurgeError Unit
  | exchange _ => Option (Except WireSurgeError HttpResponse)
  | panic => Empty

/-- What may fail, and asks. -/
abbrev Exec := ExceptT WireSurgeError (Prog Call Call.Answer)

/-- The clock of the host. -/
def clock : Exec Nat := ExceptT.lift (Prog.request Call.clock)

/-- `unix_timestamp`. -/
def unixTimestamp : Exec Nat := return (← clock) / 1000

/-- `generate_id`, of the time it is called at. -/
def generateId (pre name : String) : Exec String := return Core.generateId (← clock) pre name

/-- `write_runner_snapshot` of the workspace. -/
def writeRunnerSnapshot (stats : RunnerStats) : Exec Unit := ExceptT.mk (Prog.request (Call.snapshot stats))

/-- `write_report` of the workspace. -/
def writeReport (dir : String) (summary : ReportSummary) (details : ReportDetails) : Exec Unit :=
  ExceptT.mk (Prog.request (Call.report dir summary details))

/-- The HTTP exchange, or its cancellation. -/
def exchange (request : RequestSpec) : Exec (Option (Except WireSurgeError HttpResponse)) :=
  ExceptT.lift (Prog.request (Call.exchange request))

/-- `RunSpec::expand`. -/
def expandSpec (spec : RunSpec) (scope : Scope) : Exec RequestSpec :=
  match spec.expand scope with
  | some (.ok (result, _)) => ExceptT.mk (pure result)
  | some (.error _) | none => ExceptT.mk (.ask .panic nofun)

/-! ## The run -/

/-- What a request that was answered leaves for its report. -/
structure SendOutcome where
  runId : String
  response : HttpResponse
  activeRunner : RunnerStats
  warnings : List String

/-- The error of a run that is cancelled. -/
def runCancelled : WireSurgeError := .new "run_cancelled" "HTTP run was cancelled"

/-- The response, with the record of the run closed when there is none. -/
def awaitResponse (request : RequestSpec) (activeRunner : RunnerStats) : Exec HttpResponse := do
  match ← exchange request with
  | none =>
    writeRunnerSnapshot activeRunner.cancelled
    throw runCancelled
  | some (.error error) =>
    let failed := activeRunner.finalizeFailed (← unixTimestamp)
    -- that this write may fail is ignored
    let _ ← ExceptT.lift (writeRunnerSnapshot failed).run
    throw error
  | some (.ok response) => return response

/-- The warnings of the response, and those of the options. -/
def runWarnings (response : HttpResponse) (options : RunOptions) : List String :=
  response.warnings ++
    (if options.parallel > 1 then ["parallel execution is accepted by the CLI, but the current scaffold executes " ++
      "one HTTP request per run"] else []) ++
    (if options.failFast then ["fail-fast is enabled; multi-step scenarios will stop on first failure once " ++
      "scenario execution is added"] else []) ++
    if options.verbose then ["verbose diagnostics enabled; sensitive values remain redacted"] else []

/-- `send_request_inner`: the runner is shown as active before the exchange. -/
def sendRequestInner (host : Host) (request : RequestSpec) (options : RunOptions) : Exec SendOutcome := do
  let runId ← generateId "run" request.id
  let activeRunner := RunnerStats.localRunner host (← unixTimestamp) (some runId) options.parallel
  writeRunnerSnapshot activeRunner
  let response ← awaitResponse request activeRunner
  return { runId, response, activeRunner, warnings := runWarnings response options }

/-- `--dry-run`: nothing is sent. -/
def dryRun (host : Host) (request : RequestSpec) (expect : Option Expect) (options : RunOptions) :
    Exec RunResult := do
  let runId ← generateId "run" request.id
  let runner := (RunnerStats.localRunner host (← unixTimestamp) (some runId) options.parallel).finishWithLatency
    (← unixTimestamp) 0 true
  writeRunnerSnapshot runner
  let warnings := "dry run only; no network traffic was sent" ::
    if expect.isSome then ["expect declared but not evaluated under --dry-run"] else []
  return {
    id := runId, request, response := none, runner, report := none, warnings, dryRun := true,
    assertion := .notEvaluated, secretValues := options.secretValues }

/-- The response is no error, and the assertion did not fail. -/
def isSuccess (response : HttpResponse) (assertion : AssertionOutcome) : Bool :=
  response.statusCode < 400 && !assertion.isFailed

/-- The report of a run, when there is a directory for it. -/
def reportRun (request : RequestSpec) (outcome : SendOutcome) (runner : RunnerStats) (assertion : AssertionOutcome)
    (options : RunOptions) : Exec (Option ReportSummary) := do
  match options.reportDir with
  | none => return none
  | some dir =>
    let id ← generateId "report" request.id
    let report := ReportSummary.singleRequest id (← unixTimestamp) outcome.response.durationMs
      (isSuccess outcome.response assertion)
    writeReport dir report
      { runId := outcome.runId, request := request.redactedOutput options.secretValues,
        response := outcome.response.redactedOutput options.secretValues, runner, assertion }
    return some report

/-- The run of an expanded request. -/
def liveRun (json : JsonText) (host : Host) (request : RequestSpec) (expect : Option Expect) (options : RunOptions) :
    Exec RunResult := do
  let outcome ← sendRequestInner host request options
  let assertion := evaluateExpect json expect outcome.response options.secretValues
  let runner := outcome.activeRunner.finishWithLatency (← unixTimestamp) outcome.response.durationMs
    (isSuccess outcome.response assertion)
  writeRunnerSnapshot runner
  let report ← reportRun request outcome runner assertion options
  return {
    id := outcome.runId, request, response := some outcome.response, runner, report, warnings := outcome.warnings,
    dryRun := false, assertion, secretValues := options.secretValues }

/-- `run_run_spec_with_cancellation`. -/
def runRunSpec (json : JsonText) (host : Host) (spec : RunSpec) (cliVars cliSecrets : BTreeMap String)
    (options : RunOptions) : Exec RunResult := do
  let vars := cliVars.toList.foldl (fun m (key, value) => m.insert key value) spec.vars
  let options := { options with secretValues := cliSecrets.values.map String.toList }
  let request ← expandSpec spec (.new vars cliSecrets 0 0 (← clock))
  if options.dryRun then dryRun host request spec.expect options
  else liveRun json host request spec.expect options

end WireSurge.Engine
