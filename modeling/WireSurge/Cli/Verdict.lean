import Mathlib.Data.List.TFAE
import WireSurge.Cli.Run
import WireSurge.Engine.Records

/-!
# The outcome of the run command

What the command leaves when it has returned. `runCommand_closed_iff` says when
the record of the runner is closed, `runCommand_agree_iff` when the exit code,
the report and the record have one verdict.
-/

namespace WireSurge.Cli

open WireSurge.Core
open Engine (Call Seen SnapshotsWritten OpenInExchange seen Judged evaluateExpect HttpResponse isSuccess)
open Metrics (Host RunnerStats)
open Str (Text)
open Prog (World Safe Runs safe_bind onOk)

/-! ## What is seen of the command -/

/-- What can be seen of the command: its run, and whether it dropped it. -/
structure Watched where
  seen : Seen
  dropped : Bool

namespace Watched

/-- Nothing is seen yet. -/
def start : Watched := ⟨.start, false⟩

/-- What is seen of a wait and its answer. -/
@[simp] def observe (w : Watched) : (op : Wait) → op.Answer → Watched
  | .call c, ans => { w with seen := w.seen.observe c ans }
  | .select request, .response result => { w with seen := w.seen.observe (.exchange request) (some result) }
  | .select _, .signal (.error _) => { w with dropped := true }
  | _, _ => w

end Watched

/-- Every write of the runner's record succeeds. -/
@[simp] def Allowed : (op : Wait) → op.Answer → Prop
  | .call c, ans => SnapshotsWritten c ans
  | _, _ => True

/-- The surroundings of the command, with what is seen of it. -/
def watched : World Wait Wait.Answer Watched := fun w op ans w' => Allowed op ans ∧ w' = w.observe op ans

/-- No condition on where the command asks. -/
abbrev anywhere : Watched → Wait → Prop := fun _ _ => True

section

variable {α β : Type} {p : Prog Call Call.Answer α} {Q : α → Seen → Prop} {s : Seen}

theorem safe_alone {I : Seen → Call → Prop} (h : Safe seen I Q p s) (dropped : Bool) :
    Safe watched anywhere (fun a w => Q a w.seen ∧ w.dropped = dropped) (alone p) ⟨s, dropped⟩ := by
  induction p generalizing s with
  | done a => exact ⟨h, rfl⟩
  | ask op k ih =>
    refine ⟨trivial, ?_⟩
    rintro ans w ⟨hans, rfl⟩
    exact ih ans (h.2 ans _ ⟨hans, rfl⟩)

/-- The race ends with the run, or a signal comes while its record is open. -/
theorem safe_race {onDone : α → Command β}
    {onSignal : Prog Call Call.Answer α → Except WireSurgeError Int → Command β} {R : β → Watched → Prop}
    (h : Safe seen OpenInExchange Q p s)
    (hdone : ∀ a s, Q a s → Safe watched anywhere R (onDone a) ⟨s, false⟩)
    (hsignal : ∀ p s code, Safe seen OpenInExchange Q p s → ¬ s.Closed →
      Safe watched anywhere R (onSignal p code) ⟨s, !code.isOk⟩) :
    Safe watched anywhere R (race onDone onSignal p) ⟨s, false⟩ := by
  induction p generalizing s with
  | done a => exact hdone a s h
  | ask op k ih =>
    cases op with
    | exchange request =>
      rw [race]
      refine ⟨trivial, ?_⟩
      rintro (result | code) w ⟨-, rfl⟩
      · exact ih _ (h.2 (some result) _ ⟨trivial, rfl⟩)
      · have := hsignal _ s code h h.1
        cases code <;> exact this
    | clock | target | snapshot | report | panic =>
      refine ⟨trivial, ?_⟩
      rintro ans w ⟨hans, rfl⟩
      exact ih ans (h.2 ans _ ⟨hans, rfl⟩)

end

/-! ## What the command leaves -/

/-- The result of a live run is judged, and the exit code says whether its assertion failed. -/
def Reported (json : JsonText) (args : RunArgs) (secrets : BTreeMap String) (r : Except WireSurgeError (Output × Int))
    (s : Seen) : Prop :=
  ∀ result code, r = .ok (.result result, code) → args.dryRun = false →
    code = (if result.assertionFailed then 1 else 0) ∧ ∃ spec, s.spec = some spec ∧
      Judged json spec.expect { args.options with secretValues := secrets.values.map String.toList } result s

theorem execution_leaves (json : JsonText) (host : Host) (args : RunArgs) (cliVars cliSecrets : BTreeMap String) :
    Safe seen OpenInExchange
      (fun r s => s.Closed ∧ Reported json args cliSecrets (onResult (cliSecrets.values.map String.toList) r) s)
      (execution json host args cliVars cliSecrets).run .start := by
  rw [execution, Prog.safe_run_bind]
  refine ⟨trivial, ?_⟩
  rintro (error | spec) s ⟨-, rfl⟩
  · refine ⟨by rintro record ⟨⟩, fun result code h => ?_⟩
    cases h
  · have hstart : (Seen.observe .start (.target args.target) (.ok spec)).Closed := by rintro record ⟨⟩
    refine (Engine.runRunSpec_leaves json host spec cliVars cliSecrets args.options hstart).mono fun r s hr => ?_
    refine ⟨hr.1, fun result code h hlive => ?_⟩
    rcases r with error | result'
    · cases h
    · cases h
      obtain ⟨hspec, hj⟩ := hr.2 hlive result rfl
      exact ⟨rfl, spec, hspec, hj⟩

/-- On a signal the run is awaited, and closes its record; without signals it is
dropped, and the record stays as it is. -/
theorem onSignal_leaves {Q : Except WireSurgeError Engine.RunResult → Seen → Prop}
    {p : Prog Call Call.Answer (Except WireSurgeError Engine.RunResult)} {s : Seen} (secretValues : List Text)
    (h : Safe seen OpenInExchange Q p s) (hQ : ∀ r s, Q r s → s.Closed) (code : Except WireSurgeError Int)
    (dropped : Bool) (hok : code.isOk → dropped = false) (herror : ¬ code.isOk → (s.Closed ↔ dropped = false)) :
    Safe watched anywhere
      (fun r w => (w.seen.Closed ↔ w.dropped = false) ∧ ∀ result code, r ≠ .ok (.result result, code))
      (onSignal secretValues p code) ⟨s, dropped⟩ := by
  cases code with
  | error e => exact ⟨herror Bool.false_ne_true, fun _ _ h => by cases h⟩
  | ok code =>
    rw [onSignal, safe_bind]
    refine (safe_alone h dropped).mono fun r w ⟨hr, hw⟩ => ?_
    have hclosed : w.seen.Closed ↔ w.dropped = false := iff_of_true (hQ _ _ hr) (hw.trans (hok rfl))
    cases r <;> exact ⟨hclosed, fun _ _ h => by cases h⟩

theorem runCommand_leaves (json : JsonText) (host : Host) (args : RunArgs) :
    Safe watched anywhere
      (fun r w => (w.seen.Closed ↔ w.dropped = false) ∧ ∀ result code, r = .ok (.result result, code) →
        ∃ secrets, parseKvPairs args.secrets "secret" = .ok secrets ∧ Reported json args secrets r w.seen)
      (runCommand json host args) .start := by
  have hstart : Watched.start.seen.Closed := by rintro record ⟨⟩
  unfold runCommand
  split
  · exact ⟨iff_of_true hstart rfl, fun _ _ h => by cases h⟩
  · exact ⟨iff_of_true hstart rfl, fun _ _ h => by cases h⟩
  · rename_i cliVars cliSecrets _ hsecrets
    have hexec := execution_leaves json host args cliVars cliSecrets
    rw [safe_bind]
    refine ⟨trivial, ?_⟩
    rintro (_ | code) w ⟨-, rfl⟩
    · refine safe_race hexec (fun r s hr => ⟨iff_of_true hr.1 rfl, fun _ _ _ => ⟨cliSecrets, hsecrets, hr.2⟩⟩) ?_
      intro p s code hp hs
      exact (onSignal_leaves _ hp (fun _ _ => And.left) code _ (fun h => by rw [h]; rfl)
        fun h => iff_of_false hs (by simp [h])).mono fun r w hr => ⟨hr.1, fun _ _ h => absurd h (hr.2 _ _)⟩
    · exact (onSignal_leaves _ hexec (fun _ _ => And.left) code _ (fun _ => rfl)
        fun _ => iff_of_true hstart rfl).mono fun r w hr => ⟨hr.1, fun _ _ h => absurd h (hr.2 _ _)⟩

/-! ## Sample runs -/

/-- A run that writes a report. -/
def sampleArgs : RunArgs where
  target := "r"
  parallel := 1
  failFast := false
  dryRun := false
  verbose := false
  report := some "out"
  vars := []
  secrets := []

/-- A run of a request without an assertion. -/
def sampleSpec : RunSpec where
  id := "r"
  name := "r"
  method := "GET"
  url := "http://h/"
  headers := ∅
  body := none
  vars := ∅
  expect := none

/-- A response without a body. -/
def sampleResponse (statusCode : UInt16) : HttpResponse where
  statusCode := statusCode
  reason := ""
  headers := ∅
  body := ""
  durationMs := .finite 12 (by decide +kernel)
  warnings := []

/-- All goes well, until one thing comes first. -/
def sampleAnswer (winner : Winner) : (op : Wait) → Option op.Answer
  | .call .clock => some 0
  | .call (.target _) => some (.ok sampleSpec)
  | .call (.snapshot _) => some (.ok ())
  | .call (.report ..) => some (.ok ())
  | .call (.exchange _) => some none
  | .call .panic => none
  | .first => some none
  | .select _ => some winner

/-- The surroundings in which `winner` ends the wait. -/
def sampleOracle (winner : Winner) (w : Watched) (op : Wait) : Option (op.Answer × Watched) :=
  (sampleAnswer winner op).map fun ans => (ans, w.observe op ans)

/-- A JSON library that reads nothing. -/
def sampleJson : JsonText := ⟨fun _ => none, fun _ => ""⟩

/-- The process 1. -/
def sampleHost : Host := ⟨1, "0"⟩

/-- The run that ends the wait with `winner`. -/
def sampleRun (winner : Winner) : Option (Except WireSurgeError (Output × Int) × Watched) :=
  Prog.play (sampleOracle winner) (runCommand sampleJson sampleHost sampleArgs) .start

theorem runs_sample {winner : Winner} {r : Except WireSurgeError (Output × Int)} {w : Watched}
    (h : sampleRun winner = some (r, w)) :
    Runs watched (runCommand sampleJson sampleHost sampleArgs, .start) (.done r, w) := by
  refine Prog.Runs.of_play (fun s op ans s' ho => ?_) h
  obtain ⟨a, ha, heq⟩ := Option.map_eq_some_iff.mp ho
  cases heq
  refine ⟨?_, rfl⟩
  cases op with
  | call c =>
    cases c with
    | snapshot => exact (Option.some.inj ha).symm
    | clock | target | report | exchange | panic => trivial
  | first | select => trivial

/-! ## Records and verdicts -/

/-- When the command has returned, the record of its runner is closed, unless
the run was dropped while it waited for its exchange. -/
theorem runCommand_closed_iff {json : JsonText} {host : Host} {args : RunArgs} {w : Watched}
    {r : Except WireSurgeError (Output × Int)} (h : Runs watched (runCommand json host args, .start) (.done r, w)) :
    w.seen.Closed ↔ w.dropped = false :=
  ((runCommand_leaves json host args).done h).1

/-- `runCommand_closed_iff` on a run that is interrupted. -/
theorem runCommand_closed_interrupted : ∃ r w,
    Runs watched (runCommand sampleJson sampleHost sampleArgs, .start) (.done r, w) ∧
    exitCode r = 130 ∧ w.seen.record.isSome ∧ w.seen.Closed := by
  obtain ⟨⟨r, w⟩, hrun, hcode, hsome, hdropped⟩ : ∃ x ∈ sampleRun (.signal (.ok 130)),
      exitCode x.1 = 130 ∧ x.2.seen.record.isSome ∧ x.2.dropped = false := by decide +kernel
  exact ⟨r, w, runs_sample hrun, hcode, hsome, (runCommand_closed_iff (runs_sample hrun)).mpr hdropped⟩

/-- A run whose wait is raced by signals that cannot be listened for leaves its
record open. -/
theorem runCommand_open_dropped : ∃ json host args r w,
    Runs watched (runCommand json host args, .start) (.done r, w) ∧
    ¬ w.seen.Closed := by
  obtain ⟨⟨r, w⟩, hrun, record, hrecord, hactive⟩ :
      ∃ x ∈ sampleRun (.signal (.error (.new "signal_handler_install_failed" "EINVAL"))),
        ∃ record ∈ x.2.seen.record, record.status = "active" := by decide +kernel
  exact ⟨sampleJson, sampleHost, sampleArgs, r, w, runs_sample hrun, fun h => (h record hrecord).1 hactive⟩

/-- The exit code, the report and the runner's record say the same of a run. -/
def Agree (code : Int) (s : Seen) : Prop :=
  ∃ record report, s.record = some record ∧ s.report = some report ∧
    [code = 0, report.status = "passed", record.errorRate = 0,
      ∃ worker, record.workers.head? = some worker ∧ worker.errorRate = 0].TFAE

/-- What each of the verdicts comes from. -/
theorem agree_iff {active : RunnerStats} (hworkers : active.workers ≠ []) {s : Seen} {response : HttpResponse}
    {assertion : Engine.AssertionOutcome} {code : Int} {id : String} {now now' : Nat}
    (hcode : code = if assertion.isFailed then 1 else 0)
    (hrecord : s.record = some (active.finishWithLatency now response.durationMs (isSuccess response assertion)))
    (hreport : s.report = some (.singleRequest id now' response.durationMs (isSuccess response assertion))) :
    Agree code s ↔ response.statusCode < 400 ∧ ¬ assertion.isFailed ∨
      assertion.isFailed ∧ RunnerStats.HasRate response.durationMs := by
  obtain ⟨worker, hworker, herror⟩ := RunnerStats.finishWithLatency_workers hworkers now response.durationMs
    (isSuccess response assertion)
  have hcode' : code = 0 ↔ ¬ assertion.isFailed := by
    rw [hcode]
    cases assertion.isFailed <;> simp
  have hsuccess : isSuccess response assertion ↔ response.statusCode < 400 ∧ ¬ assertion.isFailed := by
    simp [isSuccess]
  simp only [Agree, hrecord, hreport, Option.some.injEq, exists_and_left, exists_eq_left', hworker, herror,
    List.tfae_cons_cons,
    List.tfae_singleton, and_true, hcode', Metrics.ReportSummary.singleRequest_passed,
    RunnerStats.finishWithLatency_errorRate, hsuccess]
  by_cases hf : assertion.isFailed <;> by_cases hs : response.statusCode < 400 <;> simp [hf, hs]

/-- The verdicts on a live run agree when there is nothing wrong with it, or when
its assertion failed, after a time that gives a rate. -/
theorem runCommand_agree_iff {json : JsonText} {host : Host} {args : RunArgs} {w : Watched}
    {result : Engine.RunResult} {code : Int} {dir : String}
    (h : Runs watched (runCommand json host args, .start) (.done (.ok (.result result, code)), w))
    (hlive : args.dryRun = false) (hdir : args.report = some dir) :
    ∃ secrets spec response, parseKvPairs args.secrets "secret" = .ok secrets ∧ w.seen.spec = some spec ∧
      w.seen.response = some response ∧
      let failed := (evaluateExpect json spec.expect response (secrets.values.map String.toList)).isFailed
      (Agree (exitCode (.ok (Output.result result, code))) w.seen ↔
        response.statusCode < 400 ∧ ¬ failed ∨ failed ∧ RunnerStats.HasRate response.durationMs) := by
  obtain ⟨secrets, hsecrets, hr⟩ := ((runCommand_leaves json host args).done h).2 result code rfl
  obtain ⟨hcode, spec, hspec, response, active, now, hresponse, hassert, hworkers, hrecord, hreport⟩ :=
    hr result code rfl hlive
  obtain ⟨id, now', hreport⟩ := hreport dir hdir
  refine ⟨secrets, spec, response, hsecrets, hspec, hresponse, ?_⟩
  exact hassert ▸ agree_iff hworkers hcode hrecord hreport

/-- The result that the command returned, with the exit code. -/
def returned : Except WireSurgeError (Output × Int) → Option (Engine.RunResult × Int)
  | .ok (.result result, code) => some (result, code)
  | _ => none

theorem returned_eq_some {r : Except WireSurgeError (Output × Int)} {result : Engine.RunResult} {code : Int}
    (h : returned r = some (result, code)) : r = .ok (.result result, code) := by
  unfold returned at h
  split at h <;> cases h
  rfl

/-- `runCommand_agree_iff` on a run that succeeds. -/
theorem runCommand_agree_ok : ∃ result code w,
    Runs watched (runCommand sampleJson sampleHost sampleArgs, .start) (.done (.ok (.result result, code)), w) ∧
      Agree (exitCode (.ok (Output.result result, code))) w.seen := by
  obtain ⟨⟨r, w⟩, hrun, ⟨⟨result, code⟩, hr⟩, ⟨response', hresponse', hstatus⟩, spec', hspec', hexpect⟩ :
      ∃ x ∈ sampleRun (.response (.ok (sampleResponse 200))), (∃ y, returned x.1 = some y) ∧
        (∃ response ∈ x.2.seen.response, response.statusCode < 400) ∧ ∃ spec ∈ x.2.seen.spec, spec.expect.isNone := by
    simp only [← Option.isSome_iff_exists]
    decide +kernel
  obtain rfl := returned_eq_some hr
  obtain ⟨secrets, spec, response, -, hspec, hresponse, h⟩ := runCommand_agree_iff (runs_sample hrun) rfl rfl
  obtain rfl := Option.some.inj (hspec.symm.trans hspec')
  obtain rfl := Option.some.inj (hresponse.symm.trans hresponse')
  refine ⟨result, code, w, runs_sample hrun, h.mpr (.inl ⟨hstatus, ?_⟩)⟩
  rw [Option.isNone_iff_eq_none.mp hexpect]
  exact Bool.false_ne_true

/-- An error response without an assertion: the exit code is that of a success, and the report says
that the run failed. -/
theorem runCommand_disagree : ∃ json host args result code dir w,
    Runs watched (runCommand json host args, .start) (.done (.ok (.result result, code)), w) ∧
      args.dryRun = false ∧ args.report = some dir ∧
      ¬ Agree (exitCode (.ok (Output.result result, code))) w.seen := by
  obtain ⟨⟨r, w⟩, hrun, ⟨⟨result, code⟩, hr, hcode⟩, report, hreport, hfailed⟩ :
      ∃ x ∈ sampleRun (.response (.ok (sampleResponse 500))), (∃ y ∈ returned x.1, y.2 = 0) ∧
        ∃ report ∈ x.2.seen.report, report.status = "failed" := by
    decide +kernel
  obtain rfl := returned_eq_some hr
  refine ⟨sampleJson, sampleHost, sampleArgs, result, code, "out", w, runs_sample hrun, rfl, rfl, ?_⟩
  rintro ⟨record, report', -, hreport', h⟩
  obtain rfl := Option.some.inj (hreport.symm.trans hreport')
  have hpassed := (h.out 0 1).mp hcode
  rw [hfailed] at hpassed
  exact absurd hpassed (by decide)

end WireSurge.Cli
