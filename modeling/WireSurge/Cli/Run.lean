import WireSurge.Engine.Run

/-!
# The run command

`run_command` races the run against a signal, in one task: the run goes on
until it waits for its exchange, and there the signal may come first. On a
signal the run is cancelled and awaited; when the signals could not be listened
for at all, it is dropped where it is.
-/

namespace WireSurge.Cli

open WireSurge.Core
open Engine (Call Exec HttpResponse RunOptions RunResult maskMessage runCancelled)
open Metrics (Host)
open Str (Text splitOnce toAsciiUppercase)

/-! ## Arguments -/

/-- `RunArgs`. -/
structure RunArgs where
  target : String
  parallel : Nat
  failFast : Bool
  dryRun : Bool
  verbose : Bool
  report : Option String
  vars : List String
  secrets : List String

/-- `invalid_flag_code`. -/
def invalidFlagCode (flag : String) : String :=
  "invalid_" ++ String.ofList (Str.replace ['-'] ['_'] flag.toList)

/-- `split_kv`: at the first separator. -/
def splitKv (spec : String) (sep : Char) (flag : String) : Except WireSurgeError (String × String) :=
  match splitOnce [sep] spec.toList with
  | some (name, value) => .ok (String.ofList name, String.ofList value)
  | none => .error ((WireSurgeError.new (invalidFlagCode flag) ("--" ++ flag ++ " must be " ++
      toAsciiUppercase flag ++ String.singleton sep ++ "VALUE, got " ++ spec)).atPath flag)

/-- One `NAME=VALUE` of the command line. -/
def parseKvPair (flag : String) (m : BTreeMap String) (pair : String) : Except WireSurgeError (BTreeMap String) := do
  let flagError (message : String) := (WireSurgeError.new (invalidFlagCode flag) message).atPath flag
  let (name, value) ← splitKv pair '=' flag
  failWhen (name = "") (flagError ("--" ++ flag ++ " name must not be empty"))
  failWhen (flag = "secret" ∧ value = "")
    (flagError ("--" ++ flag ++ " value must not be empty for '" ++ name ++ "'"))
  failWhen (name ∈ m) (flagError ("duplicate --" ++ flag ++ " '" ++ name ++ "'"))
  return m.insert name value

/-- `parse_kv_pairs`; of two pairs with one name the last counts. -/
def parseKvPairs (pairs : List String) (flag : String) : Except WireSurgeError (BTreeMap String) :=
  pairs.foldlM (parseKvPair flag) ∅

/-- The options of a run, before its secrets are known. -/
def RunArgs.options (args : RunArgs) : RunOptions where
  parallel := args.parallel
  failFast := args.failFast
  dryRun := args.dryRun
  verbose := args.verbose
  reportDir := args.report
  secretValues := []

/-! ## The race -/

/-- What comes first: the exchange, or the signal. -/
inductive Winner
  | response (result : Except WireSurgeError HttpResponse)
  | signal (code : Except WireSurgeError Int)

/-- What the command asks for: what the run does, and what comes first. -/
inductive Wait
  | call (c : Call)
  /-- Before the run has started; no signal when it is polled first. -/
  | first
  /-- While the run waits for its exchange. -/
  | select (request : RequestSpec)

/-- What the command is answered. -/
abbrev Wait.Answer : Wait → Type
  | call c => c.Answer
  | first => Option (Except WireSurgeError Int)
  | select _ => Winner

/-- A command over its waits. -/
abbrev Command := Prog Wait Wait.Answer

/-- The run on its own. -/
def alone {α : Type} : Prog Call Call.Answer α → Command α
  | .done a => .done a
  | .ask op k => .ask (.call op) fun ans => alone (k ans)

/-- The run against a signal, that takes what is left of it. -/
def race {α β : Type} (onDone : α → Command β)
    (onSignal : Prog Call Call.Answer α → Except WireSurgeError Int → Command β) : Prog Call Call.Answer α → Command β
  | .done a => onDone a
  | .ask (.exchange request) k => .ask (.select request) fun
    | .response result => race onDone onSignal (k (some result))
    | .signal code => onSignal (.ask (.exchange request) k) code
  | .ask op k => .ask (.call op) fun ans => race onDone onSignal (k ans)

/-! ## The command -/

/-- What is printed. -/
inductive Output
  | result (result : RunResult)
  | error (error : WireSurgeError)

/-- `redact_error`. -/
def redactError (error : WireSurgeError) (secretValues : List Text) : WireSurgeError :=
  if secretValues ≠ [] then maskMessage error secretValues else error

/-- The target loaded, and run. -/
def execution (json : JsonText) (host : Host) (args : RunArgs) (cliVars cliSecrets : BTreeMap String) :
    Exec RunResult := do
  let spec ← ExceptT.mk (Prog.request (Call.target args.target))
  Engine.runRunSpec json host spec cliVars cliSecrets args.options

/-- The run has ended first. -/
def onResult (secretValues : List Text) (result : Except WireSurgeError RunResult) :
    Except WireSurgeError (Output × Int) :=
  match result with
  | .ok result => .ok (.result result, if result.assertionFailed then 1 else 0)
  | .error error => .error (redactError error secretValues)

/-- The signal has come first. -/
def onSignal (secretValues : List Text) (exec : Prog Call Call.Answer (Except WireSurgeError RunResult))
    (code : Except WireSurgeError Int) : Command (Except WireSurgeError (Output × Int)) := do
  match code with
  | .error error => return .error error
  | .ok code =>
    match ← alone exec with
    | .error error => return .ok (.error (redactError error secretValues), code)
    | .ok _ => return .ok (.error runCancelled, code)

/-- `run_command`: a signal that comes before the end of the run cancels it and awaits it. -/
def runCommand (json : JsonText) (host : Host) (args : RunArgs) : Command (Except WireSurgeError (Output × Int)) := do
  match parseKvPairs args.vars "var", parseKvPairs args.secrets "secret" with
  | .error error, _ => return .error error
  | _, .error error => return .error error
  | .ok cliVars, .ok cliSecrets =>
    let secretValues := cliSecrets.values.map String.toList
    let exec := (execution json host args cliVars cliSecrets).run
    match ← Prog.request Wait.first with
    | some code => onSignal secretValues exec code
    | none => race (fun result => return onResult secretValues result) (onSignal secretValues) exec

/-- `dispatch`: the exit code of what a command returned. -/
def exitCode {α : Type} : Except WireSurgeError (α × Int) → Int
  | .ok (_, code) => code
  | .error error => if error.rejected then 2 else 1

end WireSurge.Cli
