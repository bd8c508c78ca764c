import WireSurge.Cli.Verdict
import WireSurge.Core.RunFile
import WireSurge.Storage.Refine

/-!
# What is run

The target of the run command is the path of a run file, or else the id of a stored
request (`loadTarget`). After any calls on a fresh workspace a stored request runs the
same by its id and by the path of its file, as the request that the map of the store
has (`target_refines`).

The exit code of a live run of a file says whether the response is as the file has it
(`exit_as_written`).
-/

namespace WireSurge.Cli

open WireSurge.Core
open Engine (AssertionOutcome evaluateExpect)
open Metrics (Host)
open Prog (Runs Safe)
open Storage
open Str (Text)
open UnixPath (IsText ofText)

/-! ## The target -/

/-- The target of `run_command`. -/
def loadTarget (store : WorkspaceStore) (yaml : Yaml) (parse : Parser RunSpecInput) (target : String) :
    FsM RunSpec := do
  if ← ask (.exists_ (ofText target)) then
    let input ← mapErr ofIo (← readToString (ofText target))
    liftExcept (RunSpec.fromYaml parse input)
  else return RunSpec.fromRequest (← store.loadRequest yaml target)

/-- The YAML library finds in the text of a request its fields, and no others. -/
def ReadsRequests (yaml : Yaml) (parse : Parser RunSpecInput) : Prop :=
  ∀ request text, yaml.toYaml request = .ok text →
    parse text = .ok { request := inputOf request, vars := ∅, expect := none, unknown := ∅ }

/-- The map after some calls. -/
def mapAfter (calls : List StoreCall) (m : BTreeMap RequestSpec) : BTreeMap RequestSpec :=
  calls.foldl (fun m call => (call.onMap m).2) m

section

variable {store : WorkspaceStore} {yaml : Yaml} {parse : Parser RunSpecInput} {m : BTreeMap RequestSpec} {s s' : Fs}
variable {request : RequestSpec} {id text target : String}

/-- A session leaves the map that its calls make. -/
theorem session_represents (hback : yaml.ReadsBack) {calls : List StoreCall} (hcalls : ∀ call ∈ calls, call.Obtained)
    (h : Represents store yaml m s) (hplace : IsText store.root ∨ anyReplaces calls m = false) :
    Safe (Fs.world false) (fun _ _ => True) (fun _ s' => Represents store yaml (mapAfter calls m) s')
      (session store yaml calls) s := by
  induction calls generalizing m s with
  | nil => exact h
  | cons call calls ih =>
    rw [anyReplaces, Bool.or_eq_false_iff] at hplace
    rw [session, Prog.safe_bind]
    refine (safe_call hback h (hcalls call List.mem_cons_self) (hplace.imp_right And.left)).imp (fun _ _ _ => trivial)
      fun answer s₁ hshows => ?_
    rw [Prog.safe_bind]
    exact (ih (fun c hc => hcalls c (List.mem_cons_of_mem _ hc)) hshows.2 (hplace.imp_right And.right)).mono
      fun answers s' h' => h'

/-- A request as it is written is a run file. -/
theorem fromYaml_of_request (hparse : ReadsRequests yaml parse) (ht : yaml.toYaml request = .ok text)
    (hr : request.Normal) : RunSpec.fromYaml parse text = .ok (.fromRequest request) := by
  rw [RunSpec.fromYaml, hparse request text ht]
  exact intoRunSpec_eq_ok.mpr
    { known := rfl, id := rfl, valid := hr.validId, name := rfl, url := rfl, method := rfl, headers := rfl, body := rfl,
      vars := rfl, expect := .none }

/-- What the target gives. -/
def targetResult (store : WorkspaceStore) (yaml : Yaml) (parse : Parser RunSpecInput) (s : Fs) (target : String) :
    Except WireSurgeError RunSpec :=
  if (s.look (ofText target)).isSome then do
    let input ← (textAt s (ofText target)).mapError ofIo
    RunSpec.fromYaml parse input
  else do return RunSpec.fromRequest (← loadResult store yaml s target)

theorem reads_loadTarget (store : WorkspaceStore) (yaml : Yaml) (parse : Parser RunSpecInput) (s : Fs)
    (target : String) : Reads s (loadTarget store yaml parse target) (targetResult store yaml parse s target) := by
  refine (Reads.exists_ (ofText target)).bind fun there => Reads.ite ?_ ?_
  · exact (reads_readToString s _).bind fun _ => (Reads.mapped _ _).bind fun _ => Reads.lift _
  · exact (reads_loadRequest store yaml s target).bind fun _ => Reads.value _

/-- A target that is no file is the id of a stored request. -/
theorem targetResult_of_id (hback : yaml.ReadsBack) (h : Represents store yaml m s)
    (hnone : s.look (ofText target) = none) : targetResult store yaml parse s target =
      (do validateId target; return RunSpec.fromRequest (← okOr m[target]? (requestNotFound target))) := by
  rw [targetResult, hnone, Option.isSome_none, if_neg Bool.false_ne_true, h.loadResult_eq hback]
  cases validateId target <;> rfl

/-- So is the path of its file. -/
theorem targetResult_of_path (hparse : ReadsRequests yaml parse) (h : Represents store yaml m s)
    (hid : m[id]? = some request) (hpath : ofText target = store.requestPath id) :
    targetResult store yaml parse s target = .ok (.fromRequest request) := by
  obtain ⟨text, ht, hfile⟩ := h.file hid
  rw [targetResult, hpath, hfile, Option.isSome_some, if_pos rfl, textAt_of_file hfile, String.ofList_toList]
  exact fromYaml_of_request hparse ht (h.normal hid).1

end

/-- After any calls on a fresh workspace, without faults, and with places for their
temporary files: a stored request is run, by its id where no file has that name, and by
the path of its file, as the request that the map has under the id; an id that the map
has not is an error that says so; and what is found is read only. -/
theorem target_refines (store : WorkspaceStore) (yaml : Yaml) (parse : Parser RunSpecInput) (hback : yaml.ReadsBack)
    (hparse : ReadsRequests yaml parse) {s s' s'' : Fs} (hfresh : Fresh store s) {calls : List StoreCall}
    (hcalls : ∀ call ∈ calls, call.Obtained) (hplace : IsText store.root ∨ anyReplaces calls ∅ = false)
    {answers : List Answer} (hr : Runs (Fs.world false) (session store yaml calls, s) (.done answers, s'))
    {target : String} {r : Except WireSurgeError RunSpec}
    (hr' : Runs (Fs.world false) ((loadTarget store yaml parse target).run, s') (.done r, s'')) :
    s'' = s' ∧
    (s'.look (ofText target) = none → r = do
      validateId target
      return RunSpec.fromRequest (← okOr (mapAfter calls ∅)[target]? (requestNotFound target))) ∧
    ∀ id request, (mapAfter calls ∅)[id]? = some request → ofText target = store.requestPath id →
      r = .ok (.fromRequest request) := by
  have hrep := (session_represents hback hcalls hfresh.represents hplace).done hr
  have hresult : s'' = s' ∧ r = targetResult store yaml parse s' target := by
    have hsafe := (reads_loadTarget store yaml parse s' target (fun _ _ => True)
      (fun r s'' => s'' = s' ∧ r = targetResult store yaml parse s' target) fun _ _ => trivial).mpr ⟨rfl, rfl⟩
    exact hsafe.done hr'
  obtain ⟨rfl, rfl⟩ := hresult
  exact ⟨rfl, targetResult_of_id hback hrep, fun id request hid => targetResult_of_path hparse hrep hid⟩

/-- A reader of run files for the library of the samples. -/
def sampleParse : Parser RunSpecInput := fun text =>
  (sampleYaml.read text).map fun input => { request := input, vars := ∅, expect := none, unknown := ∅ }

theorem readsRequests_sample : ReadsRequests sampleYaml sampleParse := fun request text ht => by
  rw [sampleParse, sampleYaml_readsBack.read ht]
  rfl

/-- The two names of a request that has been created. -/
theorem target_refines_created : ∃ answers s', Runs (Fs.world false)
    (session sampleStore sampleYaml [.create Storage.sampleRequest], sampleStore.fresh) (.done answers, s') ∧
    ∀ target ∈ ["req-a", "/w/.wiresurge/requests/req-a.yaml"], ∃ r s'',
      Runs (Fs.world false) ((loadTarget sampleStore sampleYaml sampleParse target).run, s') (.done r, s'') ∧
      r = .ok (.fromRequest Storage.sampleRequest) := by
  obtain ⟨⟨answers, s'⟩, hplay, hnone⟩ : ∃ x ∈ Prog.play (fun s op => some (s.apply op))
      (session sampleStore sampleYaml [.create Storage.sampleRequest]) sampleStore.fresh,
      x.2.look (ofText "req-a") = none := by
    decide +kernel
  have hr : Runs (Fs.world false) (session sampleStore sampleYaml [.create Storage.sampleRequest], sampleStore.fresh)
      (.done answers, s') := by
    refine .of_play (fun s op ans s' h => ?_) hplay
    obtain rfl := congrArg Prod.fst (Option.some.inj h)
    obtain rfl := congrArg Prod.snd (Option.some.inj h)
    exact Fs.world_apply s op false
  have hcalls : ∀ call ∈ [StoreCall.create Storage.sampleRequest], call.Obtained :=
    fun call hcall => List.mem_singleton.mp hcall ▸ obtained_sampleRequest
  have hmap : (mapAfter [.create Storage.sampleRequest] ∅)["req-a"]? = some Storage.sampleRequest := by decide +kernel
  refine ⟨answers, s', hr, fun target htarget => ?_⟩
  obtain ⟨r, s'', hr'⟩ := Prog.exists_done (fun s op => ⟨_, _, Fs.world_apply s op false⟩)
    (loadTarget sampleStore sampleYaml sampleParse target).run s'
  refine ⟨r, s'', hr', ?_⟩
  obtain ⟨-, hid, hpath⟩ := target_refines sampleStore sampleYaml sampleParse sampleYaml_readsBack readsRequests_sample
    (fresh_fresh sampleStore) hcalls (.inr rfl) hr hr'
  rcases List.mem_pair.mp htarget with rfl | rfl
  · have hv : validateId "req-a" = .ok () := by decide +kernel
    rw [hid hnone, hmap, hv]
    rfl
  · exact hpath "req-a" Storage.sampleRequest hmap (by decide +kernel)

/-! ## The exit code -/

/-- An assertion fails just when the response is not as it is written. -/
theorem evaluateExpect_isFailed {json : JsonText} {written : Option ExpectInput} {expect : Option Expect}
    {response : Engine.HttpResponse} {secretValues : List Text} (h : Option.Rel ExpectInput.Means written expect) :
    (evaluateExpect json expect response secretValues).isFailed = false ↔
      ∀ asked ∈ written, asked.Holds json.fromStr response.toCallResponse := by
  cases h with
  | none => exact iff_of_true rfl nofun
  | some hmeans =>
    rename_i asked expect
    have hiff : evaluate json expect response.toCallResponse secretValues = .ok () ↔ _ := evaluate_iff_holds hmeans
    simp only [Option.mem_def, Option.some.injEq, forall_eq']
    rw [← hiff, evaluateExpect]
    cases evaluate json expect response.toCallResponse secretValues with
    | ok => exact iff_of_true rfl rfl
    | error error => exact iff_of_false Bool.false_ne_true.symm nofun

/-- The run of a file that has come to a result, and is no dry run, exits with 0 just when
the response is as the file has it, with nothing that the file has left out; and what
it has to expect, a response that carries nothing is not. -/
theorem exit_as_written {json : JsonText} {host : Host} {args : RunArgs} {w : Watched} {result : Engine.RunResult}
    {code : Int} {parse : Parser RunSpecInput} {text : String} {spec : RunSpec}
    (h : Runs watched (runCommand json host args, .start) (.done (.ok (.result result, code)), w))
    (hlive : args.dryRun = false) (hspec : w.seen.spec = some spec) (hread : RunSpec.fromYaml parse text = .ok spec)
    (hempty : json.fromStr "" = none) :
    ∃ written response, parse text = .ok written ∧ w.seen.response = some response ∧
      (exitCode (.ok (Output.result result, code)) = 0 ↔
        ∀ asked ∈ written.expect, asked.Holds json.fromStr response.toCallResponse) ∧
      written.unknown = ∅ ∧
      ∀ asked ∈ written.expect, asked.unknown = ∅ ∧ ¬asked.Holds json.fromStr bareResponse := by
  obtain ⟨secrets, -, hr⟩ := ((runCommand_leaves json host args).done h).2 result code rfl
  obtain ⟨hcode, spec', hspec', response, -, -, hresponse, hassert, -, -, -⟩ := hr result code rfl hlive
  cases hspec.symm.trans hspec'
  rw [RunSpec.fromYaml] at hread
  cases hparse : parse text with
  | error error => rw [hparse] at hread; cases hread
  | ok written =>
    rw [hparse] at hread
    have hmeans := intoRunSpec_eq_ok.mp hread
    have hcode' : exitCode (.ok (Output.result result, code)) = 0 ↔ result.assertion.isFailed = false := by
      rw [exitCode, hcode, Engine.RunResult.assertionFailed]
      cases result.assertion.isFailed <;> simp
    refine ⟨written, response, rfl, hresponse, ?_, hmeans.known, fun asked hasked => ?_⟩
    · rw [hcode', hassert]
      exact evaluateExpect_isFailed hmeans.expect
    · have hrel := hmeans.expect
      rw [hasked] at hrel
      generalize hexpect : spec.expect = expect at hrel
      cases hrel with
      | some hasked' => exact ⟨hasked'.known, not_holds_bare hasked' hempty⟩

/-- A file that accepts two codes. -/
def sampleFile : RunSpecInput where
  request :=
    { id := some "r", name := some "r", method := none, url := some "http://h/", headers := ∅, body := none }
  vars := ∅
  expect := some { status := some (.many [200, 204]), bodyEq := none, unknown := ∅ }
  unknown := ∅

/-- All goes well with it, but for the code of the response. -/
def fileAnswer (spec : RunSpec) : (op : Wait) → Option op.Answer
  | .call (.target _) => some (.ok spec)
  | op => sampleAnswer (.response (.ok (sampleResponse 500))) op

def fileRun (spec : RunSpec) : Option (Except WireSurgeError (Output × Int) × Watched) :=
  Prog.play (fun w op => (fileAnswer spec op).map fun ans => (ans, w.observe op ans))
    (runCommand sampleJson sampleHost sampleArgs) .start

theorem runs_file {spec : RunSpec} {r : Except WireSurgeError (Output × Int)} {w : Watched}
    (h : fileRun spec = some (r, w)) :
    Runs watched (runCommand sampleJson sampleHost sampleArgs, .start) (.done r, w) := by
  refine .of_play (fun s op ans s' ho => ?_) h
  obtain ⟨a, ha, heq⟩ := Option.map_eq_some_iff.mp ho
  obtain rfl := congrArg Prod.fst heq
  obtain rfl := congrArg Prod.snd heq
  refine ⟨?_, rfl⟩
  cases op with
  | call c =>
    cases c with
    | snapshot => exact (Option.some.inj ha).symm
    | clock | target | report | exchange | panic => trivial
  | first | select => trivial

/-- `exit_as_written` on a run that gets another code. -/
theorem exit_as_written_other : ∃ spec result code w,
    RunSpec.fromYaml (fun _ => .ok sampleFile) "" = .ok spec ∧ w.seen.spec = some spec ∧
    Runs watched (runCommand sampleJson sampleHost sampleArgs, .start) (.done (.ok (.result result, code)), w) ∧
    exitCode (.ok (Output.result result, code)) ≠ 0 := by
  obtain ⟨⟨r, w⟩, hplay, ⟨⟨result, code⟩, hr⟩, ⟨response', hresponse', hstatus⟩, spec, hspec, hid, hname, hurl, hmethod,
      hheaders, hbody, hvars, expect, hexpect, hcodes, hnone⟩ :
      ∃ x ∈ fileRun { sampleSpec with expect := some { status := some [200, 204], bodyEq := none } },
        (∃ y, returned x.1 = some y) ∧ (∃ response ∈ x.2.seen.response, response.statusCode = 500) ∧
        ∃ spec ∈ x.2.seen.spec, spec.id = "r" ∧ spec.name = "r" ∧ spec.url = "http://h/" ∧ spec.method = "GET" ∧
          spec.headers = ∅ ∧ spec.body = none ∧ spec.vars = ∅ ∧
          ∃ expect ∈ spec.expect, expect.status = some [200, 204] ∧ expect.bodyEq.isNone := by
    simp only [← Option.isSome_iff_exists]
    decide +kernel
  have hread : RunSpec.fromYaml (fun _ => .ok sampleFile) "" = .ok spec := by
    refine intoRunSpec_eq_ok.mpr ⟨rfl, congrArg some hid.symm, by rw [hid]; decide +kernel, congrArg some hname.symm,
      congrArg some hurl.symm, hmethod, hheaders, hbody, hvars, ?_⟩
    rw [hexpect]
    refine .some ⟨rfl, hcodes, by decide, ?_, .inl rfl⟩
    rw [Option.isNone_iff_eq_none.mp hnone]
    exact .none
  obtain rfl := returned_eq_some hr
  refine ⟨spec, result, code, w, hread, hspec, runs_file hplay, fun hcode => ?_⟩
  obtain ⟨written, response, hwritten, hresponse, hiff, -⟩ := exit_as_written (runs_file hplay) rfl hspec hread rfl
  cases hwritten
  cases hresponse.symm.trans hresponse'
  obtain ⟨accepted, haccepted, hgot⟩ := (hiff.mp hcode _ rfl).status _ rfl
  have hnot : (500 : UInt16) ∉ (StatusInput.many [200, 204]).codes := by decide
  exact hnot (hstatus ▸ Option.some.inj hgot ▸ haccepted)

end WireSurge.Cli
