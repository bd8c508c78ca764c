import WireSurge.Core.Scenario

/-!
# Run files

How a run file is made a run specification (`RunSpecInput.intoRunSpec`), from what
a YAML reader finds in it. Keys that no field has are kept by the reader and refused
here, at the top and in the expectation.

`intoRunSpec_eq_ok` says which files are read and what they give; the error of any other
is at something that is wrong with it (`intoRunSpec_error`). An expectation that is read
is judged as it is written (`evaluate_iff_holds`), and there is something in it to judge:
a response that carries nothing fails it (`not_holds_bare`).
-/

namespace WireSurge.Core

/-! ## What is read -/

/-- `BodyEqInput`: a selector by its text. -/
structure BodyEqInput where
  path : String
  value : Json

/-- One code, or a list of those accepted. -/
inductive StatusInput
  | one (code : UInt16)
  | many (codes : List UInt16)

/-- `ExpectInput`, with the keys that it does not know. -/
structure ExpectInput where
  status : Option StatusInput
  bodyEq : Option BodyEqInput
  unknown : BTreeMap Json

/-- `RunSpecInput`, with the keys that it does not know. -/
structure RunSpecInput where
  request : RequestSpecInput
  vars : BTreeMap String
  expect : Option ExpectInput
  unknown : BTreeMap Json

/-- `missing_field`. -/
def missingField (field : String) : WireSurgeError := requestError ("request is missing '" ++ field ++ "'") field

/-- The first of the keys that no field has is the error. -/
def refuseUnknown (unknown : BTreeMap Json) : Except WireSurgeError Unit :=
  match unknown.minKey? with
  | some field => .error (requestError ("unknown field '" ++ field ++ "'") field)
  | none => .ok ()

/-- The error of an expectation. -/
def expectError (message path : String) : WireSurgeError := (WireSurgeError.new "invalid_expect" message).atPath path

namespace ExpectInput

/-- The codes that a file accepts: an empty list accepts none, and is refused. -/
def readStatus : Option StatusInput → Except WireSurgeError (Option (List UInt16))
  | some (.one code) => .ok (some [code])
  | some (.many codes) =>
    if codes = [] then .error (expectError "expect 'status' must list at least one accepted code" "expect.status")
    else .ok (some codes)
  | none => .ok none

/-- The selector is parsed, and its text kept. -/
def readBodyEq : Option BodyEqInput → Except WireSurgeError (Option BodyEq)
  | some input =>
    (Selector.parse input.path).map fun selector => some { selector, value := input.value, raw := input.path }
  | none => .ok none

/-- `into_expect`: an expectation asks for something. -/
def intoExpect (input : ExpectInput) : Except WireSurgeError Expect := do
  refuseUnknown input.unknown
  let status ← readStatus input.status
  let bodyEq ← readBodyEq input.bodyEq
  failWhen (status.isNone && bodyEq.isNone)
    (expectError "expect must set at least one of 'status' or 'body_eq'" "expect")
  return { status, bodyEq }

end ExpectInput

/-- `transpose`. -/
def readExpect : Option ExpectInput → Except WireSurgeError (Option Expect)
  | some input => input.intoExpect.map some
  | none => .ok none

/-- `into_run_spec`. -/
def RunSpecInput.intoRunSpec (input : RunSpecInput) : Except WireSurgeError RunSpec := do
  refuseUnknown input.unknown
  let id ← okOr input.request.id (missingField "id")
  validateId id
  let name ← okOr input.request.name (missingField "name")
  let url ← okOr input.request.url (missingField "url")
  let expect ← readExpect input.expect
  return {
    id, name, url, method := input.request.method.getD "GET", headers := input.request.headers,
    body := input.request.body, vars := input.vars, expect }

/-- `RunSpec::from_yaml`. -/
def RunSpec.fromYaml (parse : Parser RunSpecInput) (input : String) : Except WireSurgeError RunSpec :=
  match parse input with
  | .ok parsed => parsed.intoRunSpec
  | .error error => .error (deserializationError "invalid_yaml" error)

/-! ## What a file says -/

/-- The codes that are written. -/
def StatusInput.codes : StatusInput → List UInt16
  | one code => [code]
  | many codes => codes

/-- What is written of the body, and what is compared. -/
structure BodyEqInput.Means (written : BodyEqInput) (bodyEq : BodyEq) : Prop where
  selector : Selector.parse written.path = .ok bodyEq.selector
  value : bodyEq.value = written.value
  raw : bodyEq.raw = written.path

/-- What is written of a response, and the expectation: nothing is dropped, and
something is expected. -/
structure ExpectInput.Means (written : ExpectInput) (expect : Expect) : Prop where
  known : written.unknown = ∅
  status : expect.status = written.status.map StatusInput.codes
  accepts : ∀ accepted ∈ written.status, accepted.codes ≠ []
  bodyEq : Option.Rel BodyEqInput.Means written.bodyEq expect.bodyEq
  something : written.status.isSome ∨ written.bodyEq.isSome

structure RunSpecInput.Means (written : RunSpecInput) (spec : RunSpec) : Prop where
  known : written.unknown = ∅
  id : written.request.id = some spec.id
  valid : validateId spec.id = .ok ()
  name : written.request.name = some spec.name
  url : written.request.url = some spec.url
  method : spec.method = written.request.method.getD "GET"
  headers : spec.headers = written.request.headers
  body : spec.body = written.request.body
  vars : spec.vars = written.vars
  expect : Option.Rel ExpectInput.Means written.expect spec.expect

/-- The response is as it is written. -/
structure ExpectInput.Holds (written : ExpectInput) (fromStr : String → Option Json) (response : CallResponse) :
    Prop where
  status : ∀ accepted ∈ written.status, ∃ code ∈ accepted.codes, response.status = some code
  body : ∀ asked ∈ written.bodyEq, ∃ selector actual, Selector.parse asked.path = .ok selector ∧
    selector.resolveValue fromStr response = some actual ∧ actual.valuesMatch asked.value

theorem refuseUnknown_eq_ok {unknown : BTreeMap Json} : refuseUnknown unknown = .ok () ↔ unknown = ∅ := by
  rw [refuseUnknown]
  cases hkey : unknown.minKey? with
  | none => simpa [Std.ExtTreeMap.minKey?_eq_none_iff] using hkey
  | some key =>
    refine iff_of_false nofun ?_
    rintro rfl
    simp at hkey

section

variable {status : Option StatusInput} {codes : Option (List UInt16)} {written : Option BodyEqInput}
variable {bodyEq : Option BodyEq} {expect : Expect} {spec : RunSpec}

theorem readStatus_eq_ok : ExpectInput.readStatus status = .ok codes ↔
    codes = status.map StatusInput.codes ∧ ∀ accepted ∈ status, accepted.codes ≠ [] := by
  have hcodes (accepted : StatusInput) (hne : accepted.codes ≠ []) :
      Except.ok (ε := WireSurgeError) (some accepted.codes) = .ok codes ↔
        codes = some accepted.codes ∧ ∀ a ∈ some accepted, a.codes ≠ [] := by
    rw [Except.ok.injEq, eq_comm]
    exact (and_iff_left fun a ha => Option.some.inj ha ▸ hne).symm
  cases status with
  | none => rw [ExpectInput.readStatus, Except.ok.injEq, eq_comm]; exact (and_iff_left nofun).symm
  | some accepted =>
    cases accepted with
    | one code => exact hcodes (.one code) (List.cons_ne_nil _ _)
    | many list =>
      rw [ExpectInput.readStatus]
      split
      · rename_i hnil
        exact iff_of_false nofun fun h => h.2 _ rfl hnil
      · rename_i hne
        exact hcodes (.many list) hne

theorem readBodyEq_eq_ok :
    ExpectInput.readBodyEq written = .ok bodyEq ↔ Option.Rel BodyEqInput.Means written bodyEq := by
  cases written with
  | none =>
    rw [ExpectInput.readBodyEq]
    cases bodyEq with
    | none => exact iff_of_true rfl .none
    | some bodyEq => exact iff_of_false nofun nofun
  | some asked =>
    rw [ExpectInput.readBodyEq]
    cases bodyEq with
    | none =>
      refine iff_of_false ?_ nofun
      cases Selector.parse asked.path <;> exact nofun
    | some bodyEq =>
      obtain ⟨selector, value, raw⟩ := bodyEq
      constructor
      · intro h
        cases hparse : Selector.parse asked.path with
        | error error => rw [hparse] at h; cases h
        | ok selector =>
          rw [hparse] at h
          cases h
          exact .some ⟨hparse, rfl, rfl⟩
      · rintro (⟨hparse, hvalue, hraw⟩ | _)
        rw [hparse, Except.map, ← hvalue, ← hraw]

theorem isNone_of_rel {α β : Type} {r : α → β → Prop} {a : Option α} {b : Option β} (h : Option.Rel r a b) :
    b.isNone = a.isNone := by
  cases h <;> rfl

/-- What is read of an expectation. -/
theorem intoExpect_eq_ok {written : ExpectInput} : written.intoExpect = .ok expect ↔ written.Means expect := by
  constructor
  · intro h
    obtain ⟨_, hknown, h⟩ := bind_inv h
    obtain ⟨status, hstatus, h⟩ := bind_inv h
    obtain ⟨bodyEq, hbody, h⟩ := bind_inv h
    obtain ⟨_, hsome, h⟩ := bind_inv h
    cases h
    rw [readStatus_eq_ok] at hstatus
    have hbody := readBodyEq_eq_ok.mp hbody
    refine ⟨refuseUnknown_eq_ok.mp hknown, hstatus.1, hstatus.2, hbody, ?_⟩
    rw [failWhen_eq_ok, hstatus.1, Option.isNone_map, isNone_of_rel hbody] at hsome
    simpa only [← Option.not_isNone, Bool.not_eq_true', Bool.and_eq_false_iff] using hsome
  · intro h
    have hsome : (expect.status.isNone && expect.bodyEq.isNone) = false := by
      rw [h.status, Option.isNone_map, isNone_of_rel h.bodyEq]
      simpa only [← Option.not_isNone, Bool.not_eq_true', Bool.and_eq_false_iff] using h.something
    rw [ExpectInput.intoExpect, refuseUnknown_eq_ok.mpr h.known, readStatus_eq_ok.mpr ⟨h.status, h.accepts⟩,
      readBodyEq_eq_ok.mpr h.bodyEq]
    simp only [bind, Except.bind, failWhen_eq_ok.mpr hsome]
    rfl

theorem readExpect_eq_ok {written : Option ExpectInput} {expect : Option Expect} :
    readExpect written = .ok expect ↔ Option.Rel ExpectInput.Means written expect := by
  cases written with
  | none =>
    rw [readExpect]
    cases expect with
    | none => exact iff_of_true rfl .none
    | some expect => exact iff_of_false nofun nofun
  | some input =>
    rw [readExpect]
    constructor
    · intro h
      cases hinto : input.intoExpect with
      | error error => rw [hinto] at h; cases h
      | ok expect =>
        rw [hinto] at h
        cases h
        exact .some (intoExpect_eq_ok.mp hinto)
    · rintro (h | _)
      rw [intoExpect_eq_ok.mpr h]
      rfl

/-- What is read of a file. -/
theorem intoRunSpec_eq_ok {written : RunSpecInput} : written.intoRunSpec = .ok spec ↔ written.Means spec := by
  constructor
  · intro h
    obtain ⟨_, hknown, h⟩ := bind_inv h
    obtain ⟨id, hid, h⟩ := bind_inv h
    obtain ⟨_, hvalid, h⟩ := bind_inv h
    obtain ⟨name, hname, h⟩ := bind_inv h
    obtain ⟨url, hurl, h⟩ := bind_inv h
    obtain ⟨expect, hexpect, h⟩ := bind_inv h
    cases h
    exact ⟨refuseUnknown_eq_ok.mp hknown, okOr_eq_ok hid, hvalid, okOr_eq_ok hname, okOr_eq_ok hurl, rfl, rfl, rfl,
      rfl, readExpect_eq_ok.mp hexpect⟩
  · intro h
    rw [RunSpecInput.intoRunSpec, refuseUnknown_eq_ok.mpr h.known, h.id, h.name, h.url,
      readExpect_eq_ok.mpr h.expect, ← h.method, ← h.headers, ← h.body, ← h.vars]
    simp only [okOr, bind, Except.bind, h.valid]
    rfl

end

/-! ## What is refused -/

/-- What is wrong with an expectation, by the path that the error has. -/
inductive ExpectInput.Fault (written : ExpectInput) : String → Prop
  | unknown {field : String} : field ∈ written.unknown → Fault written field
  | noCode : written.status = some (.many []) → Fault written "expect.status"
  | selector {asked : BodyEqInput} : asked ∈ written.bodyEq → (Selector.parse asked.path).isOk = false →
      Fault written asked.path
  | nothing : written.status = none → written.bodyEq = none → Fault written "expect"

/-- What is wrong with a file. -/
inductive RunSpecInput.Fault (written : RunSpecInput) : String → Prop
  | unknown {field : String} : field ∈ written.unknown → Fault written field
  | noId : written.request.id = none → Fault written "id"
  | badId {id : String} : written.request.id = some id → (validateId id).isOk = false → Fault written "id"
  | noName : written.request.name = none → Fault written "name"
  | noUrl : written.request.url = none → Fault written "url"
  | expect {asked : ExpectInput} {path : String} : asked ∈ written.expect → asked.Fault path → Fault written path

section

variable {error : WireSurgeError}

/-- What goes wrong in a step, or behind it. -/
theorem bind_inv_error {α β : Type} {x : Except WireSurgeError α} {f : α → Except WireSurgeError β}
    (h : x >>= f = .error error) : x = .error error ∨ ∃ a, x = .ok a ∧ f a = .error error := by
  cases x with
  | error e => cases h; exact .inl rfl
  | ok a => exact .inr ⟨a, rfl, h⟩

theorem refuseUnknown_error {unknown : BTreeMap Json} (h : refuseUnknown unknown = .error error) :
    ∃ field ∈ unknown, error.path = some field := by
  rw [refuseUnknown] at h
  cases hkey : unknown.minKey? with
  | none => rw [hkey] at h; cases h
  | some field =>
    rw [hkey] at h
    cases h
    exact ⟨field, Std.ExtTreeMap.minKey?_mem hkey, rfl⟩

theorem okOr_error {α : Type} {a : Option α} {e : WireSurgeError} (h : okOr a e = .error error) :
    a = none ∧ error = e := by
  cases a with
  | none => cases h; exact ⟨rfl, rfl⟩
  | some => cases h

/-- The error of a selector has its text for a path. -/
theorem parse_error {spec : String} (h : Selector.parse spec = .error error) : error.path = some spec := by
  rw [Selector.parse] at h
  split at h
  · cases h
  split at h
  · split at h
    · cases h
      rfl
    · cases h
  split at h
  · rename_i path hbody
    cases hlower : lowerPath path with
    | ok pointer => rw [hlower] at h; cases h
    | error e =>
      rw [hlower] at h
      cases h
      -- only the empty path is refused, and then the text is no longer than its prefix
      rw [lowerPath] at hlower
      split at hlower
      · rename_i hnil
        cases hlower
        have hspec : spec = "body:" := by
          rw [stripPrefix?] at hbody
          split at hbody
          · rename_i hprefix
            have hdrop := (List.prefix_iff_eq_append.mp hprefix).symm
            rw [Option.some.inj hbody, hnil, List.append_nil] at hdrop
            exact String.toList_inj.mp hdrop
          · cases hbody
        rw [hspec]
        rfl
      · split at hlower <;> cases hlower
  · cases h
    rfl

theorem validateId_error {id : String} (h : validateId id = .error error) : error.path = some "id" := by
  simp only [validateId, bind_eq_error, failWhen_eq_error] at h
  rcases h with ⟨-, rfl⟩ | ⟨-, ⟨-, rfl⟩ | ⟨-, -, rfl⟩⟩ <;> rfl

theorem intoExpect_error {written : ExpectInput} (h : written.intoExpect = .error error) :
    ∃ path, error.path = some path ∧ written.Fault path := by
  rcases bind_inv_error h with h | ⟨_, -, h⟩
  · obtain ⟨field, hfield, hpath⟩ := refuseUnknown_error h
    exact ⟨field, hpath, .unknown hfield⟩
  rcases bind_inv_error h with h | ⟨status, hstatus, h⟩
  · unfold ExpectInput.readStatus at h
    split at h
    · cases h
    · rename_i codes hcodes
      split at h
      · rename_i hnil
        cases h
        exact ⟨_, rfl, .noCode (hnil ▸ hcodes)⟩
      · cases h
    · cases h
  rcases bind_inv_error h with h | ⟨bodyEq, hbody, h⟩
  · unfold ExpectInput.readBodyEq at h
    split at h
    · rename_i asked hasked
      cases hparse : Selector.parse asked.path with
      | ok selector => rw [hparse] at h; cases h
      | error e =>
        rw [hparse] at h
        cases h
        exact ⟨_, parse_error hparse, .selector hasked (by rw [hparse]; rfl)⟩
    · cases h
  rcases bind_inv_error h with h | ⟨_, -, h⟩
  · rw [failWhen_eq_error, Bool.and_eq_true, Option.isNone_iff_eq_none, Option.isNone_iff_eq_none] at h
    obtain ⟨⟨rfl, rfl⟩, rfl⟩ := h
    refine ⟨_, rfl, .nothing ?_ ?_⟩
    · exact Option.map_eq_none_iff.mp (readStatus_eq_ok.mp hstatus).1.symm
    · exact Option.isNone_iff_eq_none.mp (isNone_of_rel (readBodyEq_eq_ok.mp hbody)).symm
  · cases h

/-- The error of a file is at what is wrong with it. -/
theorem intoRunSpec_error {written : RunSpecInput} (h : written.intoRunSpec = .error error) :
    ∃ path, error.path = some path ∧ written.Fault path := by
  rcases bind_inv_error h with h | ⟨_, -, h⟩
  · obtain ⟨field, hfield, hpath⟩ := refuseUnknown_error h
    exact ⟨field, hpath, .unknown hfield⟩
  rcases bind_inv_error h with h | ⟨id, hid, h⟩
  · obtain ⟨hnone, rfl⟩ := okOr_error h
    exact ⟨_, rfl, .noId hnone⟩
  rcases bind_inv_error h with h | ⟨_, -, h⟩
  · exact ⟨_, validateId_error h, .badId (okOr_eq_ok hid) (by rw [h]; rfl)⟩
  rcases bind_inv_error h with h | ⟨name, -, h⟩
  · obtain ⟨hnone, rfl⟩ := okOr_error h
    exact ⟨_, rfl, .noName hnone⟩
  rcases bind_inv_error h with h | ⟨url, -, h⟩
  · obtain ⟨hnone, rfl⟩ := okOr_error h
    exact ⟨_, rfl, .noUrl hnone⟩
  rcases bind_inv_error h with h | ⟨expect, -, h⟩
  · unfold readExpect at h
    split at h
    · rename_i asked hasked
      cases hinto : asked.intoExpect with
      | ok expect => rw [hinto] at h; cases h
      | error e =>
        rw [hinto] at h
        cases h
        obtain ⟨path, hpath, hfault⟩ := intoExpect_error hinto
        exact ⟨path, hpath, .expect hasked hfault⟩
    · cases h
  · cases h

end

/-! ## How it is judged -/

section

variable {json : JsonText} {response : CallResponse} {secretValues : List Str.Text} {expect : Expect}

theorem evaluateStatus_eq_ok {codes : List UInt16} :
    evaluateStatus codes response = .ok () ↔ ∃ code ∈ codes, response.status = some code := by
  rw [evaluateStatus]
  cases response.status with
  | none => exact iff_of_false nofun fun ⟨_, _, h⟩ => by cases h
  | some status =>
    simp only [Option.some.injEq, exists_eq_right']
    split <;> simp [*]

theorem evaluateBodyEq_eq_ok {bodyEq : BodyEq} : evaluateBodyEq json bodyEq response secretValues = .ok () ↔
    ∃ actual, bodyEq.selector.resolveValue json.fromStr response = some actual ∧ actual.valuesMatch bodyEq.value := by
  rw [evaluateBodyEq]
  cases bodyEq.selector.resolveValue json.fromStr response with
  | none => exact iff_of_false nofun fun ⟨_, h, _⟩ => by cases h
  | some actual =>
    simp only [Option.some.injEq, exists_eq_left']
    split <;> simp [*]

theorem evaluate_eq_ok : evaluate json expect response secretValues = .ok () ↔
    (∀ codes ∈ expect.status, evaluateStatus codes response = .ok ()) ∧
    ∀ bodyEq ∈ expect.bodyEq, evaluateBodyEq json bodyEq response secretValues = .ok () := by
  rw [evaluate]
  cases expect.status <;> cases expect.bodyEq <;> simp [bind_eq_ok, pure, Except.pure]

/-- An expectation that was read is judged as it is written. -/
theorem evaluate_iff_holds {written : ExpectInput} (h : written.Means expect) :
    evaluate json expect response secretValues = .ok () ↔ written.Holds json.fromStr response := by
  rw [evaluate_eq_ok]
  constructor
  · rintro ⟨hstatus, hbody⟩
    refine ⟨fun accepted haccepted => ?_, fun asked hasked => ?_⟩
    · refine evaluateStatus_eq_ok.mp (hstatus _ ?_)
      rw [h.status, haccepted]
      rfl
    · have hrel := h.bodyEq
      rw [hasked] at hrel
      generalize hb : expect.bodyEq = b at hrel
      cases hrel with
      | some hmeans =>
        obtain ⟨actual, hactual, hmatch⟩ := evaluateBodyEq_eq_ok.mp (hbody _ hb)
        exact ⟨_, actual, hmeans.selector, hactual, hmeans.value ▸ hmatch⟩
  · intro hholds
    refine ⟨fun codes hcodes => ?_, fun bodyEq hbody => ?_⟩
    · rw [h.status] at hcodes
      obtain ⟨accepted, haccepted, rfl⟩ := Option.map_eq_some_iff.mp hcodes
      exact evaluateStatus_eq_ok.mpr (hholds.status accepted haccepted)
    · have hrel := h.bodyEq
      rw [hbody] at hrel
      generalize hw : written.bodyEq = w at hrel
      cases hrel with
      | some hmeans =>
        obtain ⟨selector, actual, hparse, hactual, hmatch⟩ := hholds.body _ hw
        cases hparse.symm.trans hmeans.selector
        exact evaluateBodyEq_eq_ok.mpr ⟨actual, hactual, hmeans.value ▸ hmatch⟩

/-- A response that carries nothing. -/
def bareResponse : CallResponse where
  status := none
  code := none
  headers := ∅
  body := ""
  durationMs := 0
  warnings := []

/-- It is not what is expected: no expectation that is read is empty. -/
theorem not_holds_bare {written : ExpectInput} {fromStr : String → Option Json} (h : written.Means expect)
    (hempty : fromStr "" = none) : ¬written.Holds fromStr bareResponse := by
  intro hholds
  rcases h.something with hstatus | hbody
  · obtain ⟨accepted, haccepted⟩ := Option.isSome_iff_exists.mp hstatus
    obtain ⟨code, -, hcode⟩ := hholds.status accepted haccepted
    cases hcode
  · obtain ⟨asked, hasked⟩ := Option.isSome_iff_exists.mp hbody
    obtain ⟨selector, actual, -, hactual, -⟩ := hholds.body asked hasked
    cases selector with
    | status => cases hactual
    | header name => simp [Selector.resolveValue, bareResponse] at hactual
    | bodyPointer pointer => simp [Selector.resolveValue, bareResponse, hempty] at hactual

end

end WireSurge.Core
