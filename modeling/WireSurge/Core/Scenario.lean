import WireSurge.Core.Redact
import WireSurge.Core.Template
import WireSurge.Lib.Double

/-!
# Run specifications

A request whose fields are templates (`RunSpec`), its expansion into a
`RequestSpec`, and the assertions on the response (`evaluate`).
-/

namespace WireSurge.Core

open Checked (Checked Panic)
open Str (Text Unmarkable toAsciiLowercase toAsciiUppercase)

/-! ## Selectors and assertions -/

/-- A response as the protocols normalize it. The header keys are in lower case. -/
structure CallResponse where
  status : Option UInt16
  code : Option Int32
  headers : BTreeMap String
  body : String
  durationMs : Double
  warnings : List String

/-- `Selector`: a part of a response. -/
inductive Selector
  | status
  | header (name : String)
  | bodyPointer (pointer : String)
  deriving DecidableEq

/-- The error of a selector, at its own text. -/
def invalidSelector (spec why : String) : WireSurgeError :=
  (WireSurgeError.new "invalid_selector" ("invalid selector '" ++ spec ++ "': " ++ why)).atPath spec

/-- `lower_path`: dotted sugar to a JSON pointer. -/
def lowerPath (path : Text) : Except WireSurgeError Text :=
  if path = [] then .error (invalidSelector "body:" "path is empty")
  else if path.head? = some '/' then .ok path
  else .ok ((Str.split ['.'] path).flatMap fun segment =>
    '/' :: Str.replace ['/'] ['~', '1'] (Str.replace ['~'] ['~', '0'] segment))

/-- `str::strip_prefix`. -/
def stripPrefix? (pre s : Text) : Option Text := if pre <+: s then some (s.drop pre.length) else none

namespace Selector

/-- `Selector::parse`; a header is named in lower case. -/
def parse (spec : String) : Except WireSurgeError Selector :=
  if spec = "status" then .ok .status
  else
    match stripPrefix? "header:".toList spec.toList with
    | some name =>
      if name = [] then .error (invalidSelector spec "header name is empty")
      else .ok (.header (toAsciiLowercase (String.ofList name)))
    | none =>
      match stripPrefix? "body:".toList spec.toList with
      | some path => (lowerPath path).map fun pointer => .bodyPointer (String.ofList pointer)
      | none => .error (invalidSelector spec "must be 'status', 'header:<name>', or 'body:<path>'")

/-- `resolve_value`, with the library's reader of JSON. -/
def resolveValue (fromStr : String → Option Json) (s : Selector) (response : CallResponse) : Option Json :=
  match s with
  | .status => response.status.map fun status => .number (.posInt status.toUInt64)
  | .header name => response.headers[name]?.map .string
  | .bodyPointer pointer => (fromStr response.body).bind fun value => value.pointer pointer.toList

end Selector

/-- `BodyEq`: the value that a selector is to find. -/
structure BodyEq where
  selector : Selector
  value : Json
  /-- The text of the selector. -/
  raw : String

/-- `Expect`. -/
structure Expect where
  status : Option (List UInt16)
  bodyEq : Option BodyEq

/-- The library's reader and writer of JSON. -/
structure JsonText where
  fromStr : String → Option Json
  toString : Json → String

/-- The error of an assertion that does not hold. -/
def assertionFailed (message : String) : WireSurgeError := .new "assertion_failed" message

/-- `{codes:?}`. -/
def showCodes (codes : List UInt16) : String := toString (codes.map UInt16.toNat)

/-- The status is one of the codes. -/
def evaluateStatus (codes : List UInt16) (response : CallResponse) : Except WireSurgeError Unit :=
  match response.status with
  | some status =>
    if status ∈ codes then .ok ()
    else .error (assertionFailed
      ("expected status in " ++ showCodes codes ++ ", got " ++ toString status.toNat))
  | none => .error (assertionFailed
      ("expected status in " ++ showCodes codes ++ ", but the response carries no status code"))

/-- The selector finds the value; the message masks what it found, not what was
expected. -/
def evaluateBodyEq (json : JsonText) (bodyEq : BodyEq) (response : CallResponse) (secretValues : List Text) :
    Except WireSurgeError Unit :=
  match bodyEq.selector.resolveValue json.fromStr response with
  | some actual =>
    if actual.valuesMatch bodyEq.value then .ok ()
    else .error (assertionFailed ("expected " ++ bodyEq.raw ++ " to equal " ++ json.toString bodyEq.value ++
      ", got " ++ String.ofList (redactValue (json.toString actual).toList secretValues)))
  | none => .error (assertionFailed ("expected " ++ bodyEq.raw ++ " to equal " ++ json.toString bodyEq.value ++
      ", but it was absent or the body was not JSON"))

/-- `evaluate`: the first assertion that does not hold. -/
def evaluate (json : JsonText) (expect : Expect) (response : CallResponse) (secretValues : List Text) :
    Except WireSurgeError Unit := do
  match expect.status with
  | some codes => evaluateStatus codes response
  | none => pure ()
  match expect.bodyEq with
  | some bodyEq => evaluateBodyEq json bodyEq response secretValues
  | none => pure ()

/-! ## Run specifications -/

/-- `RunSpec`. -/
structure RunSpec where
  id : String
  name : String
  method : String
  url : String
  headers : BTreeMap String
  body : Option String
  vars : BTreeMap String
  expect : Option Expect

/-- What expands templates: it may fail, counts the scope on, and may panic or
not end. -/
abbrev Expanding := ExceptT WireSurgeError (StateT Scope (ExceptT Panic Option))

namespace RunSpec

/-- `from_request`: without variables and assertions. -/
def fromRequest (r : RequestSpec) : RunSpec :=
  { id := r.id, name := r.name, method := r.method, url := r.url, headers := r.headers, body := r.body, vars := ∅,
    expect := none }

/-- A template, in the order of the others. -/
def expandField (template : String) : Expanding String := fun scope => Core.expand template scope

/-- Headers whose names agree in lower case are one, the last. -/
def expandHeaders (headers : List (String × String)) : Expanding (BTreeMap String) :=
  headers.foldlM (fun m (key, value) => do return m.insert (toAsciiLowercase key) (← expandField value)) ∅

/-- `RunSpec::expand`. -/
def expand (spec : RunSpec) : Expanding RequestSpec := do
  let method ← expandField spec.method
  let url ← expandField spec.url
  let headers ← expandHeaders spec.headers.toList
  let body ← spec.body.mapM expandField
  let request : RequestSpec :=
    { id := spec.id, name := spec.name, method := toAsciiUppercase method, url, headers, body }
  liftExcept request.validate
  return request

end RunSpec

end WireSurge.Core
