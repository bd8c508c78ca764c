import WireSurge.Engine.Run

/-!
# Headers of a request and of a response

What `to_json_value_with` shows of the headers. A request hides a header whose
name is on a list or bears a marker word, a response one whose name is on the
list; `headers_agree_iff` says for which headers that is the same.
-/

namespace WireSurge.Engine

open WireSurge.Core
open Str (Text)

/-! ## The JSON of a response -/

/-- `Number::from_f64`; what is not finite has no number. -/
def jsonOfDouble : Double → Json
  | .finite value _ => .number (.float value)
  | .infinite _ | .nan => .null

/-- `serde_json::to_value`: the fields by their names, sorted. -/
def HttpResponse.toValue (r : HttpResponse) : Json :=
  .object [("body", .string r.body), ("duration_ms", jsonOfDouble r.durationMs),
    ("headers", .object (r.headers.toList.map fun entry => (entry.1, .string entry.2))), ("reason", .string r.reason),
    ("status_code", .number (.posInt r.statusCode.toUInt64)), ("warnings", .array (r.warnings.map .string))]

/-- `to_json_value_with` of a response. -/
def HttpResponse.toJsonValueWith (r : HttpResponse) (secretValues : List Text) : Json :=
  (r.redactedOutput secretValues).toValue

/-! ## Headers -/

variable {request : RequestSpec} {response : HttpResponse} {key value : String} {secretValues : List Text}

/-- The entries of a map, as a JSON object. -/
theorem get?_headers (headers : BTreeMap String) (key : String) :
    (Json.object (headers.toList.map fun entry => (entry.1, .string entry.2))).get? key =
      headers[key]?.map Json.string := by
  have hpred : (fun entry : String × String => decide (entry.1 = key)) =
      fun entry => compare entry.1 key == .eq := by
    funext entry
    rw [Bool.eq_iff_iff, decide_eq_true_iff, beq_iff_eq, Std.LawfulEqOrd.compare_eq_iff_eq]
  have hcomp : (fun field : String × Json => decide (field.1 = key)) ∘
      (fun entry : String × String => (entry.1, Json.string entry.2)) =
      fun entry => compare entry.1 key == .eq := hpred
  rw [Json.get?, List.find?_map, hcomp, Option.map_map]
  cases hvalue : headers[key]? with
  | none =>
    have hnot : key ∉ headers := by
      rw [Std.ExtTreeMap.mem_iff_isSome_getElem?, hvalue]
      exact Bool.false_ne_true
    rw [Std.ExtTreeMap.find?_toList_eq_none_iff_not_mem.mpr hnot]
    rfl
  | some value =>
    have hmem : key ∈ headers := by
      rw [Std.ExtTreeMap.mem_iff_isSome_getElem?, hvalue]
      rfl
    have hkey : headers.getKey? key = some key := Std.ExtTreeMap.getKey?_eq_some hmem
    rw [Std.ExtTreeMap.find?_toList_eq_some_iff_getKey?_eq_some_and_getElem?_eq_some.mpr ⟨hkey, hvalue⟩]
    rfl

theorem request_header (h : request.headers[key]? = some value) :
    (request.toJsonValueWith secretValues).at? ["headers", key] =
      some (.string (RequestSpec.redactHeader secretValues key value)) := by
  show (Json.get? key (.object _)).bind (fun v => v.at? []) = _
  rw [get?_headers, RequestSpec.redactedOutput, Std.ExtTreeMap.getElem?_map, h]
  rfl

theorem response_header (h : response.headers[key]? = some value) :
    (response.toJsonValueWith secretValues).at? ["headers", key] =
      some (.string (if isSensitiveHeaderName key then String.ofList redacted
        else RequestSpec.redactString value secretValues)) := by
  show (Json.get? key (.object _)).bind (fun v => v.at? []) = _
  rw [get?_headers, HttpResponse.redactedOutput, Std.ExtTreeMap.getElem?_map, h]
  rfl

/-- The value of a header that a request and a response share is shown alike when
its name is on the list or bears no marker word, or the value is hidden anyway. -/
theorem headers_agree_iff (hrequest : request.headers[key]? = some value)
    (hresponse : response.headers[key]? = some value) (secretValues : List Text) :
    (request.toJsonValueWith secretValues).at? ["headers", key] =
      (response.toJsonValueWith secretValues).at? ["headers", key] ↔
    isSensitiveHeaderName key = true ∨ containsSensitiveMarker key.toList = false ∨
      containsSensitiveMarker value.toList = true ∨ maskSecretValues value.toList secretValues = redacted := by
  rw [request_header hrequest, response_header hresponse, Option.some.injEq, Json.string.injEq]
  have hvalue : RequestSpec.redactString value secretValues = String.ofList redacted ↔
      containsSensitiveMarker value.toList = true ∨ maskSecretValues value.toList secretValues = redacted := by
    rw [RequestSpec.redactString, String.ofList_inj, redactValue]
    split
    · rename_i hmarker
      simp [hmarker]
    · rename_i hmarker
      simp [hmarker]
  rw [← hvalue, RequestSpec.redactHeader]
  cases hname : isSensitiveHeaderName key with
  | true => simp
  | false =>
    cases hmarker : containsSensitiveMarker key.toList with
    | true => simp [eq_comm]
    | false => simp

/-! ### One header -/

/-- A header by itself. -/
def oneHeader (key value : String) : BTreeMap String := (∅ : BTreeMap String).insert key value

/-- A request with headers. -/
def requestWith (headers : BTreeMap String) : RequestSpec :=
  { id := "r", name := "r", method := "GET", url := "http://h/", headers, body := none }

/-- A response with headers. -/
def responseWith (headers : BTreeMap String) : HttpResponse :=
  { statusCode := 200, reason := "OK", headers, body := "", durationMs := 0, warnings := [] }

/-- `headers_agree_iff` on a header without a marker word. -/
theorem headers_agree_trace :
    ((requestWith (oneHeader "x-trace" "abc")).toJsonValueWith []).at? ["headers", "x-trace"] =
      ((responseWith (oneHeader "x-trace" "abc")).toJsonValueWith []).at? ["headers", "x-trace"] := by
  have hget : (oneHeader "x-trace" "abc")["x-trace"]? = some "abc" := Std.ExtTreeMap.getElem?_insert_self
  exact (headers_agree_iff (by exact hget) (by exact hget) []).mpr (.inr (.inl (by decide)))

/-- A response shows the token that a request hides. -/
theorem response_shows_token : ¬ ∀ (request : RequestSpec) (response : HttpResponse) (key value : String)
    (secretValues : List Text), request.headers[key]? = some value → response.headers[key]? = some value →
    (request.toJsonValueWith secretValues).at? ["headers", key] =
      (response.toJsonValueWith secretValues).at? ["headers", key] := by
  intro h
  have hget : (oneHeader "x-auth-token" "abc")["x-auth-token"]? = some "abc" := Std.ExtTreeMap.getElem?_insert_self
  have heq := h (requestWith _) (responseWith _) _ _ [] hget hget
  have hhidden : RequestSpec.redactHeader [] "x-auth-token" "abc" = "[redacted]" := by decide +kernel
  have hlisted : isSensitiveHeaderName "x-auth-token" = false := by decide +kernel
  have hplain : containsSensitiveMarker "abc".toList = false := by decide
  rw [request_header hget, response_header hget, hhidden, hlisted, RequestSpec.redactString, redactValue, hplain] at heq
  simp [maskSecretValues] at heq

end WireSurge.Engine
