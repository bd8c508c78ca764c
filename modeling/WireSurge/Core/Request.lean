import Std.Data.ExtTreeMap
import Mathlib.Data.String.Basic
import WireSurge.Core.Error
import WireSurge.Lib.Str

/-!
# Requests

`RequestSpec`, its validation, and how one is made from what a JSON or YAML
reader finds (`RequestSpecInput.intoRequest`). The readers themselves are
libraries; a `Parser` is one of them.
-/

namespace WireSurge.Core

open Str (Text trim toAsciiUppercase toAsciiLowercase)

/-- `BTreeMap<String, T>`. -/
abbrev BTreeMap (α : Type) := Std.ExtTreeMap String α

/-- `RequestSpec`. -/
structure RequestSpec where
  id : String
  name : String
  method : String
  url : String
  headers : BTreeMap String
  body : Option String
  deriving DecidableEq

/-- The error of a field of a request. -/
def requestError (message path : String) : WireSurgeError :=
  (WireSurgeError.new "invalid_request" message).atPath path

/-- `ok_or_else`. -/
def okOr {α : Type} (a : Option α) (error : WireSurgeError) : Except WireSurgeError α :=
  match a with
  | some a => .ok a
  | none => .error error

theorem okOr_eq_ok {α : Type} {a : Option α} {b : α} {error : WireSurgeError} (h : okOr a error = .ok b) :
    a = some b := by
  cases a with
  | none => cases h
  | some => cases h; rfl

/-- A character that may stand in an id. -/
def isIdChar (c : Char) : Bool := c.isAlphanum || c = '.' || c = '-' || c = '_'

/-- `validate_id`: an id that passes is a file name. -/
def validateId (id : String) : Except WireSurgeError Unit := do
  failWhen (trim id.toList = []) (requestError "id is required" "id")
  failWhen (['.', '.'] <:+: id.toList)
    ((requestError "id must not contain '..'" "id").withHint
      "ids may contain only letters, digits, '.', '-', and '_'.")
  failWhen (!id.toList.all isIdChar)
    ((requestError "id may contain only letters, digits, '.', '-', and '_'" "id").withHint
      "ids are used as workspace file names, so path separators are rejected.")

namespace RequestSpec

/-- `RequestSpec::validate`: the first check that fails names its field. -/
def validate (r : RequestSpec) : Except WireSurgeError Unit := do
  validateId r.id
  failWhen (trim r.name.toList = []) (requestError "request name is required" "name")
  failWhen (trim r.url.toList = []) (requestError "request url is required" "url")
  failWhen (!("http://".toList.isPrefixOf r.url.toList || "https://".toList.isPrefixOf r.url.toList))
    (requestError "request url must start with http:// or https://" "url")
  failWhen (trim r.method.toList = []) (requestError "request method is required" "method")
  failWhen (!r.method.toList.all Char.isUpper) (requestError "method must be uppercase ASCII" "method")

/-- What a valid request is. -/
theorem validate_eq_ok {r : RequestSpec} :
    r.validate = .ok () ↔ validateId r.id = .ok () ∧ trim r.name.toList ≠ [] ∧ trim r.url.toList ≠ [] ∧
      ("http://".toList <+: r.url.toList ∨ "https://".toList <+: r.url.toList) ∧ trim r.method.toList ≠ [] ∧
      ∀ c ∈ r.method.toList, c.isUpper := by
  simp only [validate, bind_eq_ok, failWhen_eq_ok, decide_eq_false_iff_not, Bool.not_eq_false', Bool.or_eq_true,
    List.isPrefixOf_iff_prefix, List.all_eq_true, ne_eq]

/-- A check fails with an error of a request; none of them is that there is no name. -/
theorem validate_error {r : RequestSpec} {e : WireSurgeError} (h : r.validate = .error e) :
    e.code = "invalid_request" ∧ e.message ≠ "request YAML missing name" := by
  simp only [validate, validateId, bind_eq_error, failWhen_eq_error] at h
  rcases h with hid | ⟨-, hfields⟩
  · rcases hid with ⟨-, rfl⟩ | ⟨-, ⟨-, rfl⟩ | ⟨-, -, rfl⟩⟩ <;> decide
  · rcases hfields with ⟨-, rfl⟩ | ⟨-, ⟨-, rfl⟩ | ⟨-, ⟨-, rfl⟩ | ⟨-, ⟨-, rfl⟩ | ⟨-, -, rfl⟩⟩⟩⟩ <;> decide

end RequestSpec

/-- `slugify`: letters and digits, with one dash for what is between them. -/
def slugify (input : String) : String :=
  let slug := input.toList.foldl (fun output c =>
    if c.isAlphanum then output ++ [c.toLower]
    else if output.getLast? = some '-' then output
    else output ++ ['-']) []
  String.ofList ((slug.dropWhile (· = '-')).rdropWhile (· = '-'))

/-- `generate_id`, at a time in milliseconds. -/
def generateId (millis : Nat) (pre name : String) : String :=
  pre ++ "-" ++ slugify name ++ "-" ++ toString millis

/-! ## Reading -/

/-- A request as it is read. -/
structure RequestSpecInput where
  id : Option String
  name : Option String
  method : Option String
  url : Option String
  headers : BTreeMap String
  body : Option String
  deriving DecidableEq

/-- The keys in lower case; of two keys that become one, the later value stays. -/
def lowerKeys (headers : BTreeMap String) : BTreeMap String :=
  headers.toList.foldl (fun m (key, value) => m.insert (toAsciiLowercase key) value) ∅

/-- A map is what its entries make. -/
theorem foldl_insert_toList {α : Type} (m : BTreeMap α) :
    m.toList.foldl (fun m (key, value) => m.insert key value) ∅ = m := by
  have hmany (l : List (String × α)) (t : BTreeMap α) :
      l.foldl (fun m (key, value) => m.insert key value) t = t.insertMany l := by
    induction l generalizing t with
    | nil => rw [Std.ExtTreeMap.insertMany_nil, List.foldl_nil]
    | cons entry l ih => rw [List.foldl_cons, ih, Std.ExtTreeMap.insertMany_cons]
  rw [hmany]
  refine Std.ExtTreeMap.ext_getElem? fun key => ?_
  cases hk : m[key]? with
  | none =>
    have hout : (m.toList.map Prod.fst).contains key = false := by
      rw [Std.ExtTreeMap.map_fst_toList_eq_keys, Std.ExtTreeMap.contains_keys, ← Bool.not_eq_true,
        Std.ExtTreeMap.contains_iff_mem]
      simpa using hk
    rw [Std.ExtTreeMap.getElem?_insertMany_list_of_contains_eq_false hout, Std.ExtTreeMap.getElem?_empty]
  | some value =>
    exact Std.ExtTreeMap.getElem?_insertMany_list_of_mem Std.ReflCmp.compare_self Std.ExtTreeMap.distinct_keys_toList
      (Std.ExtTreeMap.mem_toList_iff_getElem?_eq_some.mpr hk)

/-- `into_request`; an id that is missing and not required is made of the name. -/
def RequestSpecInput.intoRequest (millis : Nat) (input : RequestSpecInput) (requireId : Bool) :
    Except WireSurgeError RequestSpec := do
  let name ← okOr input.name (requestError
    (if requireId then "request YAML missing name" else "missing required string field 'name'") "name")
  let url ← okOr input.url (requestError
    (if requireId then "request YAML missing url" else "missing required string field 'url'") "url")
  let id ← if requireId then okOr input.id (requestError "request YAML missing id" "id")
    else .ok (input.id.getD (generateId millis "req" name))
  let request : RequestSpec :=
    { id, name, url, method := toAsciiUppercase (input.method.getD "GET"), headers := lowerKeys input.headers,
      body := input.body }
  request.validate
  return request

/-- The error of a reader: its message, and the path of the field, empty at the top. -/
structure ParseError where
  message : String
  path : String

/-- The error of a text that cannot be read, at the path of the parser. -/
def deserializationError (code : String) (error : ParseError) : WireSurgeError :=
  let e := WireSurgeError.new code error.message
  if error.path = "" then e else e.atPath error.path

/-- A reader of one format: the data of a text that is well-formed, and the error of one that is not. -/
abbrev Parser (α : Type) := String → Except ParseError α

namespace RequestSpec

/-- `RequestSpec::from_json`. -/
def fromJson (parse : Parser RequestSpecInput) (millis : Nat) (input : String) : Except WireSurgeError RequestSpec :=
  match parse input with
  | .ok parsed => parsed.intoRequest millis false
  | .error error => .error (deserializationError "invalid_json" error)

/-- `RequestSpec::from_yaml`. -/
def fromYaml (parse : Parser RequestSpecInput) (millis : Nat) (input : String) : Except WireSurgeError RequestSpec :=
  match parse input with
  | .ok parsed => parsed.intoRequest millis true
  | .error error => .error (deserializationError "invalid_yaml" error)

end RequestSpec

end WireSurge.Core
