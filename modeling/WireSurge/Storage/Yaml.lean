import WireSurge.Core.Normal

/-!
# The YAML library

How a request is written and how one is read are those of a library, `Yaml`.
What the store relies on: what was written is read back (`Yaml.ReadsBack`), and
no text without anything in it is a request (`Yaml.EmptyUnnamed`).

`Yaml.sampled` is a library that has both: it writes one request in the text
that is given for it, and any other one string by string.
-/

namespace WireSurge.Storage

open WireSurge.Core (BTreeMap ParseError Parser RequestSpec RequestSpecInput WireSurgeError)
open Str (Text)

/-- The YAML library: how a request is written, and how the data of one is read. -/
structure Yaml where
  write : RequestSpec → Except String String
  read : Parser RequestSpecInput

/-- The data of a request, as they are read. -/
def inputOf (request : RequestSpec) : RequestSpecInput where
  id := some request.id
  name := some request.name
  method := some request.method
  url := some request.url
  headers := request.headers
  body := request.body

namespace Yaml

variable (yaml : Yaml)

/-- `to_yaml`. -/
def toYaml (request : RequestSpec) : Except WireSurgeError String :=
  (yaml.write request).mapError (WireSurgeError.new "yaml_encode_failed")

/-- `RequestSpec::from_yaml`; the id is in the text, so none is made at a time. -/
def fromYaml (input : String) : Except WireSurgeError RequestSpec :=
  RequestSpec.fromYaml yaml.read 0 input

/-- A request can be written, and is read back. -/
def ReadsBack : Prop := ∀ request, ∃ text, yaml.write request = .ok text ∧ yaml.read text = .ok (inputOf request)

/-- The empty text has no name in it. -/
def EmptyUnnamed : Prop := ∀ input, yaml.read "" = .ok input → input.name = none

end Yaml

section

variable {yaml : Yaml} {request : RequestSpec} {text : String}

theorem Yaml.ReadsBack.read (h : yaml.ReadsBack) (ht : yaml.toYaml request = .ok text) :
    yaml.read text = .ok (inputOf request) := by
  obtain ⟨text', hw, hr⟩ := h request
  rw [toYaml, hw] at ht
  cases ht
  exact hr

theorem Yaml.fromYaml_of_read (h : yaml.read text = .ok (inputOf request)) :
    yaml.fromYaml text = request.normalized.validate.map fun _ => request.normalized := by
  rw [fromYaml, RequestSpec.fromYaml, h]
  rfl

/-- A request that was written comes out of the text. -/
theorem Yaml.ReadsBack.fromYaml (h : yaml.ReadsBack) (ht : yaml.toYaml request = .ok text) (hr : request.Normal) :
    yaml.fromYaml text = .ok request := by
  rw [fromYaml_of_read (h.read ht), hr.normalized, hr.valid]
  rfl

end

/-! ## A library -/

/-- Each character behind a dot, each string on a line. -/
def writeStrings : List String → Text
  | [] => []
  | s :: ss => s.toList.flatMap (fun c => ['.', c]) ++ '\n' :: writeStrings ss

/-- The strings of the rest, with what was read of the first one. -/
def readStrings (current : Text) : Text → Option (List String)
  | [] => some []
  | '\n' :: rest => (readStrings [] rest).map (String.ofList current :: ·)
  | '.' :: c :: rest => readStrings (current ++ [c]) rest
  | _ => none

theorem readStrings_chars (current chars rest : Text) :
    readStrings current (chars.flatMap (fun c => ['.', c]) ++ rest) = readStrings (current ++ chars) rest := by
  induction chars generalizing current with
  | nil => rw [List.flatMap_nil, List.nil_append, List.append_nil]
  | cons c chars ih =>
    rw [List.flatMap_cons, List.append_assoc, List.cons_append, List.cons_append, List.nil_append, readStrings, ih,
      List.append_assoc, List.cons_append, List.nil_append]

theorem readStrings_writeStrings (ss : List String) : readStrings [] (writeStrings ss) = some ss := by
  induction ss with
  | nil => rfl
  | cons s ss ih =>
    rw [writeStrings, readStrings_chars, List.nil_append, readStrings, ih, Option.map_some, String.ofList_toList]

/-- The strings of a request: the keys and values of the headers come last. -/
def stringsOf (request : RequestSpec) : List String :=
  request.id :: request.name :: request.method :: request.url ::
    (match request.body with
      | some body => "+" ++ body
      | none => "") ::
    request.headers.toList.flatMap fun (key, value) => [key, value]

def headersOf : List String → List (String × String)
  | key :: value :: rest => (key, value) :: headersOf rest
  | _ => []

def ofStrings : List String → Option RequestSpecInput
  | id :: name :: method :: url :: body :: headers =>
    some {
      id := some id, name := some name, method := some method, url := some url
      headers := (headersOf headers).foldl (fun m (key, value) => m.insert key value) ∅
      body := if body = "" then none else some (String.ofList (body.toList.drop 1)) }
  | _ => none

theorem headersOf_flatMap (headers : List (String × String)) :
    headersOf (headers.flatMap fun (key, value) => [key, value]) = headers := by
  induction headers with
  | nil => rfl
  | cons header headers ih =>
    rw [List.flatMap_cons, List.cons_append, List.cons_append, List.nil_append, headersOf, ih]

theorem ofStrings_stringsOf (request : RequestSpec) : ofStrings (stringsOf request) = some (inputOf request) := by
  rw [stringsOf, ofStrings, headersOf_flatMap, Core.foldl_insert_toList, inputOf]
  cases request.body with
  | none => rfl
  | some body =>
    have hne : "+" ++ body ≠ "" := fun h => by simpa using congrArg String.toList h
    simp [hne]

/-- `request` is written as `text`, any other one by its strings. -/
def Yaml.sampled (request : RequestSpec) (text : String) : Yaml where
  write r := .ok (if r = request then text else String.ofList (writeStrings (stringsOf r)))
  read t :=
    if t = text then .ok (inputOf request)
    else match (readStrings [] t.toList).bind ofStrings with
      | some input => .ok input
      | none => .error ⟨"not a request", ""⟩

section

variable {request : RequestSpec} {text : String}

theorem Yaml.readsBack_sampled (h : readStrings [] text.toList = none) : (Yaml.sampled request text).ReadsBack := by
  intro r
  refine ⟨_, rfl, ?_⟩
  by_cases hr : r = request
  · simp only [sampled, hr, if_true]
  · have hread : readStrings [] (String.ofList (writeStrings (stringsOf r))).toList = some (stringsOf r) := by
      rw [String.toList_ofList, readStrings_writeStrings]
    have ht : String.ofList (writeStrings (stringsOf r)) ≠ text := fun he => by
      rw [he, h] at hread
      cases hread
    simp only [sampled, hr, if_false, ht, hread, Option.bind_some, ofStrings_stringsOf]

theorem Yaml.emptyUnnamed_sampled (h : readStrings [] text.toList = none) :
    (Yaml.sampled request text).EmptyUnnamed := by
  intro input hread
  have ht : "" ≠ text := fun he => by
    rw [← he] at h
    cases h
  simp only [sampled, ht, if_false] at hread
  cases hread

end

/-- A request, and a library that writes it as it is written. -/
def sampleRequest : RequestSpec where
  id := "req-a"
  name := "A"
  method := "GET"
  url := "http://localhost"
  headers := ∅
  body := none

def sampleYaml : Yaml :=
  .sampled sampleRequest "id: req-a\nname: A\nmethod: GET\nurl: http://localhost\nheaders: \x7b\x7d\n"

theorem sampleYaml_readsBack : sampleYaml.ReadsBack := Yaml.readsBack_sampled (by decide)

theorem sampleYaml_emptyUnnamed : sampleYaml.EmptyUnnamed := Yaml.emptyUnnamed_sampled (by decide)

end WireSurge.Storage
