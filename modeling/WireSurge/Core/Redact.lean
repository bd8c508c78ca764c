import WireSurge.Core.Json
import WireSurge.Core.Request
import WireSurge.Lib.Mask
import WireSurge.Lib.Percent

/-!
# Redaction

What a request shows of itself when it is serialized for display: a text that
bears a marker word is replaced whole, and the known secret values are masked
in place, as they are and as a query encodes them (`maskSecretValues`); these
are the texts of `patterns`, in their order. No secret is left in what has gone
through `redactValue` (`redactValue_no_secret`).
-/

namespace WireSurge.Core

open Str (Text Unmarkable mark maskAll replace toAsciiLowercase)

/-! ## Masking -/

/-- `nibble_to_hex`: a digit, in upper case. -/
def nibbleToHex (nibble : UInt8) : Char := Percent.hexDigit nibble

/-- A byte that a query component does not carry as it is. -/
def needsEncoding (byte : UInt8) : Bool :=
  !(0x20 ≤ byte && byte < 0x80) || byte = ' '.val.toUInt8 || byte = '"'.val.toUInt8 || byte = '#'.val.toUInt8 ||
    byte = '<'.val.toUInt8 || byte = '>'.val.toUInt8

/-- `query_percent_encode`. -/
def queryPercentEncode (input : Text) : Text :=
  (Str.encode input).flatMap fun byte =>
    if needsEncoding byte then ['%', nibbleToHex (byte >>> 4), nibbleToHex (byte &&& 0x0f)]
    else [Char.ofNat byte.toNat]

/-- What stands in the brackets of a mask. -/
def redactedWord : Text := "redacted".toList

/-- `"[redacted]"`. -/
def redacted : Text := mark redactedWord

/-- One secret masked, raw and encoded. -/
def maskSecret (out secret : Text) : Text :=
  let out := replace secret redacted out
  let encoded := queryPercentEncode secret
  if encoded ≠ secret then replace encoded redacted out else out

/-- `mask_secret_values`: the longest secrets first. -/
def maskSecretValues (input : Text) (secretValues : List Text) : Text :=
  let secrets := (secretValues.filter (· ≠ [])).mergeSort fun a b => Str.size b ≤ Str.size a
  secrets.foldl maskSecret input

/-- The words of `contains_sensitive_marker`. -/
def sensitiveMarkers : List Text :=
  ["authorization".toList, "token".toList, "secret".toList, "password".toList, "api_key".toList, "apikey".toList]

/-- `contains_sensitive_marker`, in any case. -/
def containsSensitiveMarker (input : Text) : Bool :=
  let normalized := input.map Char.toLower
  sensitiveMarkers.any fun marker => marker <:+: normalized

/-- `is_sensitive_header_name`. -/
def isSensitiveHeaderName (name : String) : Bool :=
  toAsciiLowercase name ∈ ["authorization", "proxy-authorization", "cookie", "set-cookie", "x-api-key", "api-key"]

/-- `redact_value`. -/
def redactValue (input : Text) (secretValues : List Text) : Text :=
  if containsSensitiveMarker input then redacted else maskSecretValues input secretValues

/-! ## Requests -/

/-- A request as it is shown. -/
structure RedactedRequestSpec where
  id : String
  name : String
  method : String
  url : String
  headers : BTreeMap String
  body : Option String

namespace RequestSpec

/-- `redact_value` of a string. -/
def redactString (input : String) (secretValues : List Text) : String :=
  String.ofList (redactValue input.toList secretValues)

/-- A header that is sensitive by its name is replaced whole. -/
def redactHeader (secretValues : List Text) (key value : String) : String :=
  if isSensitiveHeaderName key || containsSensitiveMarker key.toList then String.ofList redacted
  else redactString value secretValues

/-- `redacted_output`; the id, the name and the method are shown as they are. -/
def redactedOutput (r : RequestSpec) (secretValues : List Text) : RedactedRequestSpec where
  id := r.id
  name := r.name
  method := r.method
  url := redactString r.url secretValues
  headers := r.headers.map (redactHeader secretValues)
  body := r.body.map fun body => redactString body secretValues

end RequestSpec

/-- `serde_json::to_value`: the fields by their names, sorted. -/
def RedactedRequestSpec.toValue (r : RedactedRequestSpec) : Json :=
  .object [("body", (r.body.map .string).getD .null),
    ("headers", .object (r.headers.toList.map fun entry => (entry.1, .string entry.2))), ("id", .string r.id),
    ("method", .string r.method), ("name", .string r.name), ("url", .string r.url)]

/-- `to_json_value_with`. -/
def RequestSpec.toJsonValueWith (r : RequestSpec) (secretValues : List Text) : Json :=
  (r.redactedOutput secretValues).toValue

variable {secret p t : Text} {secretValues : List Text}

/-! ## The texts that are masked -/

/-- A secret as it is, and as a query encodes it. -/
def forms (secret : Text) : List Text :=
  if queryPercentEncode secret ≠ secret then [secret, queryPercentEncode secret] else [secret]

/-- The secrets that are masked, in the order of their masking. -/
def longestFirst (secretValues : List Text) : List Text :=
  (secretValues.filter (· ≠ [])).mergeSort fun a b => Str.size b ≤ Str.size a

/-- The texts that masking looks for, in its order. -/
def patterns (secretValues : List Text) : List Text := (longestFirst secretValues).flatMap forms

theorem maskSecretValues_eq (input : Text) (secretValues : List Text) :
    maskSecretValues input secretValues = maskAll redactedWord (patterns secretValues) input := by
  rw [maskAll, patterns, List.foldl_flatMap]
  show (longestFirst secretValues).foldl maskSecret input = _
  congr 1
  funext out secret
  rw [maskSecret, forms]
  split <;> rfl

theorem mem_longestFirst : secret ∈ longestFirst secretValues ↔ secret ∈ secretValues ∧ secret ≠ [] := by
  rw [longestFirst, (List.mergeSort_perm _ _).mem_iff, List.mem_filter, decide_eq_true_iff]

theorem mem_forms : p ∈ forms secret ↔ p = secret ∨ p = queryPercentEncode secret := by
  rw [forms]
  split
  · simp only [List.mem_cons, List.not_mem_nil, or_false]
  · rename_i heq
    rw [not_not.mp heq, List.mem_singleton, or_self]

theorem mem_patterns : p ∈ patterns secretValues ↔
    ∃ secret ∈ secretValues, secret ≠ [] ∧ (p = secret ∨ p = queryPercentEncode secret) := by
  simp only [patterns, List.mem_flatMap, mem_longestFirst, mem_forms, and_assoc]

/-! ## What is left of a secret -/

theorem queryPercentEncode_ne_nil {s : Text} (h : s ≠ []) : queryPercentEncode s ≠ [] := by
  obtain ⟨byte, hbyte⟩ : ∃ byte, byte ∈ Str.encode s := by
    refine List.exists_mem_of_length_pos ?_
    rw [Str.length_encode]
    exact Nat.lt_of_lt_of_le (List.length_pos_iff.mpr h) (Str.length_le_size s)
  intro hnil
  have := List.flatMap_eq_nil_iff.mp hnil byte hbyte
  split at this <;> cases this

theorem patterns_ne_nil : ∀ p ∈ patterns secretValues, p ≠ [] := by
  intro p hp
  obtain ⟨s, -, hne, rfl | rfl⟩ := mem_patterns.mp hp
  · exact hne
  · exact queryPercentEncode_ne_nil hne

/-- Masking shows nothing new, and no secret is left. -/
theorem maskSecretValues_no_secret (ht : Unmarkable redactedWord t) (hmem : t ∈ secretValues) (input : Text) :
    ¬ t <:+: maskSecretValues input secretValues := by
  rw [maskSecretValues_eq]
  intro h
  exact (ht.infix_maskAll patterns_ne_nil h).2 (mem_patterns.mpr ⟨t, hmem, ht.nonempty, .inl rfl⟩)

theorem redactValue_no_secret (ht : Unmarkable redactedWord t) (hmem : t ∈ secretValues) (input : Text) :
    ¬ t <:+: redactValue input secretValues := by
  unfold redactValue
  split
  · exact ht.not_infix_mark
  · exact maskSecretValues_no_secret ht hmem input

end WireSurge.Core
