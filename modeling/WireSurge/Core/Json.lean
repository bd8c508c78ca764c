import Mathlib.Algebra.Order.Ring.Rat
import WireSurge.Lib.Str

/-!
# JSON values

`serde_json::Value`: numbers as the unsigned, the negative and the floating
ones, and objects as lists of fields. `pointer` is RFC 6901, `valuesMatch` the
comparison of assertions.
-/

namespace WireSurge.Core

open Str (Text)

/-- `serde_json::Number`; a float by its value, which is finite. -/
inductive Number
  | posInt (n : UInt64)
  | negInt (n : Int64)
  | float (value : ℚ)
  deriving DecidableEq

/-- `serde_json::Value`, the fields of an object in their order. -/
inductive Json
  | null
  | bool (b : Bool)
  | number (n : Number)
  | string (s : String)
  | array (items : List Json)
  | object (fields : List (String × Json))

namespace Number

/-- The nearest `f64` of a natural number, ties to even. -/
def natToF64 (n : Nat) : Nat :=
  let ulp := 2 ^ (n.log2 - 52)
  let down := n / ulp * ulp
  let rest := n % ulp
  if 2 * rest < ulp ∨ 2 * rest = ulp ∧ n / ulp % 2 = 0 then down else down + ulp

/-- `as_i64`. -/
def asI64 : Number → Option Int64
  | .posInt n => if n.toNat < 2 ^ 63 then some (Int64.ofNat n.toNat) else none
  | .negInt n => some n
  | .float _ => none

/-- `as_u64`. -/
def asU64 : Number → Option UInt64
  | .posInt n => some n
  | .negInt _ | .float _ => none

/-- `as_f64`, which rounds an integer. -/
def asF64 : Number → ℚ
  | .posInt n => natToF64 n.toNat
  | .negInt n => if n.toInt < 0 then -(natToF64 n.toInt.natAbs : ℚ) else natToF64 n.toInt.natAbs
  | .float value => value

end Number

namespace Json

def asNumber : Json → Option Number
  | .number n => some n
  | _ => none

mutual

/-- Structural equality. -/
def beq : Json → Json → Bool
  | .null, .null => true
  | .bool a, .bool b => a = b
  | .number a, .number b => a = b
  | .string a, .string b => a = b
  | .array as, .array bs => beqItems as bs
  | .object as, .object bs => beqFields as bs
  | _, _ => false

def beqItems : List Json → List Json → Bool
  | [], [] => true
  | a :: as, b :: bs => beq a b && beqItems as bs
  | _, _ => false

def beqFields : List (String × Json) → List (String × Json) → Bool
  | [], [] => true
  | (k, a) :: as, (l, b) :: bs => k = l && beq a b && beqFields as bs
  | _, _ => false

end

/-- `values_match`: numbers by value, everything else structurally. -/
def valuesMatch (actual expected : Json) : Bool :=
  match actual.asNumber, expected.asNumber with
  | some a, some b =>
    match a.asI64, b.asI64 with
    | some a, some b => a = b
    | _, _ =>
      match a.asU64, b.asU64 with
      | some a, some b => a = b
      | _, _ => a.asF64 = b.asF64
  | _, _ => actual.beq expected

/-- A member of an object. -/
def get? (key : String) : Json → Option Json
  | .object fields => (fields.find? fun field => field.1 = key).map Prod.snd
  | _ => none

theorem mem_of_get? {fields : List (String × Json)} {key : String} {v : Json}
    (h : (object fields).get? key = some v) :
    (key, v) ∈ fields := by
  obtain ⟨field, hfield, rfl⟩ := Option.map_eq_some_iff.mp h
  have hkey : field.1 = key := by simpa using List.find?_some hfield
  exact hkey ▸ List.mem_of_find?_eq_some hfield

/-- The value at a path of object keys. -/
def at? (j : Json) : List String → Option Json
  | [] => some j
  | key :: path => (j.get? key).bind fun v => v.at? path

/-- An array index of a pointer: decimal digits, without a sign or a leading zero. -/
def parseIndex (token : Text) : Option Nat :=
  if token = [] ∨ (token.head? = some '0' ∧ token.length ≠ 1) ∨ !token.all Char.isDigit then none
  else
    let n := token.foldl (fun n c => 10 * n + (c.toNat - '0'.toNat)) 0
    if n < 2 ^ 64 then some n else none

/-- One step of a pointer. -/
def step (token : Text) : Json → Option Json
  | .object fields => get? (String.ofList token) (.object fields)
  | .array items => (parseIndex token).bind fun i => items[i]?
  | _ => none

/-- The key that a token of a pointer stands for. -/
def unescapeToken (token : Text) : Text := Str.replace ['~', '0'] ['~'] (Str.replace ['~', '1'] ['/'] token)

/-- `Value::pointer`. -/
def pointer (j : Json) (path : Text) : Option Json :=
  match path with
  | [] => some j
  | '/' :: rest => ((Str.split ['/'] rest).map unescapeToken).foldlM (fun v token => step token v) j
  | _ => none

end Json

end WireSurge.Core
