import Mathlib.Tactic.IntervalCases
import WireSurge.Lib.Str

/-!
# String literals

How a text is written inside a JSON string literal (`escape`): a quote, a
backslash and a control character are escaped, in the short form where there is
one. `unescape` reads it back (`unescape_escape`).
-/

namespace Quote

open Str (Text)

/-- A character that does not stand for itself. -/
def special (c : Char) : Bool := c = '"' || c = '\\' || c.toNat < 0x20

def escapeChar (c : Char) : Text :=
  if c = '"' then ['\\', '"']
  else if c = '\\' then ['\\', '\\']
  else if c.toNat = 0x08 then ['\\', 'b']
  else if c.toNat = 0x09 then ['\\', 't']
  else if c.toNat = 0x0A then ['\\', 'n']
  else if c.toNat = 0x0C then ['\\', 'f']
  else if c.toNat = 0x0D then ['\\', 'r']
  else if c.toNat < 0x20 then ['\\', 'u', '0', '0', (c.toNat / 16).digitChar, (c.toNat % 16).digitChar]
  else [c]

def escape (s : Text) : Text := s.flatMap escapeChar

/-- The literal. -/
def quote (s : Text) : Text := '"' :: escape s ++ ['"']

theorem escape_append (s t : Text) : escape (s ++ t) = escape s ++ escape t := List.flatMap_append

theorem escapeChar_of_plain {c : Char} (h : special c = false) : escapeChar c = [c] := by
  simp only [special, Bool.or_eq_false_iff, decide_eq_false_iff_not] at h
  obtain ⟨⟨hquote, hback⟩, hcontrol⟩ := h
  rw [escapeChar, if_neg hquote, if_neg hback, if_neg (by omega), if_neg (by omega), if_neg (by omega),
    if_neg (by omega), if_neg (by omega), if_neg hcontrol]

theorem escape_of_plain {s : Text} (h : ∀ c ∈ s, special c = false) : escape s = s := by
  induction s with
  | nil => rfl
  | cons c s ih =>
    have hone := escapeChar_of_plain (h c List.mem_cons_self)
    have hrest : escape s = s := ih fun d hd => h d (List.mem_cons_of_mem c hd)
    rw [escape, List.flatMap_cons, hone, ← escape, hrest]
    rfl

/-! ## Reading -/

def hexValue (c : Char) : Nat := if c.isDigit then c.toNat - '0'.toNat else c.toNat - 'a'.toNat + 10

/-- What a character behind a backslash stands for. -/
def shortEscape : Char → Option Char
  | '"' => some '"'
  | '\\' => some '\\'
  | 'b' => some (Char.ofNat 0x08)
  | 't' => some '\t'
  | 'n' => some '\n'
  | 'f' => some (Char.ofNat 0x0C)
  | 'r' => some '\r'
  | _ => none

/-- The text of what is inside a literal, of the escapes that `escape` writes. -/
def unescape : Text → Option Text
  | [] => some []
  | '\\' :: 'u' :: '0' :: '0' :: a :: b :: rest =>
    (unescape rest).map (Char.ofNat (16 * hexValue a + hexValue b) :: ·)
  | '\\' :: c :: rest => (shortEscape c).bind fun c => (unescape rest).map (c :: ·)
  | c :: rest => (unescape rest).map (c :: ·)

theorem unescape_plain {c : Char} (h : c ≠ '\\') (rest : Text) :
    unescape (c :: rest) = (unescape rest).map (c :: ·) := by
  rw [unescape.eq_def]
  split
  · rename_i heq
    cases heq
  · rename_i heq
    exact absurd (List.cons.inj heq).1 h
  · rename_i heq
    exact absurd (List.cons.inj heq).1 h
  · rename_i heq
    cases heq
    rfl

theorem unescape_control {n : Nat} (h : n < 0x20) (rest : Text) :
    unescape (escapeChar (Char.ofNat n) ++ rest) = (unescape rest).map (Char.ofNat n :: ·) := by
  interval_cases n <;> rfl

theorem unescape_escapeChar (c : Char) (rest : Text) :
    unescape (escapeChar c ++ rest) = (unescape rest).map (c :: ·) := by
  by_cases hquote : c = '"'
  · subst hquote
    rfl
  by_cases hback : c = '\\'
  · subst hback
    rfl
  by_cases hcontrol : c.toNat < 0x20
  · have hread := unescape_control hcontrol rest
    rwa [Char.ofNat_toNat] at hread
  · have hplain : special c = false := by simp [special, hquote, hback, hcontrol]
    rw [escapeChar_of_plain hplain]
    exact unescape_plain hback rest

theorem unescape_escape (s : Text) : unescape (escape s) = some s := by
  induction s with
  | nil => rfl
  | cons c s ih =>
    rw [escape, List.flatMap_cons, unescape_escapeChar, ← escape, ih]
    rfl

end Quote
