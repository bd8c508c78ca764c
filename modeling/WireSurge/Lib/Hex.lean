import Mathlib.Logic.Function.Basic
import WireSurge.Lib.Str

/-!
# Hexadecimal numbers

The digits of a number in a base of at most 16 (`Nat.toDigits`) tell it from every
other (`toDigits_injective`), and are digits or small letters (`notMem_toDigits`).
`fromStrRadix` reads a number, before which it takes a plus. Two digits for each
byte render a list of bytes (`Renders`): the texts that render one are those of an
even number of digits (`exists_renders_iff`).
-/

namespace Hex

open Str (Text)

theorem digitChar_inj : ∀ i < 16, ∀ j < 16, Nat.digitChar i = Nat.digitChar j → i = j := by decide

variable {b : Nat}

theorem toDigits_injective (hb : 1 < b) (hb' : b ≤ 16) : Function.Injective (Nat.toDigits b) := by
  intro m n h
  induction m using Nat.strongRecOn generalizing n with
  | ind m ih =>
    rw [Nat.toDigits_eq_if hb, Nat.toDigits_eq_if hb (n := n)] at h
    split at h
    · rename_i hm
      split at h
      · rename_i hn
        exact digitChar_inj m (by omega) n (by omega) (List.singleton_inj.mp h)
      · have := congrArg List.length h
        simp at this
    · rename_i hm
      split at h
      · have := congrArg List.length h
        simp at this
      · obtain ⟨hinit, hlast⟩ := List.append_inj' h rfl
        have hmod : m % b = n % b := by
          have hlt (k : Nat) : k % b < 16 := Nat.lt_of_lt_of_le (Nat.mod_lt k (by omega)) hb'
          exact digitChar_inj _ (hlt m) _ (hlt n) (List.singleton_inj.mp hlast)
        have hdiv : m / b = n / b := ih (m / b) (Nat.div_lt_self (by omega) hb) hinit
        rw [← Nat.div_add_mod m b, ← Nat.div_add_mod n b, hdiv, hmod]

theorem notMem_toDigits (hb : 1 < b) (hb' : b ≤ 16) {c : Char} (hc : ∀ i < 16, Nat.digitChar i ≠ c) (n : Nat) :
    c ∉ Nat.toDigits b n := by
  induction n using Nat.strongRecOn with
  | ind n ih =>
    rw [Nat.toDigits_eq_if hb]
    split
    · rw [List.mem_singleton]
      exact fun h => hc n (by omega) h.symm
    · rw [List.mem_append, List.mem_singleton, not_or]
      refine ⟨ih (n / b) (Nat.div_lt_self (by omega) hb), fun h => ?_⟩
      exact hc (n % b) (Nat.lt_of_lt_of_le (Nat.mod_lt n (by omega)) hb') h.symm

/-! ## Reading -/

/-- `to_digit`. -/
def toDigit (radix : Nat) (c : Char) : Option Nat :=
  let digit :=
    if '0' ≤ c ∧ c ≤ '9' then some (c.toNat - '0'.toNat)
    else if 'a' ≤ c ∧ c ≤ 'z' then some (c.toNat - 'a'.toNat + 10)
    else if 'A' ≤ c ∧ c ≤ 'Z' then some (c.toNat - 'A'.toNat + 10)
    else none
  digit.filter (· < radix)

/-- The next digit of a number that must not exceed a bound. -/
def pushDigit (radix bound n : Nat) (c : Char) : Option Nat := do
  let digit ← toDigit radix c
  if n * radix + digit ≤ bound then some (n * radix + digit) else none

/-- `from_str_radix` of an unsigned type. -/
def fromStrRadix (radix bound : Nat) : Text → Option Nat
  | [] | ['+'] | ['-'] => none
  | '+' :: digits => digits.foldlM (pushDigit radix bound) 0
  | digits => digits.foldlM (pushDigit radix bound) 0

def IsDigit (c : Char) : Prop := ('0' ≤ c ∧ c ≤ '9') ∨ ('a' ≤ c ∧ c ≤ 'f') ∨ ('A' ≤ c ∧ c ≤ 'F')

instance (c : Char) : Decidable (IsDigit c) := inferInstanceAs (Decidable (_ ∨ _))

variable {c d : Char}

theorem le_iff_toNat : c ≤ d ↔ c.toNat ≤ d.toNat := UInt32.le_iff_toNat_le

theorem toDigit_lt {n : Nat} (h : toDigit b c = some n) : n < b := by
  simpa using (Option.filter_eq_some_iff.mp h).2

theorem exists_toDigit_iff : (∃ n, toDigit 16 c = some n) ↔ IsDigit c := by
  simp only [toDigit, IsDigit, le_iff_toNat, Option.filter_eq_some_iff, decide_eq_true_eq]
  simp only [Char.reduceToNat]
  split
  · simp
    omega
  · split
    · simp
      omega
    · split
      · simp
        omega
      · simp
        omega

/-- Two characters are a byte when they are two digits, or a plus and a digit. -/
theorem fromStrRadix_pair {n : Nat} : fromStrRadix 16 255 [c, d] = some n ↔
    (∃ x y, toDigit 16 c = some x ∧ toDigit 16 d = some y ∧ n = x * 16 + y) ∨ c = '+' ∧ toDigit 16 d = some n := by
  by_cases hc : c = '+'
  · subst hc
    have hplus : toDigit 16 '+' = none := by decide
    have hone : fromStrRadix 16 255 ['+', d] = [d].foldlM (pushDigit 16 255) 0 := by
      rw [fromStrRadix]
      all_goals simp
    rw [hone, hplus]
    cases hd : toDigit 16 d with
    | none => simp [pushDigit, hd]
    | some y =>
      have := toDigit_lt hd
      simp [pushDigit, hd]
      omega
  · have htwo : fromStrRadix 16 255 [c, d] = [c, d].foldlM (pushDigit 16 255) 0 := by
      rw [fromStrRadix]
      all_goals simp [hc]
    rw [htwo]
    cases hx : toDigit 16 c with
    | none => simp [pushDigit, hx, hc]
    | some x =>
      cases hy : toDigit 16 d with
      | none => simp [pushDigit, hx, hy, hc]
      | some y =>
        have := toDigit_lt hx
        have := toDigit_lt hy
        have hx' : x ≤ 255 := by omega
        have hy' : x * 16 + y ≤ 255 := by omega
        simp [pushDigit, hx, hy, hc, hx', hy', eq_comm]

/-! ## Bytes in digits -/

/-- Each byte as two digits, in either case. -/
inductive Renders : List UInt8 → Text → Prop
  | nil : Renders [] []
  | byte {c d : Char} {x y : Nat} {bytes : List UInt8} {s : Text} : toDigit 16 c = some x → toDigit 16 d = some y →
      Renders bytes s → Renders (UInt8.ofNat (x * 16 + y) :: bytes) (c :: d :: s)

theorem Renders.digits {bytes : List UInt8} {s : Text} (h : Renders bytes s) :
    s.length % 2 = 0 ∧ ∀ c ∈ s, IsDigit c := by
  induction h with
  | nil => exact ⟨rfl, fun c hc => (List.not_mem_nil hc).elim⟩
  | byte hx hy _ ih =>
    refine ⟨by rw [List.length_cons, List.length_cons]; omega, ?_⟩
    simp only [List.mem_cons, forall_eq_or_imp]
    exact ⟨exists_toDigit_iff.mp ⟨_, hx⟩, exists_toDigit_iff.mp ⟨_, hy⟩, ih.2⟩

theorem exists_renders : ∀ s : Text, s.length % 2 = 0 → (∀ c ∈ s, IsDigit c) → ∃ bytes, Renders bytes s
  | [], _, _ => ⟨[], .nil⟩
  | [_], heven, _ => by simp at heven
  | c :: d :: s, heven, hdigits => by
    simp only [List.mem_cons, forall_eq_or_imp] at hdigits
    obtain ⟨x, hx⟩ := exists_toDigit_iff.mpr hdigits.1
    obtain ⟨y, hy⟩ := exists_toDigit_iff.mpr hdigits.2.1
    have heven' : s.length % 2 = 0 := by
      rw [List.length_cons, List.length_cons] at heven
      omega
    obtain ⟨bytes, hbytes⟩ := exists_renders s heven' hdigits.2.2
    exact ⟨_, .byte hx hy hbytes⟩

theorem exists_renders_iff {s : Text} : (∃ bytes, Renders bytes s) ↔ s.length % 2 = 0 ∧ ∀ c ∈ s, IsDigit c :=
  ⟨fun ⟨_, h⟩ => h.digits, fun h => exists_renders s h.1 h.2⟩

end Hex
