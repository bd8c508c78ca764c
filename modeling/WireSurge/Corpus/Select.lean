import Mathlib.Algebra.Ring.Nat
import WireSurge.Lib.Checked

/-!
# The corpus

The query names of a run and the choice of one by query index (`selectIndex`).
A corpus has a row: the loader refuses an empty file. What is chosen is always
a row (`selectIndex_lt`).
-/

namespace WireSurge.Corpus

open Checked (Checked index slice)

/-- `SelectMode`. -/
inductive SelectMode
  | sequential
  | randomReplace
  | randomPermute
  deriving DecidableEq, Repr

/-- The rows are byte ranges of the backing buffer. -/
structure Corpus where
  backing : List UInt8
  rows : List (Nat × Nat)
  nonempty : rows ≠ []

/-- `splitmix64`. -/
def splitmix64 (x : UInt64) : UInt64 :=
  let x := x + 0x9e3779b97f4a7c15
  let x := (x ^^^ (x >>> 30)) * 0xbf58476d1ce4e5b9
  let x := (x ^^^ (x >>> 27)) * 0x94d049bb133111eb
  x ^^^ (x >>> 31)

/-! ## The permutation -/

/-- `round_function`. -/
def roundFunction (value : UInt64) : UInt64 :=
  let x := value + 0x9e3779b97f4a7c15
  let x := (x ^^^ (x >>> 30)) * 0xbf58476d1ce4e5b9
  let x := (x ^^^ (x >>> 27)) * 0x94d049bb133111eb
  x ^^^ (x >>> 31)

/-- One round of `feistel`. -/
def feistelRound (mask seed : UInt64) (round : UInt64) (halves : UInt64 × UInt64) : UInt64 × UInt64 :=
  let (left, right) := halves
  let mixed := (roundFunction (right ^^^ (seed * (round + 1))) ^^^ round) &&& mask
  (right, left ^^^ mixed)

/-- `feistel`: four rounds. -/
def feistel (input : UInt64) (halfBits : UInt64) (mask seed : UInt64) : UInt64 :=
  let halves := ((input >>> halfBits) &&& mask, input &&& mask)
  let (left, right) := [0, 1, 2, 3].foldl (fun halves round => feistelRound mask seed round halves) halves
  (left <<< halfBits) ||| right

/-- The loop of `permute_index`, for `fuel` turns. -/
def cycleWalk (n halfBits mask seed : UInt64) : Nat → UInt64 → Option UInt64
  | 0, _ => none
  | fuel + 1, value =>
    let value := feistel value halfBits mask seed
    if value < n then some value else cycleWalk n halfBits mask seed fuel value

/-- `permute_index`, or `none` when its loop has not ended after `2 ^ 64` turns. -/
def permuteIndex (i n seed : UInt64) : Option UInt64 :=
  if n ≤ 1 then some 0
  else
    let halfBits := UInt64.ofNat (max (((n - 1).toNat.log2 + 1 + 1) / 2) 1)
    let mask := (1 <<< halfBits) - 1
    cycleWalk n halfBits mask seed (2 ^ 64) (i % n)

namespace Corpus

/-- The number of rows. -/
def len (c : Corpus) : Nat := c.rows.length

/-- The name of a row; empty when its bytes are not UTF-8. -/
def row (c : Corpus) (i : Nat) : Checked String := do
  let range ← index c.rows i
  let bytes ← slice c.backing range.1 range.2
  return (String.fromUTF8? ⟨bytes.toArray⟩).getD ""

/-- The names of all rows, in order. -/
def iterRows (c : Corpus) : Checked (List String) := (List.range c.len).mapM c.row

/-- The row a query index selects. -/
def selectIndex (c : Corpus) (idx seed : UInt64) (mode : SelectMode) : Option Nat :=
  let n := UInt64.ofNat c.len
  match mode with
  | .sequential => some (idx % n).toNat
  | .randomReplace => some (splitmix64 (idx ^^^ seed) % n).toNat
  | .randomPermute => (permuteIndex idx n seed).map UInt64.toNat

theorem len_pos (c : Corpus) : 0 < c.len := List.length_pos_iff.mpr c.nonempty

theorem cycleWalk_lt {n halfBits mask seed : UInt64} {fuel : Nat} {value r : UInt64}
    (h : cycleWalk n halfBits mask seed fuel value = some r) : r < n := by
  induction fuel generalizing value with
  | zero => cases h
  | succ fuel ih =>
    simp only [cycleWalk] at h
    split at h
    · rename_i hlt
      cases h
      exact hlt
    · exact ih h

theorem permuteIndex_lt {i n seed r : UInt64} (hn : 0 < n) (h : permuteIndex i n seed = some r) : r < n := by
  unfold permuteIndex at h
  split at h
  · cases h
    exact hn
  · exact cycleWalk_lt h

/-- A row that is selected exists. -/
theorem selectIndex_lt {c : Corpus} (hc : c.len < 2 ^ 64) {idx seed : UInt64} {mode : SelectMode} {row : Nat}
    (h : c.selectIndex idx seed mode = some row) : row < c.len := by
  have hlen : (UInt64.ofNat c.len).toNat = c.len := UInt64.toNat_ofNat_of_lt' hc
  have hpos : 0 < (UInt64.ofNat c.len).toNat := by rw [hlen]; exact c.len_pos
  unfold selectIndex at h
  cases mode with
  | sequential =>
    cases h
    rw [UInt64.toNat_mod]
    exact Nat.lt_of_lt_of_eq (Nat.mod_lt _ hpos) hlen
  | randomReplace =>
    cases h
    rw [UInt64.toNat_mod]
    exact Nat.lt_of_lt_of_eq (Nat.mod_lt _ hpos) hlen
  | randomPermute =>
    obtain ⟨r, hr, rfl⟩ := Option.map_eq_some_iff.mp h
    have hlt := permuteIndex_lt (UInt64.lt_iff_toNat_lt.mpr (by simpa using hpos)) hr
    exact Nat.lt_of_lt_of_eq (UInt64.lt_iff_toNat_lt.mp hlt) hlen

/-- Outside the permutation, a row is always selected. -/
theorem selectIndex_isSome (c : Corpus) (idx seed : UInt64) {mode : SelectMode} (h : mode ≠ .randomPermute) :
    ∃ row, c.selectIndex idx seed mode = some row := by
  cases mode with
  | sequential | randomReplace => exact ⟨_, rfl⟩
  | randomPermute => exact absurd rfl h

end Corpus

end WireSurge.Corpus
