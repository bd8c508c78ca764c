import WireSurge.Core.Numeric
import WireSurge.Engine.Plan
import WireSurge.Dns.Exchange
import WireSurge.Lib.Checked

/-!
# The rate gate

The slot of an index is `index / qps` seconds behind the start of a run. The
code takes the quotient in doubles, compares it with the seconds of the budget,
and waits for the nearest number of nanoseconds. The same gate with exact
arithmetic stands beside it, for what is said of the schedule as documented:
`Arithmetic` tells the two apart, and most results hold for both.

What a slot is in either arithmetic (`RateGate.slot`): it starts at zero, grows
with the index, and inside the bound on a run it is less than a nanosecond
away from the exact one (`abs_delay_sub_lt`). The conversion of such a slot is in range
(`scheduled_eq`).
-/

namespace WireSurge.Engine

open Checked (Checked)
open WireSurge.Core.Number (natToF64 natToF64_eq_near natToF64_mono)
open WireSurge.Dns (Duration Instant)

/-! ## Seconds -/

/-- `Duration::as_secs_f64`. -/
def asSecsF64 (d : Duration) : Double :=
  match Double.quotient ⌊Int.fract d * 1_000_000_000⌋ (.round 1_000_000_000) with
  | .finite value _ => .round (natToF64 ⌊d⌋.toNat + value)
  | other => other

/-- `Duration::from_secs_f64`: the nearest number of nanoseconds. A number that is none stops the program. -/
def fromSecsF64 : Double → Checked ℚ≥0
  | .finite secs _ =>
    if secs < 0 then .error (.expect "cannot convert float seconds to Duration: value is negative")
    else
      let nanos := (Double.nearestEven (secs * 10 ^ 9)).toNat
      if 2 ^ 64 * 10 ^ 9 ≤ nanos then
        .error (.expect "cannot convert float seconds to Duration: value is either too big or NaN")
      else .ok (nanos / 10 ^ 9)
  | .infinite true => .error (.expect "cannot convert float seconds to Duration: value is negative")
  | .infinite false | .nan =>
    .error (.expect "cannot convert float seconds to Duration: value is either too big or NaN")

/-- Seconds within the bound on a run are converted, and are off by half a nanosecond at most. -/
theorem fromSecsF64_eq {secs : ℚ} {h : |secs| ≤ maxDouble} (hpos : 0 ≤ secs) (hle : secs ≤ maxRunSecs) :
    ∃ d : ℚ≥0, fromSecsF64 (.finite secs h) = .ok d ∧ (d : ℚ) = Double.nearestEven (secs * 10 ^ 9) / 10 ^ 9 := by
  have hnonneg : 0 ≤ Double.nearestEven (secs * 10 ^ 9) :=
    Double.le_nearestEven (by rw [Int.cast_zero]; positivity)
  have hnanos : Double.nearestEven (secs * 10 ^ 9) ≤ maxRunSecs * 10 ^ 9 := by
    refine Double.nearestEven_le ?_
    push_cast
    exact mul_le_mul_of_nonneg_right hle (by positivity)
  have hlt : (Double.nearestEven (secs * 10 ^ 9)).toNat < 2 ^ 64 * 10 ^ 9 := by
    rw [maxRunSecs] at hnanos
    omega
  refine ⟨_, by rw [fromSecsF64, if_neg (not_lt.mpr hpos), if_neg (not_le.mpr hlt)], ?_⟩
  push_cast
  rw [← Int.cast_natCast, Int.toNat_of_nonneg hnonneg]

theorem natToF64_of_lt {n : Nat} (h : n < 2 ^ 53) : natToF64 n = n := by
  have heq : (natToF64 n : ℚ) = n := by rw [natToF64_eq_near, Double.near_natCast h]
  exact_mod_cast heq

theorem maxRunSecs_bounded {secs : ℚ} (hpos : 0 ≤ secs) (hle : secs ≤ maxRunSecs) : |secs| ≤ maxDouble :=
  Double.bounded_of_lt hpos (hle.trans (by norm_num [maxRunSecs]))

/-- A duration within the bound on a run has seconds within it. -/
theorem asSecsF64_eq {d : Duration} (hpos : 0 ≤ d) (hle : d ≤ maxRunSecs) :
    ∃ secs h, asSecsF64 d = .finite secs h ∧ secs ≤ maxRunSecs := by
  have hfract := Int.fract_nonneg d
  have hfloor : 0 ≤ ⌊d⌋ := Int.floor_nonneg.mpr hpos
  have hwhole : ⌊d⌋ ≤ maxRunSecs := Int.floor_le_iff.mpr (hle.trans_lt (by push_cast; linarith))
  let nanos : ℚ := (⌊Int.fract d * 1_000_000_000⌋ : ℤ) / 1_000_000_000
  have hnanos : 0 ≤ nanos := by
    have : 0 ≤ ⌊Int.fract d * 1_000_000_000⌋ := Int.floor_nonneg.mpr (by positivity)
    positivity
  have hbelow : nanos ≤ Int.fract d := by
    rw [div_le_iff₀ (by norm_num)]
    exact Int.floor_le _
  -- the fraction is rounded to what is left of the bound at most
  have hvalue : Double.near nanos ≤ (maxRunSecs - ⌊d⌋ : ℤ) := by
    refine Double.near_le_int hnanos ((hbelow.trans_lt (Int.fract_lt_one d)).trans (by norm_num)) ?_
    push_cast
    linarith [Int.floor_add_fract d]
  have hvalue0 := Double.near_nonneg hnanos
  have hsum : (⌊d⌋.toNat : ℚ) + Double.near nanos ≤ maxRunSecs := by
    have hcast : (⌊d⌋.toNat : ℚ) = ⌊d⌋ := by rw [← Int.cast_natCast, Int.toNat_of_nonneg hfloor]
    rw [hcast]
    push_cast at hvalue
    linarith
  have hsecs : Double.near (⌊d⌋.toNat + Double.near nanos) ≤ maxRunSecs := by
    refine Double.near_le_int (n := maxRunSecs) (by positivity) (hsum.trans_lt ?_) (by exact_mod_cast hsum)
    norm_num [maxRunSecs]
  have hsmall : natToF64 ⌊d⌋.toNat = ⌊d⌋.toNat := natToF64_of_lt (by rw [maxRunSecs] at hwhole; omega)
  have hbillion : Double.near 1_000_000_000 = 1_000_000_000 := by
    exact_mod_cast Double.near_natCast (n := 1_000_000_000) (by norm_num)
  have hbillion' : |(1_000_000_000 : ℚ)| ≤ maxDouble := Double.bounded_of_lt (by norm_num) (by norm_num)
  have hfraction : |Double.near nanos| ≤ maxDouble := by
    have hnonneg : (0 : ℚ) ≤ ⌊d⌋.toNat := Nat.cast_nonneg _
    exact maxRunSecs_bounded hvalue0 (by linarith)
  have hbounded := maxRunSecs_bounded (Double.near_nonneg (by positivity)) hsecs
  refine ⟨_, hbounded, ?_, hsecs⟩
  rw [asSecsF64, Double.round_eq hbillion hbillion', Double.quotient, Double.round_eq rfl hfraction]
  simp only [hsmall]
  exact Double.round_eq rfl hbounded

/-! ## The gate -/

/-- How the numbers of the gate are computed. -/
inductive Arithmetic
  | exact
  /-- As the code does, in doubles and whole nanoseconds. -/
  | rounded
  deriving DecidableEq, Repr

/-- `as_secs_f64`, in either arithmetic. -/
def Arithmetic.asSecsF64 : Arithmetic → Duration → Double
  | .exact, d => .ofRat d
  | .rounded, d => Engine.asSecsF64 d

/-- `from_secs_f64`, in either arithmetic. -/
def Arithmetic.fromSecsF64 : Arithmetic → Double → Checked ℚ≥0
  | .exact, .finite secs _ => .ok secs.toNNRat
  | _, secs => Engine.fromSecsF64 secs

structure RateGate where
  start : Instant
  qps : ℚ
  arithmetic : Arithmetic
  deriving DecidableEq

namespace RateGate

/-- `index as f64 / self.qps`. -/
def slotSecs (g : RateGate) (index : Nat) : Double :=
  match g.arithmetic with
  | .exact => .ofRat (index / g.qps)
  | .rounded => .round (natToF64 index / g.qps)

/-- The instant that `wait` sleeps to. -/
def scheduled (g : RateGate) (index : Nat) : Checked Instant := do
  let d ← g.arithmetic.fromSecsF64 (g.slotSecs index)
  return g.start + d

/-- The number that `slotSecs` comes to. -/
def slot (g : RateGate) (index : Nat) : ℚ :=
  match g.arithmetic with
  | .exact => index / g.qps
  | .rounded => Double.near (natToF64 index / g.qps)

variable {g : RateGate} {index i j : Nat}

theorem slotSecs_eq (g : RateGate) (index : Nat) : g.slotSecs index = .ofRat (g.slot index) := by
  unfold slotSecs slot
  split <;> rfl

@[simp] theorem slot_zero (g : RateGate) : g.slot 0 = 0 := by
  cases h : g.arithmetic <;> simp [slot, h, natToF64, Double.near_zero]

theorem slot_nonneg (hq : 0 < g.qps) (index : Nat) : 0 ≤ g.slot index := by
  unfold slot
  split
  · positivity
  · exact Double.near_nonneg (by positivity)

theorem slot_mono (hq : 0 < g.qps) (h : i ≤ j) : g.slot i ≤ g.slot j := by
  unfold slot
  split
  · exact div_le_div_of_nonneg_right (by exact_mod_cast h) hq.le
  · refine Double.near_mono (by positivity) (div_le_div_of_nonneg_right ?_ hq.le)
    exact_mod_cast natToF64_mono h

/-- A slot that is not inside some budget is followed by none that is. -/
theorem ge_mono (hq : 0 < g.qps) (h : i ≤ j) {budget : Double} (hge : (g.slotSecs i).ge budget = true) :
    (g.slotSecs j).ge budget = true := by
  rw [slotSecs_eq] at hge ⊢
  exact Double.ge_ofRat_mono (slot_nonneg hq i) (slot_mono hq h) hge

/-! ## Slots within the bound on a run -/

theorem natToF64_of_slot_lt (hq : 0 < g.qps) (hmax : g.qps ≤ maxQps) (ha : g.arithmetic = .rounded)
    (h : g.slot index < maxRunSecs) : natToF64 index = index ∧ (index / g.qps : ℚ) < maxRunSecs := by
  have hbound : (maxRunSecs : ℚ) = Double.near maxRunSecs := (Double.near_natCast (by norm_num [maxRunSecs])).symm
  simp only [slot, ha] at h
  have hquot : (natToF64 index / g.qps : ℚ) < maxRunSecs := by
    by_contra hle
    rw [hbound] at h
    exact absurd (Double.near_mono (Nat.cast_nonneg _) (not_lt.mp hle)) (not_le.mpr h)
  have hindex : (natToF64 index : ℚ) < 2 ^ 53 := by
    rw [div_lt_iff₀ hq] at hquot
    calc (natToF64 index : ℚ) < maxRunSecs * g.qps := hquot
      _ ≤ maxRunSecs * maxQps := mul_le_mul_of_nonneg_left hmax (Nat.cast_nonneg _)
      _ < 2 ^ 53 := by norm_num [maxRunSecs, maxQps]
  have hlt : index < 2 ^ 53 := by
    by_contra hle
    have hmono := natToF64_mono (not_lt.mp hle)
    have h53 : natToF64 (2 ^ 53) = 2 ^ 53 := by decide +kernel
    rw [h53] at hmono
    exact absurd (by exact_mod_cast hmono) (not_le.mpr hindex)
  have heq := natToF64_of_lt hlt
  exact ⟨heq, by rwa [heq] at hquot⟩

/-- The exact slot is within the bound, too. -/
theorem exact_lt (hq : 0 < g.qps) (hmax : g.qps ≤ maxQps) (h : g.slot index < maxRunSecs) :
    (index / g.qps : ℚ) < maxRunSecs := by
  cases ha : g.arithmetic with
  | exact => simpa only [slot, ha] using h
  | rounded => exact (natToF64_of_slot_lt hq hmax ha h).2

/-- An index that is less than the bound times the rate by one has a slot within the bound. -/
theorem slot_lt (hq : 0 < g.qps) (hmax : g.qps ≤ maxQps) (h : (index : ℚ) + 1 ≤ g.qps * maxRunSecs) :
    g.slot index < maxRunSecs := by
  have hquot : (index / g.qps : ℚ) ≤ (maxRunSecs * 2 ^ 20 - 1 : ℤ) * 2 ^ (-20 : ℤ) := by
    rw [div_le_iff₀ hq]
    have hstep : g.qps * 2 ^ (-20 : ℤ) ≤ 1 := by
      calc g.qps * 2 ^ (-20 : ℤ) ≤ maxQps * 2 ^ (-20 : ℤ) := mul_le_mul_of_nonneg_right hmax (by positivity)
        _ ≤ 1 := by norm_num [maxQps]
    push_cast
    norm_num at hstep ⊢
    linarith
  have hlt : (index / g.qps : ℚ) < 2 ^ (20 : ℤ) := hquot.trans_lt (by norm_num [maxRunSecs])
  cases ha : g.arithmetic with
  | exact =>
    simp only [slot, ha]
    exact hquot.trans_lt (by norm_num [maxRunSecs])
  | rounded =>
    have hindex : natToF64 index = index := by
      refine natToF64_of_lt ?_
      have : (index : ℚ) < 2 ^ 53 := by
        calc (index : ℚ) < g.qps * maxRunSecs := by linarith
          _ ≤ maxQps * maxRunSecs := mul_le_mul_of_nonneg_right hmax (Nat.cast_nonneg _)
          _ < 2 ^ 53 := by norm_num [maxRunSecs, maxQps]
      exact_mod_cast this
    have hulp := Double.ulpExp_le_of_nonneg (by positivity) hlt (by norm_num)
    simp only [slot, ha, hindex]
    exact (Double.near_le (by omega) hquot).trans_lt (by norm_num [maxRunSecs])

/-- A slot within the bound is less than a nanosecond away from the exact one. -/
theorem abs_slot_sub_le (hq : 0 < g.qps) (hmax : g.qps ≤ maxQps) (h : g.slot index < maxRunSecs) :
    |g.slot index - index / g.qps| ≤ 2 ^ (-34 : ℤ) := by
  cases ha : g.arithmetic with
  | exact =>
    simp only [slot, ha, sub_self, abs_zero]
    positivity
  | rounded =>
    obtain ⟨hindex, hlt⟩ := natToF64_of_slot_lt hq hmax ha h
    have hulp : Double.ulpExp (index / g.qps) ≤ 20 - 53 := by
      refine Double.ulpExp_le_of_nonneg (by positivity) (hlt.trans ?_) (by norm_num)
      norm_num [maxRunSecs]
    simp only [slot, ha, hindex]
    calc |Double.near (index / g.qps) - index / g.qps| ≤ Double.ulp (index / g.qps) / 2 := Double.abs_near_sub_le _
      _ ≤ 2 ^ (20 - 53 : ℤ) / 2 :=
        div_le_div_of_nonneg_right (zpow_le_zpow_right₀ (by norm_num) hulp) (by norm_num)
      _ = 2 ^ (-34 : ℤ) := by norm_num

/-- The time from the start to the instant of a slot, as it comes out. -/
def delay (g : RateGate) (index : Nat) : ℚ :=
  match g.arithmetic with
  | .exact => g.slot index
  | .rounded => Double.nearestEven (g.slot index * 10 ^ 9) / 10 ^ 9

/-- The conversion of a slot within the bound is in range. -/
theorem scheduled_eq (hq : 0 < g.qps) (h : g.slot index < maxRunSecs) :
    g.scheduled index = .ok (g.start + g.delay index) := by
  have hnonneg := slot_nonneg hq index
  have hbounded := maxRunSecs_bounded hnonneg h.le
  rw [scheduled, slotSecs_eq, Double.ofRat_of_le hbounded]
  unfold delay
  cases ha : g.arithmetic with
  | exact =>
    simp only [Arithmetic.fromSecsF64]
    exact congrArg (fun secs => Except.ok (g.start + secs)) (Rat.coe_toNNRat _ hnonneg)
  | rounded =>
    obtain ⟨d, hd, heq⟩ := fromSecsF64_eq (h := hbounded) hnonneg h.le
    simp only [Arithmetic.fromSecsF64, hd, ← heq]
    rfl

theorem delay_of_exact (ha : g.arithmetic = .exact) : g.delay index = index / g.qps := by
  simp only [delay, slot, ha]

@[simp] theorem delay_zero (g : RateGate) : g.delay 0 = 0 := by
  unfold delay
  split
  · exact slot_zero g
  · have hzero : Double.nearestEven 0 = 0 := by exact_mod_cast Double.nearestEven_intCast 0
    rw [slot_zero, zero_mul, hzero, Int.cast_zero, zero_div]

/-- The instant of a slot is less than a nanosecond away from the exact one. -/
theorem abs_delay_sub_lt (hq : 0 < g.qps) (hmax : g.qps ≤ maxQps) (h : g.slot index < maxRunSecs) :
    |g.delay index - index / g.qps| < 1 / 10 ^ 9 := by
  have hslot := abs_slot_sub_le hq hmax h
  have hdelay : |g.delay index - g.slot index| ≤ 1 / 2 / 10 ^ 9 := by
    unfold delay
    split
    · rw [sub_self, abs_zero]
      positivity
    · have hnear := Double.abs_nearestEven_sub_le (g.slot index * 10 ^ 9)
      have heq : (Double.nearestEven (g.slot index * 10 ^ 9) / 10 ^ 9 - g.slot index : ℚ) =
          (Double.nearestEven (g.slot index * 10 ^ 9) - g.slot index * 10 ^ 9) / 10 ^ 9 := by ring
      rw [heq, abs_div, abs_of_pos (by positivity : (0 : ℚ) < 10 ^ 9)]
      exact div_le_div_of_nonneg_right hnear (by positivity)
  calc |g.delay index - index / g.qps| ≤ |g.delay index - g.slot index| + |g.slot index - index / g.qps| :=
        abs_sub_le _ _ _
    _ ≤ 1 / 2 / 10 ^ 9 + 2 ^ (-34 : ℤ) := add_le_add hdelay hslot
    _ < 1 / 10 ^ 9 := by norm_num

/-- At 3 qps the third slot is inside a budget of 0.666666667 s, and the wait for it ends
with the budget. -/
example :
    let g : RateGate := { start := 0, qps := 3, arithmetic := .rounded }
    (g.slotSecs 2).ge (asSecsF64 (666666667 / 10 ^ 9)) = false ∧ g.scheduled 2 = .ok (666666667 / 10 ^ 9) := by
  decide +kernel

/-- No two slots come together at the start. -/
theorem delay_one_pos (hq : 0 < g.qps) (hmax : g.qps ≤ maxQps) (h : g.slot 1 < maxRunSecs) : 0 < g.delay 1 := by
  have hclose := (abs_lt.mp (abs_delay_sub_lt hq hmax h)).1
  have hlarge : (1 : ℚ) / maxQps ≤ 1 / g.qps := one_div_le_one_div_of_le hq hmax
  have hqps : (1 : ℚ) / 10 ^ 9 < 1 / maxQps := by norm_num [maxQps]
  rw [Nat.cast_one] at hclose
  linarith

end RateGate

end WireSurge.Engine
