import Mathlib.Algebra.Order.Floor.Ring
import Mathlib.Algebra.Order.Archimedean.Basic
import Mathlib.Data.Int.Log
import Mathlib.Data.Rat.Floor
import Mathlib.Tactic.Linarith
import Mathlib.Tactic.NormNum

/-!
# Doubles

The values of binary64 numbers: rational numbers of bounded size, the
infinities and NaN. The sign of zero is left out. `round` rounds to the nearest
double, ties to even, with the smallest positive one a unit in the last place
of the subnormal numbers; a number of at least that size is not rounded to zero
(`round_pos`).

Rounding respects order (`near_mono`), leaves the doubles as they are, so that
nothing is rounded across one (`near_le`, `le_near`), and is off by half a unit
in the last place at most (`abs_near_sub_le`).
-/

/-- The largest double. -/
def maxDouble : ℚ := (2 ^ 53 - 1) * 2 ^ 971

inductive Double
  | finite (value : ℚ) (bounded : |value| ≤ maxDouble)
  | infinite (negative : Bool)
  | nan
  deriving DecidableEq

namespace Double

theorem zero_bounded : |(0 : ℚ)| ≤ maxDouble := by
  rw [abs_zero, maxDouble]
  positivity

instance : Zero Double := ⟨.finite 0 zero_bounded⟩

theorem bounded_of_lt {q : ℚ} (hq : 0 ≤ q) (h : q ≤ 2 ^ 53 - 1) : |q| ≤ maxDouble := by
  rw [abs_of_nonneg hq]
  exact h.trans (le_mul_of_one_le_right (by norm_num) (one_le_pow₀ (by norm_num)))

/-- A number as it is, or an infinity when it is too large. -/
def ofRat (value : ℚ) : Double :=
  if h : |value| ≤ maxDouble then .finite value h else .infinite (value < 0)

def isFinite : Double → Bool
  | .finite _ _ => true
  | .infinite _ | .nan => false

/-- `self <= bound`. -/
def le (bound : ℚ) : Double → Bool
  | .finite value _ => value ≤ bound
  | .infinite negative => negative
  | .nan => false

/-- `self > bound`. -/
def gt (bound : ℚ) : Double → Bool
  | .finite value _ => bound < value
  | .infinite negative => !negative
  | .nan => false

/-- `self >= other`. -/
def ge : Double → Double → Bool
  | .nan, _ | _, .nan => false
  | .infinite negative, .infinite negative' => !negative || negative'
  | .infinite negative, .finite _ _ => !negative
  | .finite _ _, .infinite negative => negative
  | .finite value _, .finite value' _ => value' ≤ value

/-- The exponent of the unit in the last place of the doubles about a number. -/
def ulpExp (q : ℚ) : ℤ := max (Int.log 2 |q|) (-1022) - 52

/-- The unit in the last place of the doubles about a number. -/
def ulp (q : ℚ) : ℚ := 2 ^ ulpExp q

/-- The nearest integer, ties to even. -/
def nearestEven (q : ℚ) : ℤ :=
  let down := ⌊q⌋
  if q - down < 1 / 2 ∨ q - down = 1 / 2 ∧ down % 2 = 0 then down else down + 1

/-- The nearest multiple of the unit in the last place. -/
def near (q : ℚ) : ℚ := nearestEven (q / ulp q) * ulp q

/-- The nearest double. -/
def round (q : ℚ) : Double := ofRat (near q)

/-- `a / b`, for a number `b` that is not zero. -/
def quotient (a : ℚ) : Double → Double
  | .finite value _ => round (a / value)
  | .infinite _ => 0
  | .nan => .nan

/-! ## Nearest integers -/

theorem nearestEven_le {q : ℚ} {n : ℤ} (h : q ≤ n) : nearestEven q ≤ n := by
  have hfloor := Int.floor_le q
  unfold nearestEven
  simp only
  split
  · exact Int.floor_le_iff.mpr (h.trans_lt (by linarith))
  · rename_i hup
    rw [not_or, not_lt] at hup
    have hlt : (⌊q⌋ : ℚ) < n := by linarith
    exact Int.add_one_le_iff.mpr (by exact_mod_cast hlt)

theorem le_nearestEven {q : ℚ} {n : ℤ} (h : (n : ℚ) ≤ q) : n ≤ nearestEven q := by
  have hfloor := Int.le_floor.mpr h
  unfold nearestEven
  simp only
  split <;> omega

theorem nearestEven_intCast (n : ℤ) : nearestEven n = n := le_antisymm (nearestEven_le le_rfl) (le_nearestEven le_rfl)

theorem abs_nearestEven_sub_le (q : ℚ) : |nearestEven q - q| ≤ 1 / 2 := by
  have hfloor := Int.floor_le q
  have hlt := Int.lt_floor_add_one q
  unfold nearestEven
  simp only
  split
  · rename_i h
    have hhalf : q - ⌊q⌋ ≤ 1 / 2 := h.elim le_of_lt fun h => h.1.le
    rw [abs_sub_comm, abs_of_nonneg (by linarith)]
    exact hhalf
  · rename_i h
    rw [not_or, not_lt] at h
    push_cast
    rw [abs_of_nonneg (by linarith)]
    linarith

theorem nearestEven_mono {p q : ℚ} (h : p ≤ q) : nearestEven p ≤ nearestEven q := by
  rcases (Int.floor_mono h).lt_or_eq with hlt | heq
  · -- an integer lies between
    have hp : nearestEven p ≤ ⌊p⌋ + 1 := nearestEven_le (by push_cast; exact (Int.lt_floor_add_one p).le)
    have hq : ⌊q⌋ ≤ nearestEven q := le_nearestEven (Int.floor_le q)
    omega
  · unfold nearestEven
    simp only [heq]
    split
    · split <;> omega
    · rename_i hp
      rw [if_neg]
      rw [not_or, not_lt, not_and] at hp ⊢
      refine ⟨by linarith, fun hq => hp.2 ?_⟩
      linarith

/-! ## Rounding -/

theorem ulp_pos (q : ℚ) : 0 < ulp q := zpow_pos (by norm_num) _

theorem ulpExp_mono {p q : ℚ} (hp : 0 < p) (h : p ≤ q) : ulpExp p ≤ ulpExp q := by
  have hlog : Int.log 2 |p| ≤ Int.log 2 |q| :=
    Int.log_mono_right (abs_pos.mpr hp.ne') (by rwa [abs_of_pos hp, abs_of_pos (hp.trans_le h)])
  unfold ulpExp
  omega

/-- The doubles below `2 ^ k` have units of at most `2 ^ (k - 53)`. -/
theorem ulpExp_le {q : ℚ} {k : ℤ} (hq : 0 < q) (h : q < 2 ^ k) (hk : -1021 ≤ k) : ulpExp q ≤ k - 53 := by
  have hlog : Int.log 2 q < k := (Int.lt_zpow_iff_log_lt (by norm_num) hq).mp h
  unfold ulpExp
  rw [abs_of_pos hq]
  omega

theorem ulpExp_le_of_nonneg {q : ℚ} {k : ℤ} (hq : 0 ≤ q) (h : q < 2 ^ k) (hk : 1 ≤ k) : ulpExp q ≤ k - 53 := by
  rcases hq.eq_or_lt with rfl | hpos
  · rw [ulpExp, abs_zero, Int.log_zero_right]
    omega
  · exact ulpExp_le hpos h (by omega)

/-- A multiple of a power of two that is a unit at least. -/
theorem mul_zpow_eq {q : ℚ} {k : ℤ} (hk : ulpExp q ≤ k) (m : ℤ) :
    (m : ℚ) * 2 ^ k = (m * 2 ^ (k - ulpExp q).toNat : ℤ) * ulp q := by
  have hexp : (2 : ℚ) ^ k = 2 ^ (k - ulpExp q).toNat * 2 ^ ulpExp q := by
    rw [← zpow_natCast, ← zpow_add₀ (by norm_num), Int.toNat_of_nonneg (by omega)]
    congr 1
    omega
  rw [ulp, hexp]
  push_cast
  ring

/-- Nothing is rounded up across a double. -/
theorem near_le {q : ℚ} {k m : ℤ} (hk : ulpExp q ≤ k) (h : q ≤ m * 2 ^ k) : near q ≤ m * 2 ^ k := by
  rw [mul_zpow_eq hk] at h ⊢
  refine mul_le_mul_of_nonneg_right ?_ (ulp_pos q).le
  exact_mod_cast nearestEven_le ((div_le_iff₀ (ulp_pos q)).mpr h)

/-- Nothing is rounded down across a double. -/
theorem le_near {q : ℚ} {k m : ℤ} (hk : ulpExp q ≤ k) (h : m * 2 ^ k ≤ q) : m * 2 ^ k ≤ near q := by
  rw [mul_zpow_eq hk] at h ⊢
  refine mul_le_mul_of_nonneg_right ?_ (ulp_pos q).le
  exact_mod_cast le_nearestEven ((le_div_iff₀ (ulp_pos q)).mpr h)

/-- A double is left as it is. -/
theorem near_eq {q : ℚ} {k m : ℤ} (hk : ulpExp q ≤ k) (h : q = m * 2 ^ k) : near q = q := by
  apply le_antisymm
  · exact (near_le hk h.le).trans_eq h.symm
  · exact h.trans_le (le_near hk h.ge)

theorem near_zero : near 0 = 0 := near_eq (m := 0) le_rfl (by norm_num)

theorem abs_near_sub_le (q : ℚ) : |near q - q| ≤ ulp q / 2 := by
  have hulp := ulp_pos q
  have heq : near q - q = (nearestEven (q / ulp q) - q / ulp q) * ulp q := by
    rw [near, sub_mul, div_mul_cancel₀ _ hulp.ne']
  rw [heq, abs_mul, abs_of_pos hulp]
  calc |nearestEven (q / ulp q) - q / ulp q| * ulp q ≤ 1 / 2 * ulp q :=
        mul_le_mul_of_nonneg_right (abs_nearestEven_sub_le _) hulp.le
    _ = ulp q / 2 := by ring

/-- Up to `2 ^ 53` the integers are doubles. -/
theorem near_le_int {q : ℚ} {n : ℤ} (hq : 0 ≤ q) (hlt : q < 2 ^ 53) (h : q ≤ n) : near q ≤ n := by
  have hulp := ulpExp_le_of_nonneg (k := 53) hq (by exact_mod_cast hlt) (by norm_num)
  simpa using near_le (k := 0) (by omega) (by simpa using h)

theorem near_natCast {n : ℕ} (h : n < 2 ^ 53) : near n = n := by
  have hulp := ulpExp_le_of_nonneg (q := n) (k := 53) (Nat.cast_nonneg _) (by exact_mod_cast h) (by norm_num)
  exact near_eq (k := 0) (m := n) (by omega) (by simp)

theorem near_nonneg {q : ℚ} (h : 0 ≤ q) : 0 ≤ near q := by
  simpa using le_near (m := 0) (le_refl (ulpExp q)) (by simpa using h)

theorem near_mono {p q : ℚ} (hp : 0 ≤ p) (h : p ≤ q) : near p ≤ near q := by
  rcases hp.eq_or_lt with rfl | hp
  · rw [near_zero]
    exact near_nonneg h
  have hq := hp.trans_le h
  rcases (ulpExp_mono hp h).lt_or_eq with hlt | heq
  · -- the power of two at the foot of the binade of `q` lies between
    have hlog : ulpExp q = Int.log 2 q - 52 ∧ Int.log 2 p < Int.log 2 q := by
      unfold ulpExp at hlt ⊢
      rw [abs_of_pos hp, abs_of_pos hq] at *
      omega
    have hfoot : (2 : ℚ) ^ Int.log 2 q ≤ q := by
      exact_mod_cast Int.zpow_log_le_self (b := 2) (by norm_num) hq
    have hbelow : p ≤ 2 ^ Int.log 2 q :=
      le_of_lt (by exact_mod_cast (Int.lt_zpow_iff_log_lt (b := 2) (by norm_num) hp).mpr hlog.2)
    calc near p ≤ (1 : ℤ) * 2 ^ Int.log 2 q := near_le (by omega) (by simpa using hbelow)
      _ ≤ near q := le_near (by omega) (by simpa using hfoot)
  · rw [near, near, ulp, ulp, heq]
    refine mul_le_mul_of_nonneg_right ?_ (zpow_pos (by norm_num) _).le
    exact_mod_cast nearestEven_mono (div_le_div_of_nonneg_right h (zpow_pos (by norm_num) _).le)

theorem ulp_le {q : ℚ} (h : 2 ^ (-1074 : ℤ) ≤ q) : ulp q ≤ q := by
  have hq : 0 < q := lt_of_lt_of_le (zpow_pos (by norm_num) _) h
  rw [ulp, ulpExp, abs_of_pos hq]
  rcases le_total (Int.log 2 q) (-1022) with hle | hle
  · rw [max_eq_right hle]
    exact h
  · rw [max_eq_left hle]
    calc (2 : ℚ) ^ (Int.log 2 q - 52) ≤ 2 ^ Int.log 2 q := zpow_le_zpow_right₀ (by norm_num) (by omega)
      _ ≤ q := by exact_mod_cast Int.zpow_log_le_self (b := 2) (by norm_num) hq

theorem near_pos {q : ℚ} (h : 2 ^ (-1074 : ℤ) ≤ q) : 0 < near q := by
  calc 0 < ulp q := ulp_pos q
    _ = (1 : ℤ) * 2 ^ ulpExp q := by rw [Int.cast_one, one_mul, ulp]
    _ ≤ near q := le_near le_rfl (by simpa [ulp] using ulp_le h)

theorem ofRat_of_le {q : ℚ} (h : |q| ≤ maxDouble) : ofRat q = .finite q h := dif_pos h

theorem round_eq {q value : ℚ} (h : near q = value) (hbounded : |value| ≤ maxDouble) :
    round q = .finite value hbounded := by
  subst h
  exact ofRat_of_le hbounded

/-- A larger number is no less than what a smaller one is no less than. -/
theorem ge_ofRat_mono {p q : ℚ} (hp : 0 ≤ p) (h : p ≤ q) {x : Double} (hge : (ofRat p).ge x = true) :
    (ofRat q).ge x = true := by
  have hq := hp.trans h
  simp only [ofRat, abs_of_nonneg hp] at hge
  simp only [ofRat, abs_of_nonneg hq]
  cases x with
  | nan =>
    split at hge <;> simp [ge] at hge
  | infinite negative =>
    split at hge
    · split
      · simpa [ge] using hge
      · simp [ge, not_lt.mpr hq]
    · rename_i hlarge
      rw [dif_neg fun hle => hlarge (h.trans hle)]
      simp [ge, not_lt.mpr hq]
  | finite value =>
    split at hge
    · split
      · exact decide_eq_true ((of_decide_eq_true hge).trans h)
      · simp [ge, not_lt.mpr hq]
    · rename_i hlarge
      rw [dif_neg fun hle => hlarge (h.trans hle)]
      simp [ge, not_lt.mpr hq]

theorem ge_finite_iff {q value : ℚ} {h : |value| ≤ maxDouble} (hq : 0 ≤ q) :
    (ofRat q).ge (.finite value h) = true ↔ value ≤ q := by
  by_cases hbounded : |q| ≤ maxDouble
  · rw [ofRat_of_le hbounded, ge, decide_eq_true_eq]
  · have hlarge : value ≤ q := by
      rw [abs_of_nonneg hq, not_le] at hbounded
      exact (le_abs_self value).trans (h.trans hbounded.le)
    simp [ofRat, hbounded, ge, not_lt.mpr hq, hlarge]

/-- What is at least the smallest positive double is not rounded to zero. -/
theorem round_pos {q : ℚ} (h : 2 ^ (-1074 : ℤ) ≤ q) : round q ≠ 0 := by
  have hvalue := near_pos h
  unfold round ofRat
  split
  · intro heq
    rw [show (0 : Double) = .finite 0 zero_bounded from rfl, finite.injEq] at heq
    exact absurd heq (ne_of_gt hvalue)
  · exact Double.noConfusion

theorem maxDouble_le : maxDouble ≤ 2 ^ (1024 : ℤ) := by
  calc maxDouble ≤ 2 ^ 53 * 2 ^ 971 := mul_le_mul_of_nonneg_right (by norm_num) (by positivity)
    _ = 2 ^ (1024 : ℤ) := by rw [← pow_add]; rfl

/-- A quotient by a positive double underflows only when the dividend is very small. -/
theorem quotient_ne_zero {a : ℚ} (ha : 1 ≤ a) {value : ℚ} (h : |value| ≤ maxDouble) (hpos : 0 < value) :
    quotient a (.finite value h) ≠ 0 := by
  refine round_pos ?_
  rw [abs_of_pos hpos] at h
  rw [le_div_iff₀ hpos]
  calc (2 : ℚ) ^ (-1074 : ℤ) * value ≤ 2 ^ (-1074 : ℤ) * 2 ^ (1024 : ℤ) :=
        mul_le_mul_of_nonneg_left (h.trans maxDouble_le) (zpow_pos (by norm_num) _).le
    _ = 2 ^ (-50 : ℤ) := by rw [← zpow_add₀ (by norm_num)]; rfl
    _ ≤ 1 := zpow_le_one_of_nonpos₀ (by norm_num) (by norm_num)
    _ ≤ a := ha

end Double
