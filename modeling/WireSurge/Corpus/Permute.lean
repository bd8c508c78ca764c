import Mathlib.Data.Nat.Bitwise
import Mathlib.Data.Fintype.Card
import WireSurge.Corpus.Select
import WireSurge.Lib.CycleWalk

/-!
# The seeded permutation

`feistel` permutes the values of `2 * halfBits` bits (`feistel_inj`), whatever
its round function, and every index below `n` is one of them
(`lt_two_pow_halfBits`). So the walk of `permute_index` ends, and permutes the
indices below `n` (`permuteIndex_perm`). `permuteIndex_bijective` says it of the
rows of a corpus.
-/

namespace WireSurge.Corpus

open Function (Injective)

/-! ## The network -/

/-- The half of a value that `mask` leaves. -/
theorem toNat_and_mask (x : UInt64) {k : Nat} {mask : UInt64} (hm : mask.toNat = 2 ^ k - 1) :
    (x &&& mask).toNat = x.toNat % 2 ^ k := by
  rw [UInt64.toNat_and, hm, Nat.and_two_pow_sub_one_eq_mod]

theorem toNat_mask {h : UInt64} (hh : h.toNat ≤ 32) : ((1 <<< h) - 1 : UInt64).toNat = 2 ^ h.toNat - 1 := by
  have hlt : 2 ^ h.toNat < 2 ^ 64 := Nat.pow_lt_pow_right (by decide) (by omega)
  have h1 : (1 <<< h : UInt64).toNat = 2 ^ h.toNat := by
    rw [UInt64.toNat_shiftLeft, Nat.mod_eq_of_lt (by omega : h.toNat < 64), UInt64.toNat_one, Nat.one_shiftLeft,
      Nat.mod_eq_of_lt hlt]
  rw [UInt64.toNat_sub_of_le _ _ (UInt64.le_iff_toNat_le.mpr ?_), h1, UInt64.toNat_one]
  rw [h1, UInt64.toNat_one]
  exact Nat.one_le_two_pow

/-- Halves of `k` bits. -/
def Halves (k : Nat) (halves : UInt64 × UInt64) : Prop := halves.1.toNat < 2 ^ k ∧ halves.2.toNat < 2 ^ k

section

variable {k : Nat} {h mask seed : UInt64}

theorem feistelRound_inj {round : UInt64} {x y : UInt64 × UInt64}
    (heq : feistelRound mask seed round x = feistelRound mask seed round y) : x = y := by
  obtain ⟨l, r⟩ := x
  obtain ⟨l', r'⟩ := y
  simp only [feistelRound, Prod.mk.injEq] at heq
  obtain ⟨rfl, hl⟩ := heq
  -- the other half is the same, so what is mixed in cancels
  rw [(UInt64.xor_left_inj _).mp hl]

theorem Halves.feistelRound (hm : mask.toNat = 2 ^ k - 1) (round : UInt64) {x : UInt64 × UInt64} (hx : Halves k x) :
    Halves k (feistelRound mask seed round x) := by
  refine ⟨hx.2, ?_⟩
  simp only [Corpus.feistelRound, UInt64.toNat_xor]
  refine Nat.xor_lt_two_pow hx.1 ?_
  rw [toNat_and_mask _ hm]
  exact Nat.mod_lt _ (Nat.two_pow_pos k)

theorem rounds_inj {rounds : List UInt64} {x y : UInt64 × UInt64}
    (heq : rounds.foldl (fun halves round => feistelRound mask seed round halves) x =
      rounds.foldl (fun halves round => feistelRound mask seed round halves) y) : x = y := by
  induction rounds generalizing x y with
  | nil => exact heq
  | cons round rounds ih => exact feistelRound_inj (ih heq)

theorem Halves.rounds (hm : mask.toNat = 2 ^ k - 1) (seed : UInt64) (rounds : List UInt64) {x : UInt64 × UInt64}
    (hx : Halves k x) :
    Halves k (rounds.foldl (fun halves round => Corpus.feistelRound mask seed round halves) x) := by
  induction rounds generalizing x with
  | nil => exact hx
  | cons round rounds ih => exact ih (hx.feistelRound hm round)

/-- The halves of a value. -/
def split (h mask input : UInt64) : UInt64 × UInt64 := ((input >>> h) &&& mask, input &&& mask)

/-- The value of two halves. -/
def join (h : UInt64) (halves : UInt64 × UInt64) : UInt64 := (halves.1 <<< h) ||| halves.2

theorem feistel_eq (input h mask seed : UInt64) : feistel input h mask seed =
    join h ([0, 1, 2, 3].foldl (fun halves round => feistelRound mask seed round halves) (split h mask input)) := rfl

theorem toNat_split (hh : h.toNat ≤ 32) (hm : mask.toNat = 2 ^ h.toNat - 1) (input : UInt64) :
    (split h mask input).1.toNat = input.toNat / 2 ^ h.toNat % 2 ^ h.toNat ∧
      (split h mask input).2.toNat = input.toNat % 2 ^ h.toNat := by
  refine ⟨?_, toNat_and_mask _ hm⟩
  rw [split, toNat_and_mask _ hm, UInt64.toNat_shiftRight, Nat.mod_eq_of_lt (by omega : h.toNat < 64),
    Nat.shiftRight_eq_div_pow]

theorem toNat_join (hh : h.toNat ≤ 32) {x : UInt64 × UInt64} (hx : Halves h.toNat x) :
    (join h x).toNat = x.1.toNat * 2 ^ h.toNat + x.2.toNat := by
  have hpow : 2 ^ h.toNat * 2 ^ h.toNat ≤ 2 ^ 64 := by
    rw [← Nat.pow_add]
    exact Nat.pow_le_pow_right (by decide) (by omega)
  have hlt : x.1.toNat * 2 ^ h.toNat < 2 ^ 64 :=
    Nat.lt_of_lt_of_le (Nat.mul_lt_mul_of_pos_right hx.1 (Nat.two_pow_pos _)) hpow
  rw [join, UInt64.toNat_or, UInt64.toNat_shiftLeft, Nat.mod_eq_of_lt (by omega : h.toNat < 64),
    Nat.shiftLeft_eq, Nat.mod_eq_of_lt hlt, ← Nat.shiftLeft_eq, Nat.shiftLeft_add_eq_or_of_lt hx.2]

theorem halves_split (hh : h.toNat ≤ 32) (hm : mask.toNat = 2 ^ h.toNat - 1) (input : UInt64) :
    Halves h.toNat (split h mask input) := by
  obtain ⟨h1, h2⟩ := toNat_split hh hm input
  rw [Halves, h1, h2]
  exact ⟨Nat.mod_lt _ (Nat.two_pow_pos _), Nat.mod_lt _ (Nat.two_pow_pos _)⟩

theorem feistel_lt (hh : h.toNat ≤ 32) (hm : mask.toNat = 2 ^ h.toNat - 1) (input : UInt64) :
    (feistel input h mask seed).toNat < 2 ^ (2 * h.toNat) := by
  have hx := (halves_split hh hm input).rounds hm seed [0, 1, 2, 3]
  rw [feistel_eq, toNat_join hh hx, Nat.two_mul, Nat.pow_add]
  calc _ < _ * 2 ^ h.toNat + 2 ^ h.toNat := Nat.add_lt_add_left hx.2 _
    _ = (_ + 1) * 2 ^ h.toNat := (Nat.succ_mul _ _).symm
    _ ≤ 2 ^ h.toNat * 2 ^ h.toNat := Nat.mul_le_mul_right _ hx.1

theorem split_inj (hh : h.toNat ≤ 32) (hm : mask.toNat = 2 ^ h.toNat - 1) {a b : UInt64}
    (ha : a.toNat < 2 ^ (2 * h.toNat)) (hb : b.toNat < 2 ^ (2 * h.toNat)) (heq : split h mask a = split h mask b) :
    a = b := by
  have hdiv {a : UInt64} (ha : a.toNat < 2 ^ (2 * h.toNat)) : (split h mask a).1.toNat = a.toNat / 2 ^ h.toNat := by
    rw [(toNat_split hh hm a).1, Nat.mod_eq_of_lt (Nat.div_lt_of_lt_mul ?_)]
    rwa [← Nat.pow_add, ← Nat.two_mul]
  have h1 := hdiv ha
  have h2 := (toNat_split hh hm a).2
  rw [heq, hdiv hb] at h1
  rw [heq, (toNat_split hh hm b).2] at h2
  rw [← UInt64.toNat_inj, ← Nat.div_add_mod a.toNat (2 ^ h.toNat), ← h1, ← h2, Nat.div_add_mod]

theorem join_inj (hh : h.toNat ≤ 32) {x y : UInt64 × UInt64} (hx : Halves h.toNat x) (hy : Halves h.toNat y)
    (heq : join h x = join h y) : x = y := by
  have hj := congrArg UInt64.toNat heq
  rw [toNat_join hh hx, toNat_join hh hy] at hj
  have h2 := congrArg (· % 2 ^ h.toNat) hj
  simp only [Nat.mul_add_mod_of_lt hx.2, Nat.mul_add_mod_of_lt hy.2] at h2
  rw [h2, Nat.add_right_cancel_iff] at hj
  exact Prod.ext (UInt64.toNat_inj.mp (Nat.eq_of_mul_eq_mul_right (Nat.two_pow_pos _) hj)) (UInt64.toNat_inj.mp h2)

/-- The network is injective on the values of twice the half's bits. -/
theorem feistel_inj (hh : h.toNat ≤ 32) (hm : mask.toNat = 2 ^ h.toNat - 1) {a b : UInt64}
    (ha : a.toNat < 2 ^ (2 * h.toNat)) (hb : b.toNat < 2 ^ (2 * h.toNat))
    (heq : feistel a h mask seed = feistel b h mask seed) : a = b := by
  have hx := (halves_split hh hm a).rounds hm seed [0, 1, 2, 3]
  have hy := (halves_split hh hm b).rounds hm seed [0, 1, 2, 3]
  rw [feistel_eq, feistel_eq] at heq
  exact split_inj hh hm ha hb (rounds_inj (join_inj hh hx hy heq))

end

/-! ## The walk -/

/-- The half of the bits that `n - 1` has, at least one. -/
def halfBits (n : UInt64) : UInt64 := UInt64.ofNat (max (((n - 1).toNat.log2 + 1 + 1) / 2) 1)

theorem log2_lt (n : UInt64) : (n - 1).toNat.log2 < 64 := by
  by_cases h : (n - 1).toNat = 0
  · rw [h]
    decide
  · exact (Nat.log2_lt h).mpr (n - 1).toNat_lt

theorem toNat_halfBits (n : UInt64) : (halfBits n).toNat = max (((n - 1).toNat.log2 + 1 + 1) / 2) 1 := by
  have := log2_lt n
  exact UInt64.toNat_ofNat_of_lt' (by rw [UInt64.size]; omega)

theorem halfBits_le (n : UInt64) : (halfBits n).toNat ≤ 32 := by
  have := log2_lt n
  rw [toNat_halfBits]
  omega

/-- Every index below `n` is a value of the network. -/
theorem lt_two_pow_halfBits {n v : UInt64} (h : v < n) : v.toNat < 2 ^ (2 * (halfBits n).toNat) := by
  have hn : (n - 1).toNat = n.toNat - 1 :=
    UInt64.toNat_sub_of_le _ _ (UInt64.le_iff_toNat_le.mpr (by have := UInt64.lt_iff_toNat_lt.mp h; simp; omega))
  have hv : v.toNat ≤ (n - 1).toNat := by
    have := UInt64.lt_iff_toNat_lt.mp h
    omega
  calc v.toNat ≤ (n - 1).toNat := hv
    _ < 2 ^ ((n - 1).toNat.log2 + 1) := Nat.lt_log2_self
    _ ≤ 2 ^ (2 * (halfBits n).toNat) := Nat.pow_le_pow_right (by decide) (by rw [toNat_halfBits]; omega)

theorem permuteIndex_of_lt {i n seed : UInt64} (hn : 1 < n) : permuteIndex i n seed =
    cycleWalk n (halfBits n) ((1 <<< halfBits n) - 1) seed (2 ^ 64) (i % n) := by
  rw [permuteIndex, if_neg (UInt64.not_le.mpr hn)]
  rfl

theorem cycleWalk_eq_walk (n h mask seed : UInt64) (fuel : Nat) (v : UInt64) :
    cycleWalk n h mask seed fuel v = CycleWalk.walk (fun v => feistel v h mask seed) (· < n) fuel v := by
  induction fuel generalizing v with
  | zero => rfl
  | succ fuel ih => simp only [cycleWalk, CycleWalk.walk, ih]

theorem mod_lt {n : UInt64} (hn : 1 ≤ n) (i : UInt64) : i % n < n :=
  UInt64.mod_lt i (by rw [UInt64.lt_iff_toNat_lt]; exact UInt64.le_iff_toNat_le.mp hn)

/-- The values of the network for `n`. -/
abbrev Value (n : UInt64) := Fin (2 ^ (2 * (halfBits n).toNat))

theorem card_value_le (n : UInt64) : 2 ^ (2 * (halfBits n).toNat) ≤ 2 ^ 64 :=
  Nat.pow_le_pow_right (by decide) (by have := halfBits_le n; omega)

def Value.toUInt64 {n : UInt64} (v : Value n) : UInt64 := UInt64.ofNat v

theorem Value.toNat_toUInt64 {n : UInt64} (v : Value n) : v.toUInt64.toNat = v :=
  UInt64.toNat_ofNat_of_lt' (Nat.lt_of_lt_of_le v.isLt (card_value_le n))

theorem Value.toUInt64_inj {n : UInt64} : Injective (Value.toUInt64 (n := n)) := fun v w h =>
  Fin.ext (by rw [← v.toNat_toUInt64, ← w.toNat_toUInt64, h])

/-- The network on its values. -/
def network (n seed : UInt64) (v : Value n) : Value n :=
  ⟨(feistel v.toUInt64 (halfBits n) ((1 <<< halfBits n) - 1) seed).toNat,
    feistel_lt (halfBits_le n) (toNat_mask (halfBits_le n)) _⟩

theorem network_inj (n seed : UInt64) : Injective (network n seed) := by
  intro v w h
  have hf : (network n seed v).val = (network n seed w).val := by rw [h]
  refine Value.toUInt64_inj (feistel_inj (halfBits_le n) (toNat_mask (halfBits_le n)) ?_ ?_ (UInt64.toNat_inj.mp hf))
  · rw [v.toNat_toUInt64]
    exact v.isLt
  · rw [w.toNat_toUInt64]
    exact w.isLt

/-- The loop of `permute_index` ends for every index, and what it gives is a
permutation of the indices below `n`. -/
theorem permuteIndex_perm {n : UInt64} (hn : 1 ≤ n) (seed : UInt64) :
    ∃ σ : Equiv.Perm {v : UInt64 // v < n}, ∀ i, permuteIndex i n seed = some (σ ⟨i % n, mod_lt hn i⟩).1 := by
  by_cases h1 : n = 1
  · subst h1
    exact ⟨1, fun i => congrArg some (UInt64.lt_one_iff.mp (mod_lt hn i)).symm⟩
  have hcard : Fintype.card (Value n) ≤ 2 ^ 64 := by
    rw [Fintype.card_fin]
    exact card_value_le n
  obtain ⟨σ, hσ⟩ := CycleWalk.exists_perm (p := (· < n))
    (f := fun v => feistel v (halfBits n) ((1 <<< halfBits n) - 1) seed)
    (e := Value.toUInt64) (g := network n seed) (fun _ => UInt64.ofNat_toNat.symm) Value.toUInt64_inj
    (network_inj n seed) (fun v hv => ⟨⟨v.toNat, lt_two_pow_halfBits hv⟩, UInt64.ofNat_toNat⟩)
    hcard
  refine ⟨σ, fun i => ?_⟩
  rw [permuteIndex_of_lt (UInt64.lt_of_le_of_ne hn (Ne.symm h1)), cycleWalk_eq_walk]
  exact hσ ⟨i % n, mod_lt hn i⟩

/-- A block of `n` numbers has one of each remainder. -/
theorem existsUnique_block {n base v : Nat} (hb : n ∣ base) (hv : v < n) :
    ∃! idx, (base ≤ idx ∧ idx < base + n) ∧ idx % n = v := by
  obtain ⟨q, rfl⟩ := hb
  refine ⟨n * q + v, ⟨⟨by omega, by omega⟩, ?_⟩, fun idx ⟨⟨hle, hlt⟩, hmod⟩ => ?_⟩
  · rw [Nat.mul_add_mod, Nat.mod_eq_of_lt hv]
  · have hq : idx / n = q :=
      Nat.div_eq_of_lt_le (by rwa [Nat.mul_comm]) (by rw [Nat.succ_mul, Nat.mul_comm]; exact hlt)
    rw [← Nat.div_add_mod idx n, hq, hmod]

theorem selectIndex_permute {c : Corpus} {n : UInt64} (hc : c.len = n.toNat) {idx seed : UInt64} {row : Nat}
    (hrow : row < 2 ^ 64) : c.selectIndex idx seed .randomPermute = some row ↔
      permuteIndex idx n seed = some (UInt64.ofNat row) := by
  rw [Corpus.selectIndex, hc, UInt64.ofNat_toNat, Option.map_eq_some_iff]
  constructor
  · rintro ⟨v, hv, rfl⟩
    rw [hv, UInt64.ofNat_toNat]
  · exact fun h => ⟨_, h, UInt64.toNat_ofNat_of_lt' hrow⟩

/-- For every `n` and seed, `permute_index` ends for every index, gives each
index below `n` for one index below `n`, and depends on its index by the
remainder alone. So in the permutation mode a block of `n` consecutive query
indices that starts at a multiple of `n` selects each row of a corpus once. -/
theorem permuteIndex_bijective (n seed : UInt64) (hn : 1 ≤ n) :
    (∀ i, ∃ v, v < n ∧ permuteIndex i n seed = some v) ∧
    (∀ v, v < n → ∃! i, i < n ∧ permuteIndex i n seed = some v) ∧
    (∀ i, permuteIndex i n seed = permuteIndex (i % n) n seed) ∧
    (∀ c : Corpus, c.len = n.toNat → ∀ base, n.toNat ∣ base → base + n.toNat ≤ 2 ^ 64 →
      ∀ row, row < n.toNat →
        ∃! idx, (base ≤ idx ∧ idx < base + n.toNat) ∧
          c.selectIndex (UInt64.ofNat idx) seed .randomPermute = some row) := by
  obtain ⟨σ, hσ⟩ := permuteIndex_perm hn seed
  -- what is given for an index is given for its remainder
  have hiff (i : UInt64) (v : {v : UInt64 // v < n}) : permuteIndex i n seed = some v.1 ↔ i % n = (σ.symm v).1 := by
    rw [hσ, Option.some.injEq, ← Subtype.ext_iff, ← Equiv.eq_symm_apply, Subtype.ext_iff]
  refine ⟨fun i => ⟨_, (σ ⟨i % n, mod_lt hn i⟩).2, hσ i⟩, fun v hv => ?_, fun i => ?_,
    fun c hc base hb hle row hrow => ?_⟩
  · have hmod {i : UInt64} (hi : i < n) : i % n = i := UInt64.mod_eq_of_lt hi
    refine ⟨(σ.symm ⟨v, hv⟩).1, ⟨(σ.symm ⟨v, hv⟩).2, (hiff _ ⟨v, hv⟩).mpr (hmod (σ.symm ⟨v, hv⟩).2)⟩, ?_⟩
    rintro i ⟨hi, hv'⟩
    rw [← hmod hi]
    exact (hiff i ⟨v, hv⟩).mp hv'
  · have hmod : i % n % n = i % n := UInt64.mod_eq_of_lt (mod_lt hn i)
    rw [hσ, hσ (i % n)]
    simp only [hmod]
  · have hrow' : UInt64.ofNat row < n := by
      rw [UInt64.lt_iff_toNat_lt, UInt64.toNat_ofNat_of_lt' (Nat.lt_trans hrow n.toNat_lt)]
      exact hrow
    have hsel (idx : Nat) (hidx : idx < 2 ^ 64) : c.selectIndex (UInt64.ofNat idx) seed .randomPermute = some row ↔
        idx % n.toNat = (σ.symm ⟨_, hrow'⟩).1.toNat := by
      rw [selectIndex_permute hc (Nat.lt_trans hrow n.toNat_lt), hiff _ ⟨_, hrow'⟩, ← UInt64.toNat_inj,
        UInt64.toNat_mod, UInt64.toNat_ofNat_of_lt' hidx]
    obtain ⟨idx, ⟨hin, hmod⟩, huniq⟩ := existsUnique_block hb (v := (σ.symm ⟨_, hrow'⟩).1.toNat)
      (UInt64.lt_iff_toNat_lt.mp (σ.symm ⟨_, hrow'⟩).2)
    exact ⟨idx, ⟨hin, (hsel idx (by omega)).mpr hmod⟩, fun idx' ⟨hin', h'⟩ =>
      huniq idx' ⟨hin', (hsel idx' (by omega)).mp h'⟩⟩

def fiveRows : Corpus := ⟨[97], List.replicate 5 (0, 1), by simp⟩

/-- `permuteIndex_bijective` for five rows, and the second block of their indices. -/
theorem permuteIndex_bijective_five :
    (∃! i, i < 5 ∧ permuteIndex i 5 7 = some 2) ∧
      ∃! idx, (5 ≤ idx ∧ idx < 10) ∧ fiveRows.selectIndex (UInt64.ofNat idx) 7 .randomPermute = some 4 := by
  obtain ⟨-, hv, -, hb⟩ := permuteIndex_bijective 5 7 (by decide)
  exact ⟨hv 2 (by decide), hb fiveRows rfl 5 ⟨1, rfl⟩ (by decide) 4 (by decide)⟩

end WireSurge.Corpus
