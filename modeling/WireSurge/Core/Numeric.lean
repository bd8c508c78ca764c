import Mathlib.Data.Nat.Log
import WireSurge.Core.Json
import WireSurge.Lib.Double

/-!
# Comparison by value

What `valuesMatch` has to do with the values that JSON stands for when every
number is read exactly (`read`). Two integers and two floats compare by value;
an integer is compared with a float after it is rounded, and a number inside an
array or an object is compared with its kind (`valuesMatch_iff`). Where neither
shows (`Comparable`), and only there, the comparison is that of the values.
-/

namespace WireSurge.Core

/-- A finite double. -/
def IsF64 (v : ℚ) : Prop := ∃ m e : ℤ, |m| < 2 ^ 53 ∧ -1074 ≤ e ∧ e ≤ 971 ∧ v = m * 2 ^ e

namespace Number

/-- The number itself. -/
def value : Number → ℚ
  | .posInt n => n.toNat
  | .negInt n => n.toInt
  | .float v => v

/-- A number that is written with a fraction or an exponent. -/
def isFloat : Number → Bool
  | .float _ => true
  | _ => false

/-- What `serde_json` keeps: a negative integer is negative, a float is one. -/
def Valid : Number → Prop
  | .posInt _ => True
  | .negInt n => n < 0
  | .float v => IsF64 v

end Number

/-- A JSON value with its numbers read. -/
inductive Value
  | null
  | bool (b : Bool)
  | number (q : ℚ)
  | string (s : String)
  | array (items : List Value)
  | object (fields : List (String × Value))

namespace Json

mutual

/-- The value that a JSON text stands for. -/
def read : Json → Value
  | .null => .null
  | .bool b => .bool b
  | .number n => .number n.value
  | .string s => .string s
  | .array items => .array (readItems items)
  | .object fields => .object (readFields fields)

def readItems : List Json → List Value
  | [] => []
  | j :: items => read j :: readItems items

def readFields : List (String × Json) → List (String × Value)
  | [] => []
  | (key, j) :: fields => (key, read j) :: readFields fields

end

mutual

/-- The numbers of a JSON text, in order. -/
def numbers : Json → List Number
  | .number n => [n]
  | .array items => numbersItems items
  | .object fields => numbersFields fields
  | _ => []

def numbersItems : List Json → List Number
  | [] => []
  | j :: items => numbers j ++ numbersItems items

def numbersFields : List (String × Json) → List Number
  | [] => []
  | (_, j) :: fields => numbers j ++ numbersFields fields

end

/-- Which of the numbers are floats. -/
def kinds (j : Json) : List Bool := j.numbers.map Number.isFloat

/-- Every number in the document is one that a parser makes. -/
def Valid (j : Json) : Prop := ∀ n ∈ j.numbers, n.Valid

theorem induction {P : Json → Prop} (null : P .null) (bool : ∀ b, P (.bool b)) (number : ∀ n, P (.number n))
    (string : ∀ s, P (.string s)) (array : ∀ items, (∀ j ∈ items, P j) → P (.array items))
    (object : ∀ fields : List (String × Json), (∀ field ∈ fields, P field.2) → P (.object fields)) (j : Json) :
    P j := by
  refine Json.rec (motive_1 := P) (motive_2 := fun items => ∀ j ∈ items, P j)
    (motive_3 := fun fields => ∀ field ∈ fields, P field.2) (motive_4 := fun field => P field.2)
    null bool number string array object ?_ ?_ ?_ ?_ ?_ j
  · exact fun j hj => absurd hj List.not_mem_nil
  · exact fun _ _ h hs j hj => (List.mem_cons.mp hj).elim (fun he => he ▸ h) (hs j)
  · exact fun field hf => absurd hf List.not_mem_nil
  · exact fun _ _ h hs field hf => (List.mem_cons.mp hf).elim (fun he => he ▸ h) (hs field)
  · exact fun _ _ h => h

theorem beqItems_iff {items : List Json} (h : ∀ j ∈ items, ∀ b, j.beq b = true ↔ j = b) (bs : List Json) :
    beqItems items bs = true ↔ items = bs := by
  induction items generalizing bs with
  | nil => cases bs <;> simp [beqItems]
  | cons j items ih =>
    cases bs with
    | nil => simp [beqItems]
    | cons b bs =>
      rw [beqItems, Bool.and_eq_true, h j List.mem_cons_self, ih (fun i hi => h i (List.mem_cons_of_mem _ hi)),
        List.cons.injEq]

theorem beqFields_iff {fields : List (String × Json)} (h : ∀ field ∈ fields, ∀ b, field.2.beq b = true ↔ field.2 = b)
    (bs : List (String × Json)) : beqFields fields bs = true ↔ fields = bs := by
  induction fields generalizing bs with
  | nil => cases bs <;> simp [beqFields]
  | cons field fields ih =>
    cases bs with
    | nil => simp [beqFields]
    | cons b bs =>
      rw [beqFields, Bool.and_eq_true, Bool.and_eq_true, h field List.mem_cons_self,
        ih (fun i hi => h i (List.mem_cons_of_mem _ hi)), List.cons.injEq, decide_eq_true_eq, Prod.ext_iff]

theorem beq_iff (a b : Json) : a.beq b = true ↔ a = b := by
  induction a using Json.induction generalizing b with
  | null => cases b <;> simp [beq]
  | bool x => cases b <;> simp [beq]
  | number n => cases b <;> simp [beq]
  | string s => cases b <;> simp [beq]
  | array items ih => cases b <;> simp [beq, beqItems_iff ih]
  | object fields ih => cases b <;> simp [beq, beqFields_iff ih]

/-! ## Values and kinds -/

end Json

/-- Numbers of one value and one kind are one number. -/
theorem Number.eq_of_value {m n : Number} (hm : m.Valid) (hn : n.Valid) (hvalue : m.value = n.value)
    (hkind : m.isFloat = n.isFloat) : m = n := by
  have hneg : ∀ i : Int64, i < 0 → (i.toInt : ℚ) < 0 := by
    intro i hi
    exact_mod_cast Int64.lt_iff_toInt_lt.mp hi
  have hpos : ∀ i : UInt64, (0 : ℚ) ≤ i.toNat := fun i => Nat.cast_nonneg _
  cases m with
  | float v =>
    cases n with
    | float w => exact congrArg Number.float hvalue
    | posInt | negInt => cases hkind
  | posInt i =>
    cases n with
    | posInt j =>
      simp only [value, Nat.cast_inj] at hvalue
      rw [UInt64.toNat_inj.mp hvalue]
    | negInt j =>
      simp only [value] at hvalue
      exact absurd (hpos i) (not_le.mpr (hvalue ▸ hneg j hn))
    | float => cases hkind
  | negInt i =>
    cases n with
    | posInt j =>
      simp only [value] at hvalue
      exact absurd (hpos j) (not_le.mpr (hvalue ▸ hneg i hm))
    | negInt j =>
      simp only [value, Int.cast_inj] at hvalue
      rw [Int64.toInt_inj.mp hvalue]
    | float => cases hkind

namespace Json

/-- What is to show of two JSON texts of one value: their numbers are as many,
and of one kind only where the texts are the same. -/
def Alike (as bs : List Number) (same : Prop) : Prop :=
  as.length = bs.length ∧
    ((∀ n ∈ as, n.Valid) → (∀ n ∈ bs, n.Valid) → as.map Number.isFloat = bs.map Number.isFloat → same)

theorem Alike.append {as as' bs bs' : List Number} {p q : Prop} (h : Alike as bs p) (h' : Alike as' bs' q) :
    Alike (as ++ as') (bs ++ bs') (p ∧ q) := by
  refine ⟨by rw [List.length_append, List.length_append, h.1, h'.1], fun ha hb hkinds => ?_⟩
  rw [List.map_append, List.map_append] at hkinds
  obtain ⟨hfront, hbehind⟩ := List.append_inj hkinds (by rw [List.length_map, List.length_map, h.1])
  exact ⟨h.2 (fun n hn => ha n (List.mem_append_left _ hn)) (fun n hn => hb n (List.mem_append_left _ hn)) hfront,
    h'.2 (fun n hn => ha n (List.mem_append_right _ hn)) (fun n hn => hb n (List.mem_append_right _ hn)) hbehind⟩

theorem Alike.imp {as bs : List Number} {p q : Prop} (h : Alike as bs p) (hpq : p → q) : Alike as bs q :=
  ⟨h.1, fun ha hb hkinds => hpq (h.2 ha hb hkinds)⟩

theorem alike_nil {p : Prop} (h : p) : Alike [] [] p := ⟨rfl, fun _ _ _ => h⟩

theorem alike_items {items : List Json}
    (h : ∀ j ∈ items, ∀ b, j.read = b.read → Alike j.numbers b.numbers (j = b)) {bs : List Json}
    (hread : readItems items = readItems bs) : Alike (numbersItems items) (numbersItems bs) (items = bs) := by
  induction items generalizing bs with
  | nil =>
    cases bs with
    | nil => exact alike_nil rfl
    | cons b bs => cases hread
  | cons j items ih =>
    cases bs with
    | nil => cases hread
    | cons b bs =>
      obtain ⟨hj, hitems⟩ := List.cons.inj hread
      have hrest := ih (fun i hi => h i (List.mem_cons_of_mem _ hi)) hitems
      refine ((h j List.mem_cons_self b hj).append hrest).imp fun he => ?_
      rw [he.1, he.2]

theorem alike_fields {fields : List (String × Json)}
    (h : ∀ field ∈ fields, ∀ b, field.2.read = b.read → Alike field.2.numbers b.numbers (field.2 = b))
    {bs : List (String × Json)} (hread : readFields fields = readFields bs) :
    Alike (numbersFields fields) (numbersFields bs) (fields = bs) := by
  induction fields generalizing bs with
  | nil =>
    cases bs with
    | nil => exact alike_nil rfl
    | cons b bs => cases hread
  | cons field fields ih =>
    cases bs with
    | nil => cases hread
    | cons b bs =>
      obtain ⟨hfield, hfields⟩ := List.cons.inj hread
      obtain ⟨hkey, hvalue⟩ := Prod.mk.inj hfield
      have hrest := ih (fun i hi => h i (List.mem_cons_of_mem _ hi)) hfields
      refine ((h field List.mem_cons_self b.2 hvalue).append hrest).imp fun he => ?_
      rw [Prod.ext hkey he.1, he.2]

theorem alike (a b : Json) (hread : a.read = b.read) : Alike a.numbers b.numbers (a = b) := by
  induction a using Json.induction generalizing b with
  | null => cases b with
    | null => exact alike_nil rfl
    | _ => cases hread
  | bool x => cases b with
    | bool y => exact alike_nil (congrArg Json.bool (Value.bool.inj hread))
    | _ => cases hread
  | string s => cases b with
    | string t => exact alike_nil (congrArg Json.string (Value.string.inj hread))
    | _ => cases hread
  | number m => cases b with
    | number n =>
      refine ⟨rfl, fun hm hn hkinds => congrArg Json.number ?_⟩
      exact Number.eq_of_value (hm m List.mem_cons_self) (hn n List.mem_cons_self) (Value.number.inj hread)
        (List.cons.inj hkinds).1
    | _ => cases hread
  | array items ih => cases b with
    | array bs => exact (alike_items ih (Value.array.inj hread)).imp (congrArg Json.array)
    | _ => cases hread
  | object fields ih => cases b with
    | object bs => exact (alike_fields ih (Value.object.inj hread)).imp (congrArg Json.object)
    | _ => cases hread

/-- Two valid JSON texts are the same if and only if they have one value and
their numbers one kind each. -/
theorem eq_iff_read {a b : Json} (ha : a.Valid) (hb : b.Valid) : a = b ↔ a.read = b.read ∧ a.kinds = b.kinds :=
  ⟨fun h => h ▸ ⟨rfl, rfl⟩, fun h => (alike a b h.1).2 ha hb h.2⟩

end Json

/-! ## Rounded integers -/

namespace Number

/-- The nearest double of a natural number, by its unit in the last place. -/
theorem natToF64_eq_near (n : Nat) : (natToF64 n : ℚ) = Double.near n := by
  have hlog : Double.ulpExp n = max (n.log2 : ℤ) (-1022) - 52 := by
    rw [Double.ulpExp, abs_of_nonneg (Nat.cast_nonneg _), Int.log_natCast, Nat.log2_eq_log_two]
  rcases Nat.lt_or_ge n.log2 52 with hlt | hge
  · have hnear : Double.near n = n := Double.near_eq (k := 0) (m := n) (by omega) (by simp)
    rw [hnear, natToF64, Nat.sub_eq_zero_of_le hlt.le]
    norm_num [Nat.mod_one]
  · have hulp : Double.ulp n = (2 ^ (n.log2 - 52) : ℕ) := by
      rw [Double.ulp, hlog, Nat.cast_pow, ← zpow_natCast]
      congr 1
      omega
    have hpos : 0 < 2 ^ (n.log2 - 52) := Nat.two_pow_pos _
    rw [Double.near, hulp, natToF64]
    generalize 2 ^ (n.log2 - 52) = u at hpos
    have hu : (0 : ℚ) < u := by exact_mod_cast hpos
    have hrest : (n : ℚ) / u - (n / u : ℕ) = (n % u : ℕ) / u := by
      have hdm : (n : ℚ) = u * (n / u : ℕ) + (n % u : ℕ) := by exact_mod_cast (Nat.div_add_mod n u).symm
      rw [sub_eq_iff_eq_add, div_eq_iff hu.ne', add_mul, div_mul_cancel₀ _ hu.ne', mul_comm _ (u : ℚ), add_comm]
      exact hdm
    have hdown : Double.nearestEven ((n : ℚ) / u) =
        (if 2 * (n % u) < u ∨ 2 * (n % u) = u ∧ n / u % 2 = 0 then (n / u : ℕ) else (n / u : ℕ) + 1 : ℤ) := by
      have hlt : ((n % u : ℕ) : ℚ) / u < 1 / 2 ↔ 2 * (n % u) < u := by
        rw [div_lt_div_iff₀ hu (by norm_num), one_mul, mul_comm]
        exact_mod_cast Iff.rfl
      have heq : ((n % u : ℕ) : ℚ) / u = 1 / 2 ↔ 2 * (n % u) = u := by
        rw [div_eq_div_iff hu.ne' (by norm_num), one_mul, mul_comm]
        exact_mod_cast Iff.rfl
      simp only [Double.nearestEven, Rat.floor_natCast_div_natCast, ← Int.natCast_div, Int.cast_natCast, hrest, hlt,
        heq]
      have heven : ((n / u : ℕ) : ℤ) % 2 = 0 ↔ n / u % 2 = 0 := by omega
      simp only [heven]
    rw [hdown]
    split
    · rw [Int.cast_natCast, Nat.cast_mul]
    · rw [Int.cast_add, Int.cast_one, Int.cast_natCast, Nat.cast_add, Nat.cast_mul]
      ring

theorem natToF64_mono {m n : Nat} (h : m ≤ n) : natToF64 m ≤ natToF64 n := by
  have hnear : Double.near m ≤ Double.near n := Double.near_mono (Nat.cast_nonneg _) (by exact_mod_cast h)
  rw [← natToF64_eq_near, ← natToF64_eq_near] at hnear
  exact_mod_cast hnear

end Number

/-- A double is its own nearest double. -/
theorem natToF64_of_isF64 {n : Nat} (h : IsF64 n) : Number.natToF64 n = n := by
  obtain ⟨m, e, hm, he, -, hn⟩ := h
  rcases n.eq_zero_or_pos with rfl | hpos
  · rfl
  have hlt : (n : ℚ) < 2 ^ (e + 53) := by
    have hm' : (m : ℚ) < 2 ^ 53 := by exact_mod_cast (le_abs_self m).trans_lt hm
    rw [hn, add_comm, zpow_add₀ (by norm_num)]
    exact mul_lt_mul_of_pos_right hm' (zpow_pos (by norm_num) e)
  have hulp := Double.ulpExp_le (by exact_mod_cast hpos) hlt (by omega)
  have heq : (Number.natToF64 n : ℚ) = n := by
    rw [Number.natToF64_eq_near, Double.near_eq (by omega) hn]
  exact_mod_cast heq

theorem IsF64.neg {v : ℚ} (h : IsF64 v) : IsF64 (-v) := by
  obtain ⟨m, e, hm, hlow, hhigh, rfl⟩ := h
  exact ⟨-m, e, by rwa [abs_neg], hlow, hhigh, by push_cast; ring⟩

namespace Number

/-- Rounding an integer that is a double leaves it as it is. -/
theorem asF64_of_isF64 {n : Number} (h : n.Valid) (hdouble : IsF64 n.value) : n.asF64 = n.value := by
  cases n with
  | float v => rfl
  | posInt i =>
    simp only [value, asF64] at hdouble ⊢
    rw [natToF64_of_isF64 hdouble]
  | negInt i =>
    have hneg : i.toInt < 0 := Int64.lt_iff_toInt_lt.mp h
    have habs : ((i.toInt.natAbs : ℕ) : ℚ) = -i.toInt := by
      rw [Nat.cast_natAbs, abs_of_neg hneg, Int.cast_neg]
    simp only [value, asF64, if_pos hneg] at hdouble ⊢
    rw [natToF64_of_isF64 (habs ▸ hdouble.neg), habs, neg_neg]

theorem value_of_asI64 {n : Number} {a : Int64} (h : n.asI64 = some a) : n.value = a.toInt := by
  cases n with
  | float v => cases h
  | negInt i =>
    obtain rfl := Option.some.inj h
    rfl
  | posInt i =>
    simp only [asI64] at h
    split at h
    · rename_i hlt
      obtain rfl := Option.some.inj h
      rw [value, Int64.toInt_ofNat_of_lt (by omega), Int.cast_natCast]
    · cases h

theorem natToF64_pos {n : Nat} (h : n ≠ 0) : 0 < natToF64 n := by
  have hulp : 2 ^ (n.log2 - 52) ≤ n := by
    calc 2 ^ (n.log2 - 52) ≤ 2 ^ n.log2 := Nat.pow_le_pow_right Nat.two_pos (Nat.sub_le _ _)
      _ ≤ n := Nat.log2_self_le h
  have hdown : 0 < n / 2 ^ (n.log2 - 52) * 2 ^ (n.log2 - 52) :=
    Nat.mul_pos (Nat.div_pos hulp (Nat.two_pow_pos _)) (Nat.two_pow_pos _)
  unfold natToF64
  simp only
  split <;> omega

theorem value_neg {j : Int64} (h : (negInt j).Valid) : (negInt j).value < 0 := by
  have hneg : j.toInt < 0 := Int64.lt_iff_toInt_lt.mp h
  rw [value]
  exact_mod_cast hneg

theorem asF64_neg {j : Int64} (h : (negInt j).Valid) : (negInt j).asF64 < 0 := by
  have hneg : j.toInt < 0 := Int64.lt_iff_toInt_lt.mp h
  have hpos := natToF64_pos (Int.natAbs_ne_zero.mpr hneg.ne)
  rw [asF64, if_pos hneg]
  exact neg_neg_of_pos (by exact_mod_cast hpos)

theorem value_nonneg (i : UInt64) : 0 ≤ (posInt i).value := Nat.cast_nonneg _

theorem asF64_nonneg (i : UInt64) : 0 ≤ (posInt i).asF64 := Nat.cast_nonneg _

end Number

namespace Json

theorem beq_comm (a b : Json) : a.beq b = b.beq a := by
  rw [Bool.eq_iff_iff, beq_iff, beq_iff]
  exact eq_comm

theorem valuesMatch_comm (a b : Json) : a.valuesMatch b = b.valuesMatch a := by
  unfold valuesMatch
  cases a.asNumber with
  | none => cases b.asNumber <;> exact beq_comm a b
  | some m =>
    cases b.asNumber with
    | none => exact beq_comm a b
    | some n =>
      -- the same comparison is reached from both sides
      dsimp only
      cases m.asI64 <;> cases n.asI64 <;> cases m.asU64 <;> cases n.asU64 <;> exact decide_eq_decide.mpr eq_comm

/-- Integers of two signs do not match. -/
theorem valuesMatch_signs {i : UInt64} {j : Int64} (h : (Number.negInt j).Valid) :
    (number (.posInt i)).valuesMatch (number (.negInt j)) = true ↔
      (Number.posInt i).value = (Number.negInt j).value := by
  have hvalue : (Number.posInt i).value ≠ (Number.negInt j).value :=
    ((Number.value_neg h).trans_le (Number.value_nonneg i)).ne'
  have hrounded : (Number.posInt i).asF64 ≠ (Number.negInt j).asF64 :=
    ((Number.asF64_neg h).trans_le (Number.asF64_nonneg i)).ne'
  refine iff_of_false ?_ hvalue
  simp only [valuesMatch, asNumber]
  split
  · rename_i a b ha hb
    intro heq
    apply hvalue
    rw [Number.value_of_asI64 ha, Number.value_of_asI64 hb, of_decide_eq_true heq]
  · simpa [Number.asU64] using hrounded

/-- Two integers are compared by value, and so are two floats. -/
theorem valuesMatch_numbers {m n : Number} (hm : m.Valid) (hn : n.Valid) (hkind : m.isFloat = n.isFloat) :
    (number m).valuesMatch (number n) = true ↔ m.value = n.value := by
  cases m with
  | float v => cases n with
    | float w => exact decide_eq_true_iff
    | posInt | negInt => cases hkind
  | posInt i => cases n with
    | posInt j =>
      simp only [valuesMatch, asNumber]
      split
      · rename_i a b ha hb
        rw [Number.value_of_asI64 ha, Number.value_of_asI64 hb, Int.cast_inj, Int64.toInt_inj, decide_eq_true_eq]
      · simp only [Number.asU64, Number.value, Nat.cast_inj, UInt64.toNat_inj, decide_eq_true_eq]
    | negInt j => exact valuesMatch_signs hn
    | float => cases hkind
  | negInt i => cases n with
    | posInt j => exact valuesMatch_comm _ _ ▸ (valuesMatch_signs hm).trans eq_comm
    | negInt j =>
      simp only [valuesMatch, asNumber, Number.asI64, Number.value, Int.cast_inj, Int64.toInt_inj, decide_eq_true_eq]
    | float => cases hkind

/-- An integer and a float are compared after rounding. -/
theorem valuesMatch_mixed {m n : Number} (hkind : m.isFloat ≠ n.isFloat) :
    (number m).valuesMatch (number n) = true ↔ m.asF64 = n.asF64 := by
  cases m <;> cases n <;> first | exact absurd rfl hkind | simp [valuesMatch, asNumber, Number.asI64, Number.asU64]

theorem valuesMatch_beq {a b : Json} (h : a.asNumber = none ∨ b.asNumber = none) :
    a.valuesMatch b = true ↔ a = b := by
  rw [← beq_iff, valuesMatch]
  split
  · rename_i m n hm hn
    rw [hm, hn] at h
    rcases h with h | h <;> cases h
  · rfl

/-- The two do not differ where `valuesMatch` goes wrong: an integer that is
rounded to the float it is compared with is equal to it, and below the top the
numbers of texts of one value are of one kind. -/
def Comparable (a b : Json) : Prop :=
  match a.asNumber, b.asNumber with
  | some m, some n => m.isFloat ≠ n.isFloat → m.asF64 = n.asF64 → m.value = n.value
  | _, _ => a.read = b.read → a.kinds = b.kinds

theorem number_of_asNumber {a : Json} {m : Number} (h : a.asNumber = some m) : a = number m := by
  cases a <;> cases h
  rfl

theorem valid_number {m : Number} : (number m).Valid ↔ m.Valid := List.forall_mem_singleton

theorem matches_read_iff {a b : Json} (ha : a.Valid) (hb : b.Valid) :
    (a.valuesMatch b = true ↔ a.read = b.read) ↔ Comparable a b := by
  unfold Comparable
  split
  · rename_i m n hm hn
    obtain rfl := number_of_asNumber hm
    obtain rfl := number_of_asNumber hn
    rw [valid_number] at ha hb
    rw [show ((number m).read = (number n).read) = (m.value = n.value) from Value.number.injEq _ _]
    by_cases hkind : m.isFloat = n.isFloat
    · exact iff_of_true (valuesMatch_numbers ha hb hkind) fun hne => absurd hkind hne
    · rw [valuesMatch_mixed hkind]
      have hexact : m.value = n.value → m.asF64 = n.asF64 := by
        intro hvalue
        have hdouble : IsF64 n.value := by
          cases m with
          | float v => exact hvalue ▸ ha
          | posInt | negInt =>
            cases n with
            | float w => exact hb
            | posInt | negInt => exact absurd rfl hkind
        rw [Number.asF64_of_isF64 ha (hvalue ▸ hdouble), Number.asF64_of_isF64 hb hdouble, hvalue]
      exact ⟨fun h _ => h.mp, fun h => ⟨h hkind, hexact⟩⟩
  · rename_i hnot
    have hnumber : a.asNumber = none ∨ b.asNumber = none := by
      cases ha : a.asNumber with
      | none => exact .inl rfl
      | some m =>
        cases hb : b.asNumber with
        | none => exact .inr rfl
        | some n => exact absurd hb (hnot m n ha)
    rw [valuesMatch_beq hnumber, eq_iff_read ha hb]
    exact ⟨fun h hread => (h.mpr hread).2, fun h => ⟨And.left, fun hread => ⟨hread, h hread⟩⟩⟩

/-- Valid texts match where they have one value if and only if they are
comparable; the comparison is reflexive and symmetric, and transitive among
comparable texts. -/
theorem valuesMatch_iff {a b : Json} (ha : a.Valid) (hb : b.Valid) :
    ((a.valuesMatch b = true ↔ a.read = b.read) ↔ Comparable a b) ∧ a.valuesMatch a = true ∧
      a.valuesMatch b = b.valuesMatch a ∧
      ∀ c : Json, c.Valid → Comparable a b → Comparable b c → Comparable a c →
        a.valuesMatch b = true → b.valuesMatch c = true → a.valuesMatch c = true := by
  have hself : Comparable a a := by
    unfold Comparable
    split
    · rename_i m n hm hn
      rw [hm] at hn
      obtain rfl := Option.some.inj hn
      exact fun h => absurd rfl h
    · exact fun _ => rfl
  refine ⟨matches_read_iff ha hb, ((matches_read_iff ha ha).mpr hself).mpr rfl, valuesMatch_comm a b, ?_⟩
  intro c hc hab hbc hac hmatch hmatch'
  have hread := ((matches_read_iff ha hb).mpr hab).mp hmatch
  have hread' := ((matches_read_iff hb hc).mpr hbc).mp hmatch'
  exact ((matches_read_iff ha hc).mpr hac).mpr (hread.trans hread')

theorem valid_posInt (n : UInt64) : (number (.posInt n)).Valid := (valid_number (m := .posInt n)).mpr trivial

theorem valid_float {v : ℚ} (h : IsF64 v) : (number (.float v)).Valid := (valid_number (m := .float v)).mpr h

theorem isF64_one : IsF64 1 := ⟨1, 0, by decide, by decide, by decide, by norm_num⟩

theorem valuesMatch_iff_one :
    (((number (.posInt 1)).valuesMatch (number (.float 1)) = true ↔
      (number (.posInt 1)).read = (number (.float 1)).read) ↔
      Comparable (number (.posInt 1)) (number (.float 1))) :=
  (valuesMatch_iff (valid_posInt 1) (valid_float isF64_one)).1

/-- `2 ^ 53 + 1` matches the double `2 ^ 53`, which is another number, and that
matches the integer `2 ^ 53`, which `2 ^ 53 + 1` does not match; `[1]` does not
match `[1.0]`, which is the same value. -/
theorem valuesMatch_aliased :
    ∃ a b c d e : Json, (a.Valid ∧ b.Valid ∧ a.valuesMatch b = true ∧ a.read ≠ b.read) ∧
      (c.Valid ∧ b.valuesMatch c = true ∧ a.valuesMatch c = false) ∧
      d.Valid ∧ e.Valid ∧ d.valuesMatch e = false ∧ d.read = e.read := by
  have hlarge : IsF64 9007199254740992 := ⟨4503599627370496, 1, by decide, by decide, by decide, by norm_num⟩
  refine ⟨number (.posInt 9007199254740993), number (.float 9007199254740992), number (.posInt 9007199254740992),
    array [number (.posInt 1)], array [number (.float 1)], ⟨valid_posInt _, valid_float hlarge, by decide, ?_⟩,
    ⟨valid_posInt _, by decide, by decide⟩, valid_posInt 1, valid_float isF64_one, by decide, ?_⟩
  · intro h
    exact absurd (Value.number.inj h) (by decide)
  · simp [read, readItems, Number.value]

end Json

end WireSurge.Core
