import Mathlib.Data.List.Basic
import Mathlib.Data.UInt

/-!
# Formats

A format of values as bytes (`Codec`): a value has one text, and what is read off the
front of some input is the value whose text stands there, with the rest of the input
(`read_iff`). So reading a text gives its value back whatever follows, and nothing
else reads as it. Codecs are put together as the formats are: a pair, a value behind a
key that says how it is written (`behind`), so many values (`times`), values up to a
mark (`upTo`), and values up to the end of the input (`readAll`).
-/

/-- A reader and a writer: what is read is what was written, and what is left is behind
it. -/
structure Codec (α : Type) where
  write : α → List UInt8
  read : List UInt8 → Option (α × List UInt8)
  read_iff {input rest : List UInt8} {a : α} : read input = some (a, rest) ↔ input = write a ++ rest

namespace Codec

variable {α β : Type}

theorem read_write (c : Codec α) (a : α) (rest : List UInt8) : c.read (c.write a ++ rest) = some (a, rest) :=
  c.read_iff.mpr rfl

/-! ## Numbers -/

/-- One byte. -/
def byte : Codec UInt8 where
  write b := [b]
  read
    | [] => none
    | b :: rest => some (b, rest)
  read_iff {input rest b} := by
    cases input with
    | nil => simp
    | cons b' input => simp

/-- A number of two bytes, the high one first. -/
def u16 : Codec UInt16 where
  write n := [UInt8.ofNat (n.toNat / 256), UInt8.ofNat (n.toNat % 256)]
  read
    | hi :: lo :: rest => some (UInt16.ofNat (256 * hi.toNat + lo.toNat), rest)
    | _ => none
  read_iff {input rest n} := by
    have hn := n.toNat_lt
    match input with
    | [] => simp
    | [b] => simp
    | hi :: lo :: input =>
      have hhi := hi.toNat_lt
      have hlo := lo.toNat_lt
      simp only [Option.some.injEq, Prod.mk.injEq, List.cons_append, List.nil_append, List.cons.injEq,
        ← UInt8.toNat_inj, ← UInt16.toNat_inj, UInt8.toNat_ofNat', UInt16.toNat_ofNat', ← and_assoc]
      refine and_congr_left fun _ => ?_
      omega

/-! ## Sequences -/

/-- A value as another. -/
def as (c : Codec α) (f : α → Option β) (g : β → α) (h : ∀ {a b}, f a = some b ↔ a = g b) : Codec β where
  write b := c.write (g b)
  read input := (c.read input).bind fun (a, rest) => (f a).map fun b => (b, rest)
  read_iff {input rest b} := by
    simp only [Option.bind_eq_some_iff, Option.map_eq_some_iff, Prod.mk.injEq]
    constructor
    · rintro ⟨⟨a, rest'⟩, hread, b', (hb : f a = some b'), rfl, rfl⟩
      rw [c.read_iff.mp hread, h.mp hb]
    · intro heq
      exact ⟨(g b, rest), c.read_iff.mpr heq, b, h.mpr rfl, rfl, rfl⟩

/-- The values that satisfy `p`. -/
def only (c : Codec α) (p : α → Prop) [DecidablePred p] : Codec { a : α // p a } :=
  c.as (fun a => if h : p a then some ⟨a, h⟩ else none) Subtype.val fun {a b} => by
    constructor
    · intro h
      split at h
      · cases h; rfl
      · cases h
    · rintro rfl
      rw [dif_pos b.2]

/-- One value behind another. -/
def pair (c : Codec α) (d : Codec β) : Codec (α × β) where
  write x := c.write x.1 ++ d.write x.2
  read input := (c.read input).bind fun (a, input) => (d.read input).map fun (b, rest) => ((a, b), rest)
  read_iff {input rest x} := by
    simp only [Option.bind_eq_some_iff, Option.map_eq_some_iff, Prod.mk.injEq]
    constructor
    · rintro ⟨⟨a, input⟩, hc, ⟨b, rest'⟩, (hd : d.read input = _), rfl, rfl⟩
      rw [c.read_iff.mp hc, d.read_iff.mp hd, List.append_assoc]
    · intro heq
      rw [List.append_assoc] at heq
      exact ⟨(x.1, _), c.read_iff.mpr heq, (x.2, rest), d.read_iff.mpr rfl, rfl, rfl⟩

/-- A value behind its key. -/
def behind (c : Codec α) (key : β → α) (d : (a : α) → Codec { b : β // key b = a }) : Codec β where
  write b := c.write (key b) ++ (d (key b)).write ⟨b, rfl⟩
  read input := (c.read input).bind fun (a, input) => ((d a).read input).map fun (b, rest) => (b.1, rest)
  read_iff {input rest b} := by
    simp only [Option.bind_eq_some_iff, Option.map_eq_some_iff, Prod.mk.injEq]
    constructor
    · rintro ⟨⟨a, input⟩, hc, ⟨⟨b, ha⟩, rest'⟩, hd, rfl, rfl⟩
      obtain rfl : key b = a := ha
      have hd : (d (key b)).read input = some (⟨b, rfl⟩, rest') := hd
      rw [c.read_iff.mp hc, (d (key b)).read_iff.mp hd, List.append_assoc]
    · intro heq
      rw [List.append_assoc] at heq
      exact ⟨(key b, _), c.read_iff.mpr heq, (⟨b, rfl⟩, rest), (d (key b)).read_write _ _, rfl, rfl⟩

/-- A number of four bytes, the high one first. -/
def u32 : Codec UInt32 :=
  (u16.pair u16).as (fun (hi, lo) => some (UInt32.ofNat (65536 * hi.toNat + lo.toNat)))
    (fun n => (UInt16.ofNat (n.toNat / 65536), UInt16.ofNat (n.toNat % 65536))) fun {x n} => by
    obtain ⟨hi, lo⟩ := x
    have hhi := hi.toNat_lt
    have hlo := lo.toNat_lt
    have hn := n.toNat_lt
    simp only [Option.some.injEq, Prod.mk.injEq, ← UInt16.toNat_inj, ← UInt32.toNat_inj, UInt16.toNat_ofNat',
      UInt32.toNat_ofNat']
    omega

/-- The next `n` bytes. -/
def raw (n : Nat) : Codec { bytes : List UInt8 // bytes.length = n } where
  write := Subtype.val
  read input :=
    if h : n ≤ input.length then some (⟨input.take n, List.length_take_of_le h⟩, input.drop n) else none
  read_iff {input rest bytes} := by
    obtain ⟨bytes, rfl⟩ := bytes
    constructor
    · intro h
      split at h
      · simp only [Option.some.injEq, Prod.mk.injEq, Subtype.mk.injEq] at h
        obtain ⟨hbytes, rfl⟩ := h
        have hsplit := List.take_append_drop bytes.length input
        rw [hbytes] at hsplit
        exact hsplit.symm
      · cases h
    · rintro rfl
      simp

theorem eq_toNat_of_ofNat {k : Nat} {n : UInt16} (hk : k < 2 ^ 16) (h : UInt16.ofNat k = n) : k = n.toNat := by
  rw [← h, UInt16.toNat_ofNat', Nat.mod_eq_of_lt hk]

/-- Bytes that two bytes can count. -/
abbrev Sized := { bytes : List UInt8 // bytes.length < 2 ^ 16 }

/-- Bytes behind their number. -/
def sized : Codec Sized :=
  u16.behind (fun bytes => UInt16.ofNat bytes.1.length) fun n => (raw n.toNat).as
    (fun bytes => some ⟨⟨bytes.1, by rw [bytes.2]; exact n.toNat_lt⟩, by rw [bytes.2, UInt16.ofNat_toNat]⟩)
    (fun bytes => ⟨bytes.1.1, eq_toNat_of_ofNat bytes.1.2 bytes.2⟩)
    fun {a b} => by
      obtain ⟨a, ha⟩ := a
      obtain ⟨⟨b, hb⟩, hn⟩ := b
      simp

/-- `n` values. -/
def times (c : Codec α) : (n : Nat) → Codec { as : List α // as.length = n }
  | 0 => (raw 0).as (fun _ => some ⟨[], rfl⟩) (fun _ => ⟨[], rfl⟩) fun {a b} => by
    obtain ⟨bytes, hbytes⟩ := a
    obtain ⟨as, has⟩ := b
    cases List.length_eq_zero_iff.mp hbytes
    cases List.length_eq_zero_iff.mp has
    simp
  | n + 1 => (c.pair (times c n)).as (fun (a, as) => some ⟨a :: as.1, by rw [List.length_cons, as.2]⟩)
      (fun
        | ⟨a :: as, h⟩ => (a, ⟨as, Nat.succ.inj h⟩)) fun {x b} => by
    obtain ⟨a, as, has⟩ := x
    match b with
    | ⟨b :: bs, hbs⟩ => simp

theorem write_times (c : Codec α) : ∀ {n : Nat} (as : { as : List α // as.length = n }),
    (c.times n).write as = as.1.flatMap c.write
  | 0, ⟨as, h⟩ => by
    cases List.length_eq_zero_iff.mp h
    rfl
  | _ + 1, ⟨a :: as, h⟩ => congrArg (c.write a ++ ·) (write_times c ⟨as, Nat.succ.inj h⟩)

/-! ## Sequences up to a mark -/

/-- Values, up to the mark that reads as none. -/
def readUpTo (c : Codec (Option α)) : Nat → List UInt8 → Option (List α × List UInt8)
  | 0, _ => none
  | fuel + 1, input => (c.read input).bind fun
    | (none, rest) => some ([], rest)
    | (some a, input) => (readUpTo c fuel input).map fun (as, rest) => (a :: as, rest)

/-- Values, and what says that there are no more. -/
def writeUpTo (c : Codec (Option α)) (as : List α) : List UInt8 :=
  as.flatMap (fun a => c.write (some a)) ++ c.write none

theorem writeUpTo_cons (c : Codec (Option α)) (a : α) (as : List α) :
    c.writeUpTo (a :: as) = c.write (some a) ++ c.writeUpTo as := by
  rw [writeUpTo, writeUpTo, List.flatMap_cons, List.append_assoc]

theorem writeUpTo_of_read {c : Codec (Option α)} {fuel : Nat} {input rest : List UInt8} {as : List α}
    (h : c.readUpTo fuel input = some (as, rest)) : input = c.writeUpTo as ++ rest := by
  induction fuel generalizing input as with
  | zero => cases h
  | succ fuel ih =>
    obtain ⟨⟨o, input'⟩, hread, h⟩ := Option.bind_eq_some_iff.mp h
    rw [c.read_iff.mp hread]
    cases o with
    | none =>
      cases h
      rfl
    | some a =>
      obtain ⟨⟨as', rest'⟩, has, heq⟩ := Option.map_eq_some_iff.mp h
      cases heq
      rw [ih has, writeUpTo_cons, List.append_assoc]

theorem readUpTo_write {c : Codec (Option α)} (as : List α) (rest : List UInt8) {fuel : Nat} (h : as.length < fuel) :
    c.readUpTo fuel (c.writeUpTo as ++ rest) = some (as, rest) := by
  induction as generalizing fuel with
  | nil =>
    obtain ⟨fuel, rfl⟩ := Nat.exists_eq_succ_of_ne_zero (Nat.ne_of_gt h)
    rw [readUpTo, writeUpTo, List.flatMap_nil, List.nil_append, c.read_write]
    rfl
  | cons a as ih =>
    obtain ⟨fuel, rfl⟩ := Nat.exists_eq_succ_of_ne_zero (Nat.ne_of_gt (Nat.lt_of_le_of_lt (Nat.zero_le _) h))
    have hread := ih (Nat.lt_of_succ_lt_succ h)
    rw [readUpTo, writeUpTo_cons, List.append_assoc, c.read_write]
    show (c.readUpTo fuel (c.writeUpTo as ++ rest)).map _ = _
    rw [hread]
    rfl

theorem length_le_flatMap {f : α → List UInt8} (h : ∀ a, f a ≠ []) (as : List α) :
    as.length ≤ (as.flatMap f).length := by
  induction as with
  | nil => exact Nat.le_refl 0
  | cons a as ih =>
    have hpos := List.length_pos_iff.mpr (h a)
    rw [List.flatMap_cons, List.length_append, List.length_cons]
    omega

/-- The values up to the mark, none of which is written as nothing. -/
def upTo (c : Codec (Option α)) (h : ∀ o, c.write o ≠ []) : Codec (List α) where
  write := c.writeUpTo
  read input := c.readUpTo input.length input
  read_iff {input rest as} := by
    refine ⟨writeUpTo_of_read, ?_⟩
    rintro rfl
    apply readUpTo_write
    have hmark := List.length_pos_iff.mpr (h none)
    have hlen := length_le_flatMap (fun a => h (some a)) as
    rw [List.length_append, writeUpTo, List.length_append]
    omega

/-! ## Sequences up to the end -/

/-- Values up to the end of the input. -/
def readAll (c : Codec α) : Nat → List UInt8 → Option (List α)
  | _, [] => some []
  | 0, _ :: _ => none
  | fuel + 1, b :: input => (c.read (b :: input)).bind fun (a, input) => (readAll c fuel input).map (a :: ·)

/-- All the input is the texts of the values. -/
theorem readAll_iff {c : Codec α} (hc : ∀ a, c.write a ≠ []) {input : List UInt8} {as : List α} {fuel : Nat}
    (hfuel : input.length ≤ fuel) : c.readAll fuel input = some as ↔ input = as.flatMap c.write := by
  induction fuel generalizing input as with
  | zero =>
    obtain rfl := List.length_eq_zero_iff.mp (Nat.le_zero.mp hfuel)
    cases as with
    | nil => simp [readAll]
    | cons a as => simp [readAll, hc a]
  | succ fuel ih =>
    cases input with
    | nil =>
      cases as with
      | nil => simp [readAll]
      | cons a as => simp [readAll, hc a]
    | cons b input =>
      simp only [readAll, Option.bind_eq_some_iff, Option.map_eq_some_iff]
      constructor
      · rintro ⟨⟨a, rest⟩, hread, as', has, rfl⟩
        rw [c.read_iff] at hread
        have hle : rest.length ≤ fuel := by
          have hlen := congrArg List.length hread
          have hpos := List.length_pos_iff.mpr (hc a)
          rw [List.length_append, List.length_cons] at hlen
          rw [List.length_cons] at hfuel
          omega
        rw [hread, (ih hle).mp has, List.flatMap_cons]
      · intro h
        cases as with
        | nil => cases h
        | cons a as =>
          rw [List.flatMap_cons] at h
          refine ⟨(a, as.flatMap c.write), c.read_iff.mpr h, as, (ih ?_).mpr rfl, rfl⟩
          show (as.flatMap c.write).length ≤ fuel
          have hlen := congrArg List.length h
          have hpos := List.length_pos_iff.mpr (hc a)
          rw [List.length_append, List.length_cons] at hlen
          rw [List.length_cons] at hfuel
          omega

end Codec
