import WireSurge.Lib.Str

/-!
# Base64 for URLs

The unpadded encoding with the URL-safe alphabet: four digits of six bits for each
three bytes, and two or three for those that are left. `decode?` takes the digits of
a last group only when their spare bits are zero. It undoes `encode` (`decode?_encode`).
-/

namespace Base64

open Str (Text)

/-- The characters of base64url. -/
def alphabet : Text := "ABCDEFGHIJKLMNOPQRSTUVWXYZabcdefghijklmnopqrstuvwxyz0123456789-_".toList

/-- The character of six bits. -/
def digit (n : Nat) : Char := alphabet.getD n 'A'

/-- The six bits of a character. -/
def value? (c : Char) : Option Nat := alphabet.idxOf? c

/-- Three bytes as four characters; no padding at the end. -/
def encode : List UInt8 → Text
  | [] => []
  | [a] => [digit (a.toNat / 4), digit (a.toNat % 4 * 16)]
  | [a, b] => [digit (a.toNat / 4), digit (a.toNat % 4 * 16 + b.toNat / 16), digit (b.toNat % 16 * 4)]
  | a :: b :: c :: rest =>
    digit (a.toNat / 4) :: digit (a.toNat % 4 * 16 + b.toNat / 16) :: digit (b.toNat % 16 * 4 + c.toNat / 64) ::
      digit (c.toNat % 64) :: encode rest

/-- The bytes of a text that has them. -/
def decode? : Text → Option (List UInt8)
  | [] => some []
  | [_] => none
  | [x, y] => do
    let x ← value? x
    let y ← value? y
    if y % 16 = 0 then some [UInt8.ofNat (x * 4 + y / 16)] else none
  | [x, y, z] => do
    let x ← value? x
    let y ← value? y
    let z ← value? z
    if z % 4 = 0 then some [UInt8.ofNat (x * 4 + y / 16), UInt8.ofNat (y % 16 * 16 + z / 4)] else none
  | x :: y :: z :: w :: rest => do
    let x ← value? x
    let y ← value? y
    let z ← value? z
    let w ← value? w
    let bytes ← decode? rest
    return UInt8.ofNat (x * 4 + y / 16) :: UInt8.ofNat (y % 16 * 16 + z / 4) :: UInt8.ofNat (z % 4 * 64 + w) :: bytes

theorem value?_digit {n : Nat} (h : n < 64) : value? (digit n) = some n := by
  have hall : ∀ n < 64, value? (digit n) = some n := by decide +kernel
  exact hall n h

theorem digit_mem (n : Nat) : digit n ∈ alphabet := by
  rw [digit, List.getD_eq_getElem?_getD]
  cases h : alphabet[n]? with
  | none => decide
  | some c => exact List.mem_of_getElem? h

theorem mem_alphabet {c : Char} : ∀ bytes : List UInt8, c ∈ encode bytes → c ∈ alphabet
  | [], h => (List.not_mem_nil h).elim
  | [a], h => by
    simp only [encode, List.mem_cons, List.not_mem_nil, or_false] at h
    rcases h with rfl | rfl <;> exact digit_mem _
  | [a, b], h => by
    simp only [encode, List.mem_cons, List.not_mem_nil, or_false] at h
    rcases h with rfl | rfl | rfl <;> exact digit_mem _
  | a :: b :: c :: rest, h => by
    simp only [encode, List.mem_cons] at h
    rcases h with rfl | rfl | rfl | rfl | h
    · exact digit_mem _
    · exact digit_mem _
    · exact digit_mem _
    · exact digit_mem _
    · exact mem_alphabet rest h

/-- A byte from its upper and its lower bits. -/
theorem ofNat_eq {a : UInt8} {n : Nat} (h : n = a.toNat) : UInt8.ofNat n = a := by
  rw [h, UInt8.ofNat_toNat]

theorem decode?_encode : ∀ bytes : List UInt8, decode? (encode bytes) = some bytes
  | [] => rfl
  | [a] => by
    have ha := a.toNat_lt
    have hx : value? (digit (a.toNat / 4)) = some (a.toNat / 4) := value?_digit (by omega)
    have hy : value? (digit (a.toNat % 4 * 16)) = some (a.toNat % 4 * 16) := value?_digit (by omega)
    have hspare : a.toNat % 4 * 16 % 16 = 0 := by omega
    have hbyte : UInt8.ofNat (a.toNat / 4 * 4 + a.toNat % 4 * 16 / 16) = a := ofNat_eq (by omega)
    simp only [encode, decode?, hx, hy, hspare, if_true, bind, Option.bind, hbyte]
  | [a, b] => by
    have ha := a.toNat_lt
    have hb := b.toNat_lt
    have hx : value? (digit (a.toNat / 4)) = some (a.toNat / 4) := value?_digit (by omega)
    have hy : value? (digit (a.toNat % 4 * 16 + b.toNat / 16)) = some (a.toNat % 4 * 16 + b.toNat / 16) :=
      value?_digit (by omega)
    have hz : value? (digit (b.toNat % 16 * 4)) = some (b.toNat % 16 * 4) := value?_digit (by omega)
    have hspare : b.toNat % 16 * 4 % 4 = 0 := by omega
    have hfirst : UInt8.ofNat (a.toNat / 4 * 4 + (a.toNat % 4 * 16 + b.toNat / 16) / 16) = a := ofNat_eq (by omega)
    have hsecond : UInt8.ofNat ((a.toNat % 4 * 16 + b.toNat / 16) % 16 * 16 + b.toNat % 16 * 4 / 4) = b :=
      ofNat_eq (by omega)
    simp only [encode, decode?, hx, hy, hz, hspare, if_true, bind, Option.bind, hfirst, hsecond]
  | a :: b :: c :: rest => by
    have ha := a.toNat_lt
    have hb := b.toNat_lt
    have hc := c.toNat_lt
    have hx : value? (digit (a.toNat / 4)) = some (a.toNat / 4) := value?_digit (by omega)
    have hy : value? (digit (a.toNat % 4 * 16 + b.toNat / 16)) = some (a.toNat % 4 * 16 + b.toNat / 16) :=
      value?_digit (by omega)
    have hz : value? (digit (b.toNat % 16 * 4 + c.toNat / 64)) = some (b.toNat % 16 * 4 + c.toNat / 64) :=
      value?_digit (by omega)
    have hw : value? (digit (c.toNat % 64)) = some (c.toNat % 64) := value?_digit (by omega)
    have hfirst : UInt8.ofNat (a.toNat / 4 * 4 + (a.toNat % 4 * 16 + b.toNat / 16) / 16) = a := ofNat_eq (by omega)
    have hsecond : UInt8.ofNat ((a.toNat % 4 * 16 + b.toNat / 16) % 16 * 16 +
        (b.toNat % 16 * 4 + c.toNat / 64) / 4) = b := ofNat_eq (by omega)
    have hthird : UInt8.ofNat ((b.toNat % 16 * 4 + c.toNat / 64) % 4 * 64 + c.toNat % 64) = c := ofNat_eq (by omega)
    simp only [encode, decode?, hx, hy, hz, hw, decode?_encode rest, bind, Option.bind, pure, hfirst, hsecond, hthird]

example : encode [0x00, 0x10, 0x83, 0xFB, 0xFF] = "ABCD-_8".toList := by decide

end Base64
