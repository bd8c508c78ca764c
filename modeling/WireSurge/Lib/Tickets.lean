import Mathlib.Logic.Function.Basic
import Mathlib.Logic.Relation

/-!
# Tickets

A dispenser gives out the numbers `0, 1, 2, …` in order, each to an owner that
holds none. The owner uses its ticket, or loses it where `L` lets it. No ticket
is used twice (`Valid`), and one that cannot be lost is used or held
(`Covers`). So once no ticket is held, those used are exactly the ones below any
bound that the dispenser has come to and the losses and uses keep to
(`perm_range`).
-/

open Function (update)

/-- Numbers in turn: each is drawn, held, and used or lost. -/
structure Tickets (ι : Type) where
  next : Nat
  held : ι → Option Nat
  /-- The latest first. -/
  used : List Nat

namespace Tickets

variable {ι : Type} {L L' : Nat → Prop} {s t : Tickets ι} {w w' : ι} {i : Nat}

/-- No ticket is used twice, or held when it is used. -/
structure Valid (t : Tickets ι) : Prop where
  nodup : t.used.Nodup
  used_lt {i : Nat} : i ∈ t.used → i < t.next
  held_lt {w : ι} {i : Nat} : t.held w = some i → i < t.next
  not_used {w : ι} {i : Nat} : t.held w = some i → i ∉ t.used
  owner {w w' : ι} {i : Nat} : t.held w = some i → t.held w' = some i → w = w'

/-- Every ticket given out that cannot be lost is used or held. -/
def Covers (L : Nat → Prop) (t : Tickets ι) : Prop := ∀ i < t.next, L i ∨ i ∈ t.used ∨ ∃ w, t.held w = some i

theorem Valid.start (h : t.used = []) (h' : ∀ w, t.held w = none) : Valid t where
  nodup := by rw [h]; exact .nil
  used_lt hi := by rw [h] at hi; cases hi
  held_lt hi := by rw [h'] at hi; cases hi
  not_used hi := by rw [h'] at hi; cases hi
  owner hi := by rw [h'] at hi; cases hi

theorem Covers.start (h : t.next = 0) : Covers L t := fun i hi => by rw [h] at hi; omega

theorem Covers.mono (h : Covers L t) (hL : ∀ i, L i → L' i) : Covers L' t := fun i hi => (h i hi).imp_left (hL i)

/-- All tickets below `n` are used, and no other. -/
theorem perm_range {n : Nat} (hv : Valid t) (hc : Covers L t) (hL : ∀ i, L i → n ≤ i) (hu : ∀ i ∈ t.used, i < n)
    (hn : n ≤ t.next) (hh : ∀ w, t.held w = none) : t.used.Perm (List.range n) := by
  refine (List.perm_ext_iff_of_nodup hv.nodup List.nodup_range).mpr fun i => ?_
  rw [List.mem_range]
  refine ⟨hu i, fun hi => ?_⟩
  rcases hc i (Nat.lt_of_lt_of_le hi hn) with h | h | ⟨w, h⟩
  · exact absurd (hL i h) (Nat.not_le.mpr hi)
  · exact h
  · rw [hh w] at h
    cases h

/-! ## Steps -/

variable [DecidableEq ι]

/-- `w` takes the next number. -/
def draw (t : Tickets ι) (w : ι) : Tickets ι :=
  { t with next := t.next + 1, held := update t.held w (some t.next) }

/-- `w` has used its number. -/
def use (t : Tickets ι) (w : ι) (i : Nat) : Tickets ι :=
  { t with held := update t.held w none, used := i :: t.used }

/-- `w` has lost its number. -/
def lose (t : Tickets ι) (w : ι) : Tickets ι := { t with held := update t.held w none }

/-- What can be done with the numbers, where those of `L` may be lost. -/
inductive Step (L : Nat → Prop) (t : Tickets ι) : Tickets ι → Prop
  | draw {w : ι} : t.held w = none → Step L t (t.draw w)
  | use {w : ι} {i : Nat} : t.held w = some i → Step L t (t.use w i)
  | lose {w : ι} {i : Nat} : t.held w = some i → L i → Step L t (t.lose w)

@[simp] theorem held_draw : (t.draw w).held = update t.held w (some t.next) := rfl
@[simp] theorem held_lose : (t.lose w).held = update t.held w none := rfl

theorem held_of_draw (h : (t.draw w).held w' = some i) : w' = w ∧ i = t.next ∨ w' ≠ w ∧ t.held w' = some i := by
  by_cases hw : w' = w
  · subst hw
    rw [held_draw, Function.update_self] at h
    exact .inl ⟨rfl, (Option.some.inj h).symm⟩
  · rw [held_draw, Function.update_of_ne hw] at h
    exact .inr ⟨hw, h⟩

theorem held_of_lose (h : (t.lose w).held w' = some i) : w' ≠ w ∧ t.held w' = some i := by
  by_cases hw : w' = w
  · subst hw
    rw [held_lose, Function.update_self] at h
    cases h
  · rw [held_lose, Function.update_of_ne hw] at h
    exact ⟨hw, h⟩

/-- Whoever held a ticket still does, or is the owner that gave its own up. -/
theorem held_lose_or (h : t.held w' = some i) : (t.lose w).held w' = some i ∨ t.held w = some i := by
  by_cases hw : w' = w
  · exact .inr (hw ▸ h)
  · exact .inl (by rw [held_lose, Function.update_of_ne hw, h])

theorem Valid.step (hv : Valid s) (h : Step L s t) : Valid t := by
  cases h with
  | draw hw =>
    refine ⟨hv.nodup, fun hi => Nat.lt_succ_of_lt (hv.used_lt hi), fun h => ?_, fun h => ?_, fun h h' => ?_⟩
    · rcases held_of_draw h with ⟨-, rfl⟩ | ⟨-, h⟩
      · exact Nat.lt_succ_self _
      · exact Nat.lt_succ_of_lt (hv.held_lt h)
    · rcases held_of_draw h with ⟨-, rfl⟩ | ⟨-, h⟩
      · exact fun hi => absurd (hv.used_lt hi) (Nat.lt_irrefl _)
      · exact hv.not_used h
    · rcases held_of_draw h with ⟨hw, hi⟩ | ⟨-, hs⟩ <;> rcases held_of_draw h' with ⟨hw', hi'⟩ | ⟨-, hs'⟩
      · rw [hw, hw']
      · exact absurd (hi ▸ hv.held_lt hs') (Nat.lt_irrefl _)
      · exact absurd (hi' ▸ hv.held_lt hs) (Nat.lt_irrefl _)
      · exact hv.owner hs hs'
  | use hw =>
    refine ⟨List.nodup_cons.mpr ⟨hv.not_used hw, hv.nodup⟩, fun hj => ?_, fun h => hv.held_lt (held_of_lose h).2,
      fun h hj => ?_, fun h h' => hv.owner (held_of_lose h).2 (held_of_lose h').2⟩
    · rcases List.mem_cons.mp hj with rfl | hj
      · exact hv.held_lt hw
      · exact hv.used_lt hj
    · obtain ⟨hne, hs⟩ := held_of_lose h
      rcases List.mem_cons.mp hj with rfl | hj
      · exact hne (hv.owner hs hw)
      · exact hv.not_used hs hj
  | lose hw hL =>
    exact ⟨hv.nodup, hv.used_lt, fun h => hv.held_lt (held_of_lose h).2, fun h => hv.not_used (held_of_lose h).2,
      fun h h' => hv.owner (held_of_lose h).2 (held_of_lose h').2⟩

theorem Covers.step (hc : Covers L s) (h : Step L s t) : Covers L t := by
  cases h with
  | @draw w hw =>
    intro i hi
    by_cases hn : i = s.next
    · exact .inr (.inr ⟨w, by rw [hn, held_draw, Function.update_self]⟩)
    · rcases hc i (Nat.lt_of_le_of_ne (Nat.le_of_lt_succ hi) hn) with h | h | ⟨w', h⟩
      · exact .inl h
      · exact .inr (.inl h)
      · have hne : w' ≠ w := by rintro rfl; rw [hw] at h; cases h
        exact .inr (.inr ⟨w', by rw [held_draw, Function.update_of_ne hne, h]⟩)
  | @use w j hw =>
    intro i hi
    rcases hc i hi with h | h | ⟨w', h⟩
    · exact .inl h
    · exact .inr (.inl (List.mem_cons_of_mem _ h))
    · rcases held_lose_or h with h | h
      · exact .inr (.inr ⟨w', h⟩)
      · rw [hw] at h
        exact .inr (.inl (Option.some.inj h ▸ List.mem_cons_self ..))
  | @lose w j hw hL =>
    intro i hi
    rcases hc i hi with h | h | ⟨w', h⟩
    · exact .inl h
    · exact .inr (.inl h)
    · rcases held_lose_or h with h | h
      · exact .inr (.inr ⟨w', h⟩)
      · rw [hw] at h
        exact .inl (Option.some.inj h ▸ hL)

/-- Any number of steps. -/
def Steps (L : Nat → Prop) : Tickets ι → Tickets ι → Prop := Relation.ReflTransGen (Step L)

theorem Steps.refl (t : Tickets ι) : Steps L t t := Relation.ReflTransGen.refl

theorem Steps.single (h : Step L s t) : Steps L s t := Relation.ReflTransGen.single h

/-- An owner draws a ticket, and uses it at once. -/
theorem Steps.drawUse (h : t.held w = none) :
    Steps L t { next := t.next + 1, held := update t.held w none, used := t.next :: t.used } := by
  have hs : Steps L t ((t.draw w).use w t.next) := .tail (.single (.draw h)) (.use (Function.update_self ..))
  rwa [use, held_draw, Function.update_idem] at hs

/-- An owner draws a ticket, and loses it at once. -/
theorem Steps.drawLose (h : t.held w = none) (hL : L t.next) :
    Steps L t { t with next := t.next + 1, held := update t.held w none } := by
  have hs : Steps L t ((t.draw w).lose w) := .tail (.single (.draw h)) (.lose (Function.update_self ..) hL)
  rwa [lose, held_draw, Function.update_idem] at hs

theorem Valid.steps (hv : Valid s) (h : Steps L s t) : Valid t := by
  induction h with
  | refl => exact hv
  | tail _ h ih => exact ih.step h

theorem Covers.steps (hc : Covers L s) (h : Steps L s t) : Covers L t := by
  induction h with
  | refl => exact hc
  | tail _ h ih => exact ih.step h

end Tickets
