import Mathlib.Computability.Language

/-!
# Scanners and the languages they read

A scanner walks over a message by positions: from the position of a word it
answers the position after it. `Scans msg L f` says that `f` does this for
the words of a language `L`, and for nothing else, as far as the positions it
answers lie in the message; an answer past the end is a failure that a later
check has to catch. Scanners compose as languages do: `Scans.mul` (one after
the other), `Scans.pow` (a fixed number of times), `Scans.inside` (with the
missing check added).
-/

namespace Scanner

variable {α : Type} {msg : List α} {L M : Language α} {f g : Nat → Option Nat}

/-- The language of the words that satisfy `p`. -/
def words (p : List α → Prop) : Language α := {w | p w}

@[simp] theorem mem_words {p : List α → Prop} {w : List α} : w ∈ words p ↔ p w := Iff.rfl

/-- The word `w` stands in the message at `pos`. -/
def Spans (msg : List α) (pos : Nat) (w : List α) : Prop :=
  pos ≤ msg.length ∧ w <+: msg.drop pos

theorem Spans.end_le {pos : Nat} {w : List α} (h : Spans msg pos w) : pos + w.length ≤ msg.length := by
  have hl := h.2.length_le
  rw [List.length_drop] at hl
  have := h.1
  omega

theorem spans_nil {pos : Nat} : Spans msg pos [] ↔ pos ≤ msg.length := by
  simp [Spans]

theorem spans_append {pos : Nat} {v w : List α} :
    Spans msg pos (v ++ w) ↔ Spans msg pos v ∧ Spans msg (pos + v.length) w := by
  constructor
  · rintro ⟨hp, r, hr⟩
    have hv : Spans msg pos v := ⟨hp, w ++ r, by rw [← hr, List.append_assoc]⟩
    refine ⟨hv, hv.end_le, r, ?_⟩
    rw [← List.drop_drop, ← hr, List.append_assoc, List.drop_left]
  · rintro ⟨⟨hp, r, hr⟩, -, r', hr'⟩
    refine ⟨hp, r', ?_⟩
    rw [← List.drop_drop, ← hr, List.drop_left] at hr'
    rw [← hr, ← hr', List.append_assoc]

/-- The `n` items from `pos` on. -/
theorem spans_take {pos n : Nat} (h : pos + n ≤ msg.length) : Spans msg pos ((msg.drop pos).take n) :=
  ⟨by omega, List.take_prefix _ _⟩

theorem Spans.eq_take {pos : Nat} {w : List α} (h : Spans msg pos w) :
    w = (msg.drop pos).take w.length := (List.prefix_iff_eq_take.mp h.2)

/-- `f` answers a position inside the message exactly at the words of `L`. -/
def Scans (msg : List α) (L : Language α) (f : Nat → Option Nat) : Prop :=
  ∀ pos e, (f pos = some e ∧ e ≤ msg.length) ↔ ∃ w ∈ L, Spans msg pos w ∧ e = pos + w.length

/-- The scanner answers no position past the end. -/
def Inside (msg : List α) (f : Nat → Option Nat) : Prop := ∀ pos e, f pos = some e → e ≤ msg.length

theorem Scans.one : Scans msg 1 fun pos => some pos := by
  intro pos e
  simp only [Option.some.injEq, Language.mem_one, exists_eq_left, spans_nil, List.length_nil, Nat.add_zero]
  constructor
  · rintro ⟨rfl, h⟩
    exact ⟨h, rfl⟩
  · rintro ⟨h, rfl⟩
    exact ⟨rfl, h⟩

/-- One scanner after the other reads the product of their languages. -/
theorem Scans.mul (hf : Scans msg L f) (hg : Scans msg M g) :
    Scans msg (L * M) fun pos => (f pos).bind g := by
  intro pos e
  simp only [Option.bind_eq_some_iff, Language.mem_mul]
  constructor
  · rintro ⟨⟨p, hp, he⟩, hle⟩
    obtain ⟨w, hw, hs', rfl⟩ := (hg p e).mp ⟨he, hle⟩
    obtain ⟨v, hv, hs, rfl⟩ := (hf pos p).mp ⟨hp, hs'.1⟩
    exact ⟨v ++ w, ⟨v, hv, w, hw, rfl⟩, spans_append.mpr ⟨hs, hs'⟩, by rw [List.length_append, Nat.add_assoc]⟩
  · rintro ⟨-, ⟨v, hv, w, hw, rfl⟩, hs, rfl⟩
    obtain ⟨hs, hs'⟩ := spans_append.mp hs
    obtain ⟨hp, -⟩ := (hf pos _).mpr ⟨v, hv, hs, rfl⟩
    obtain ⟨he, hle⟩ := (hg _ _).mpr ⟨w, hw, hs', rfl⟩
    rw [List.length_append, ← Nat.add_assoc]
    exact ⟨⟨_, hp, he⟩, hle⟩

theorem Inside.bind (hg : Inside msg g) : Inside msg fun pos => (f pos).bind g := by
  intro pos e h
  obtain ⟨p, -, hp⟩ := Option.bind_eq_some_iff.mp h
  exact hg p e hp

/-- Adding the check for the end to a scanner changes nothing it reads. -/
theorem Scans.inside (h : Scans msg L f) :
    Scans msg L fun pos => (f pos).filter fun e => decide (e ≤ msg.length) := by
  intro pos e
  rw [← h]
  simp only [Option.filter_eq_some_iff, decide_eq_true_eq]
  tauto

theorem inside_filter : Inside msg fun pos => (f pos).filter fun e => decide (e ≤ msg.length) := by
  intro pos e h
  simpa using (Option.filter_eq_some_iff.mp h).2

/-- Skipping `n` items reads the words of length `n`. -/
theorem scans_add (n : Nat) : Scans msg (words fun w => w.length = n) fun pos => some (pos + n) := by
  intro pos e
  simp only [Option.some.injEq, mem_words]
  constructor
  · rintro ⟨rfl, h⟩
    have hl : ((msg.drop pos).take n).length = n := by rw [List.length_take, List.length_drop]; omega
    exact ⟨_, hl, spans_take h, by rw [hl]⟩
  · rintro ⟨w, rfl, hs, rfl⟩
    exact ⟨rfl, hs.end_le⟩

/-- `f`, `n` times. -/
def times (f : Nat → Option Nat) : Nat → Nat → Option Nat
  | 0, pos => some pos
  | n + 1, pos => (f pos).bind (times f n)

theorem Scans.pow (h : Scans msg L f) : ∀ n, Scans msg (L ^ n) (times f n)
  | 0 => by rw [pow_zero]; exact Scans.one
  | n + 1 => by rw [pow_succ']; exact h.mul (h.pow n)

/-- From a position in the message, a scanner that stays inside does so any
number of times. -/
theorem Inside.times (hf : Inside msg f) :
    ∀ {n pos e}, pos ≤ msg.length → times f n pos = some e → e ≤ msg.length
  | 0, pos, e, hp, h => by
    obtain rfl : pos = e := Option.some.inj h
    exact hp
  | n + 1, pos, e, _, h => by
    obtain ⟨p, hp, hn⟩ := Option.bind_eq_some_iff.mp h
    exact hf.times (hf pos p hp) hn

/-- A message whose part from `pos` on begins with a word of `L`. -/
theorem exists_spans_iff {pos : Nat} (hp : pos ≤ msg.length) :
    (∃ w ∈ L, Spans msg pos w) ↔ msg.drop pos ∈ L * ⊤ := by
  rw [Language.mem_mul]
  constructor
  · rintro ⟨w, hw, -, r, hr⟩
    exact ⟨w, hw, r, trivial, hr⟩
  · rintro ⟨w, hw, r, -, hr⟩
    exact ⟨w, hw, hp, r, hr⟩

end Scanner
