import WireSurge.Lib.Str

/-!
# Character data of markup

A text is put into markup with the characters of markup written as entities
(`escape`). What comes out has none of them and no `&` that does not begin an
entity (`notMem_escape`, `entity_of_escape`); the entities replaced in one pass
from left to right, the text is there again (`unescape_escape`). So a reader of the
markup that takes the character data up to the next tag has the text
(`charData_escape`).
-/

namespace Markup

open Str (Text)

/-- The entities, each with its character. -/
def entities : List (Text × Char) :=
  [("&amp;".toList, '&'), ("&lt;".toList, '<'), ("&gt;".toList, '>'), ("&quot;".toList, '"')]

def escapeChar (c : Char) : Text :=
  match c with
  | '&' => "&amp;".toList
  | '<' => "&lt;".toList
  | '>' => "&gt;".toList
  | '"' => "&quot;".toList
  | c => [c]

def escape (s : Text) : Text := s.flatMap escapeChar

/-- The entities replaced, in one pass from left to right. -/
def unescape : Text → Text
  | '&' :: 'a' :: 'm' :: 'p' :: ';' :: s => '&' :: unescape s
  | '&' :: 'l' :: 't' :: ';' :: s => '<' :: unescape s
  | '&' :: 'g' :: 't' :: ';' :: s => '>' :: unescape s
  | '&' :: 'q' :: 'u' :: 'o' :: 't' :: ';' :: s => '"' :: unescape s
  | c :: s => c :: unescape s
  | [] => []

/-- What a reader shows from a place on, up to the next tag. -/
def charData (s : Text) : Text := unescape (s.takeWhile (· ≠ '<'))

variable {c : Char} {s a b : Text}

/-- A character is written as itself, or as its entity. -/
theorem escapeChar_cases (c : Char) : escapeChar c = [c] ∧ c ∉ ['&', '<', '>', '"'] ∨ (escapeChar c, c) ∈ entities := by
  unfold escapeChar
  split
  · exact .inr (by decide)
  · exact .inr (by decide)
  · exact .inr (by decide)
  · exact .inr (by decide)
  · rename_i hamp hlt hgt hquot
    refine .inl ⟨rfl, ?_⟩
    simp only [List.mem_cons, List.not_mem_nil, or_false, not_or]
    exact ⟨hamp, hlt, hgt, hquot⟩

theorem escapeChar_of_plain (h : c ∉ ['&', '<', '>', '"']) : escapeChar c = [c] := by
  have hspecial : ∀ e ∈ entities, e.2 ∈ ['&', '<', '>', '"'] := by decide
  rcases escapeChar_cases c with ⟨hself, -⟩ | hentity
  · exact hself
  · exact absurd (hspecial _ hentity) h

theorem notMem_escape (hc : c ∈ ['<', '>', '"']) (s : Text) : c ∉ escape s := by
  rw [escape, List.mem_flatMap]
  rintro ⟨d, -, hd⟩
  rcases escapeChar_cases d with ⟨hself, hplain⟩ | hentity
  · rw [hself, List.mem_singleton] at hd
    subst hd
    exact hplain (List.mem_cons_of_mem _ hc)
  · have hnone : ∀ e ∈ entities, ['<', '>', '"'].all fun c => c ∉ e.1 := by decide
    exact of_decide_eq_true (List.all_eq_true.mp (hnone _ hentity) c hc) hd

/-- An entity has one `&`, which begins it. -/
theorem entity_of_escapeChar (h : escapeChar c = a ++ '&' :: b) : a = [] ∧ ∃ e ∈ entities, e.1 = '&' :: b := by
  rcases escapeChar_cases c with ⟨hself, hplain⟩ | hentity
  · have hmem : '&' ∈ escapeChar c := by rw [h]; simp
    rw [hself, List.mem_singleton] at hmem
    exact absurd (by simp [← hmem]) hplain
  · have hone : ∀ e ∈ entities, e.1.head? = some '&' ∧ '&' ∉ e.1.tail := by decide
    obtain ⟨-, hnot⟩ := hone _ hentity
    cases a with
    | nil => exact ⟨rfl, _, hentity, h⟩
    | cons d a =>
      rw [h] at hnot
      exact absurd (by simp) hnot

theorem entity_of_escape (h : escape s = a ++ '&' :: b) : ∃ e ∈ entities, e.1 <+: '&' :: b := by
  induction s generalizing a with
  | nil => exact absurd h (by simp [escape])
  | cons c s ih =>
    rw [escape, List.flatMap_cons] at h
    rcases List.append_eq_append_iff.mp h with ⟨a', rfl, h'⟩ | ⟨b', hc, h'⟩
    · exact ih h'
    · cases b' with
      | nil => exact ih (a := []) h'.symm
      | cons d b' =>
        rw [List.cons_append, List.cons.injEq] at h'
        obtain ⟨rfl, rfl⟩ := h'
        obtain ⟨-, e, he, heq⟩ := entity_of_escapeChar hc
        exact ⟨e, he, heq ▸ (List.prefix_append ('&' :: b') _)⟩

theorem unescape_cons (h : c ≠ '&') (s : Text) : unescape (c :: s) = c :: unescape s := by
  rw [unescape]
  all_goals
    intros
    contradiction

theorem unescape_escape (s : Text) : unescape (escape s) = s := by
  induction s with
  | nil => rfl
  | cons c s ih =>
    rw [escape, List.flatMap_cons, ← escape]
    rcases escapeChar_cases c with ⟨hself, hplain⟩ | hentity
    · rw [hself, List.singleton_append, unescape_cons (by simp at hplain; exact hplain.1), ih]
    · have hread : ∀ e ∈ entities, ∀ s, unescape (e.1 ++ s) = e.2 :: unescape s := by
        simp [entities, unescape]
      rw [hread _ hentity, ih]

/-- A text that is put between two tags is read as it is. -/
theorem charData_escape (s rest : Text) : charData (escape s ++ '<' :: rest) = s := by
  have hnot : ∀ c ∈ escape s, decide (c ≠ '<') = true := fun c hc =>
    decide_eq_true fun h => notMem_escape (c := '<') (by decide) s (h ▸ hc)
  rw [charData, List.takeWhile_append_of_pos hnot, List.takeWhile_cons_of_neg (by decide), List.append_nil,
    unescape_escape]

end Markup
