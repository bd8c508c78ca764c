import WireSurge.Lib.Str

/-!
# Replacing

What `split` and `replace` do at the first occurrence of a pattern, and on the two
sides of a character that the pattern does not have (`replace_append_cons`). Both
read a text from left to right (`split_cons`, `replace_cons`); with a pattern of
one character they are `List.splitOn` and a `flatMap` over the characters
(`split_singleton`, `replace_singleton`).
-/

namespace Str

variable {pat r s a b : Text}

/-! ## The first occurrence -/

theorem splitOnce_of_absent (h : ¬ pat <:+: s) : splitOnce pat s = none := by
  cases hs : splitOnce pat s with
  | none => rfl
  | some ab => exact absurd ⟨ab.1, ab.2, (splitOnce_eq_some hs).symm⟩ h

theorem splitOnce_of_present (h : pat <:+: s) : ∃ a b, splitOnce pat s = some (a, b) := by
  cases hs : splitOnce pat s with
  | none => exact absurd h (not_infix_of_splitOnce hs)
  | some ab => exact ⟨ab.1, ab.2, rfl⟩

/-- What is behind a text is behind its first occurrence. -/
theorem splitOnce_append (h : splitOnce pat s = some (a, b)) (z : Text) :
    splitOnce pat (s ++ z) = some (a, b ++ z) := by
  induction s generalizing a with
  | nil =>
    simp only [splitOnce, Option.ite_none_right_eq_some, Option.some.injEq, Prod.mk.injEq] at h
    obtain ⟨rfl, rfl, rfl⟩ := h
    cases z with
    | nil => rfl
    | cons c z => rw [List.nil_append, splitOnce, if_pos List.nil_prefix, List.length_nil, List.drop_zero]
  | cons c s ih =>
    simp only [splitOnce] at h
    split at h
    · rename_i hp
      cases h
      have hpre : pat <+: c :: (s ++ z) := hp.trans (List.prefix_append (c :: s) z)
      rw [List.cons_append, splitOnce, if_pos hpre, ← List.cons_append, List.drop_append_of_le_length hp.length_le]
    · rename_i hp
      obtain ⟨⟨a', b'⟩, hs, hab⟩ := Option.map_eq_some_iff.mp h
      cases hab
      have hlen : pat.length ≤ (c :: s).length := by
        have := congrArg List.length (splitOnce_eq_some hs)
        simp only [List.length_append] at this
        rw [List.length_cons]
        omega
      have hnot : ¬ pat <+: c :: (s ++ z) := fun hpre =>
        hp (List.prefix_of_prefix_length_le hpre (List.prefix_append (c :: s) z) hlen)
      rw [List.cons_append, splitOnce, if_neg hnot, ih hs, Option.map_some]

/-- An occurrence is on one side of a character that it does not have. -/
theorem splitOnce_append_cons {c : Char} (hpat : pat ≠ []) (hc : c ∉ pat) (h : ¬ pat <:+: a) (b : Text) :
    splitOnce pat (a ++ c :: b) = (splitOnce pat b).map fun (x, y) => (a ++ c :: x, y) := by
  have inside (a : Text) (hpre : pat <+: a ++ c :: b) : pat <+: a := by
    rcases List.prefix_or_prefix_of_prefix hpre (List.prefix_append a (c :: b)) with hin | ⟨e, rfl⟩
    · exact hin
    · cases e with
      | nil => rw [List.append_nil]
      | cons d e =>
        obtain ⟨rfl, -⟩ := List.cons_prefix_cons.mp ((List.prefix_append_right_inj a).mp hpre)
        exact absurd (List.mem_append_right _ List.mem_cons_self) hc
  induction a with
  | nil =>
    have hnot : ¬ pat <+: c :: b := fun hpre => hpat (List.prefix_nil.mp (inside [] hpre))
    rw [List.nil_append, splitOnce, if_neg hnot]
    rfl
  | cons d a ih =>
    rw [List.infix_cons_iff, not_or] at h
    have hnot : ¬ pat <+: d :: (a ++ c :: b) := fun hpre => h.1 (inside (d :: a) hpre)
    rw [List.cons_append, splitOnce, if_neg hnot, ih h.2, Option.map_map]
    rfl

theorem replace_of_absent (hpat : pat ≠ []) (h : ¬ pat <:+: s) : replace pat r s = s := by
  rw [replace, split_of_none hpat (splitOnce_of_absent h), List.intercalate_singleton]

theorem replace_of_some (hpat : pat ≠ []) (h : splitOnce pat s = some (a, b)) :
    replace pat r s = a ++ r ++ replace pat r b := by
  have hne : split pat b ≠ [] := by
    rw [split, dif_neg hpat]
    split <;> exact List.cons_ne_nil _ _
  rw [replace, split_of_some hpat h, List.intercalate_cons_of_ne_nil hne, replace]

theorem replace_eq_nil_iff (hpat : pat ≠ []) (hr : r ≠ []) : replace pat r s = [] ↔ s = [] := by
  constructor
  · intro h
    by_cases hin : pat <:+: s
    · obtain ⟨a, b, hs⟩ := splitOnce_of_present hin
      rw [replace_of_some hpat hs] at h
      simp [hr] at h
    · rwa [replace_of_absent hpat hin] at h
  · rintro rfl
    exact replace_of_absent hpat fun h => hpat (List.infix_nil.mp h)

/-- Both sides of a character that the pattern does not have. -/
theorem replace_append_cons {c : Char} (hpat : pat ≠ []) (hc : c ∉ pat) (r a b : Text) :
    replace pat r (a ++ c :: b) = replace pat r a ++ c :: replace pat r b := by
  induction hn : a.length using Nat.strong_induction_on generalizing a with
  | _ n ih =>
    by_cases hin : pat <:+: a
    · obtain ⟨x, y, hs⟩ := splitOnce_of_present hin
      have hlen : y.length < n := by
        have := congrArg List.length (splitOnce_eq_some hs)
        have := List.length_pos_iff.mpr hpat
        simp only [List.length_append] at *
        omega
      rw [replace_of_some hpat hs, replace_of_some hpat (splitOnce_append hs _), ih y.length hlen y rfl]
      simp only [List.append_assoc]
    · rw [replace_of_absent hpat hin]
      have hs := splitOnce_append_cons hpat hc hin b
      by_cases hinb : pat <:+: b
      · obtain ⟨x, y, hsb⟩ := splitOnce_of_present hinb
        rw [hsb, Option.map_some] at hs
        rw [replace_of_some hpat hs, replace_of_some hpat hsb]
        simp only [List.append_assoc, List.cons_append]
      · rw [splitOnce_of_absent hinb, Option.map_none] at hs
        rw [replace_of_absent hpat (not_infix_of_splitOnce hs), replace_of_absent hpat hinb]

/-! ## From left to right -/

theorem split_cons (hpat : pat ≠ []) (c : Char) (s : Text) : split pat (c :: s) =
    if pat <+: c :: s then [] :: split pat ((c :: s).drop pat.length) else (split pat s).modifyHead (c :: ·) := by
  split
  · rename_i hp
    exact split_of_some hpat (by rw [splitOnce, if_pos hp])
  · rename_i hp
    cases hs : splitOnce pat s with
    | none =>
      rw [split_of_none hpat hs, split_of_none hpat (by rw [splitOnce, if_neg hp, hs, Option.map_none])]
      rfl
    | some ab =>
      obtain ⟨a, b⟩ := ab
      rw [split_of_some hpat hs, split_of_some hpat (by rw [splitOnce, if_neg hp, hs, Option.map_some])]
      rfl

theorem split_nil (hpat : pat ≠ []) : split pat [] = [[]] := split_of_none hpat (by rw [splitOnce, if_neg hpat])

theorem replace_nil (hpat : pat ≠ []) : replace pat r [] = [] :=
  replace_of_absent hpat fun h => hpat (List.infix_nil.mp h)

theorem replace_cons (hpat : pat ≠ []) (c : Char) (s : Text) : replace pat r (c :: s) =
    if pat <+: c :: s then r ++ replace pat r ((c :: s).drop pat.length) else c :: replace pat r s := by
  split
  · rename_i hp
    rw [replace_of_some hpat (by rw [splitOnce, if_pos hp]), List.nil_append]
  · rename_i hp
    cases hs : splitOnce pat s with
    | none =>
      have hs' : splitOnce pat (c :: s) = none := by rw [splitOnce, if_neg hp, hs, Option.map_none]
      rw [replace_of_absent hpat (not_infix_of_splitOnce hs), replace_of_absent hpat (not_infix_of_splitOnce hs')]
    | some ab =>
      obtain ⟨a, b⟩ := ab
      have hs' : splitOnce pat (c :: s) = some (c :: a, b) := by rw [splitOnce, if_neg hp, hs, Option.map_some]
      rw [replace_of_some hpat hs, replace_of_some hpat hs', List.cons_append, List.cons_append]

/-! ## Patterns of one character -/

theorem singleton_prefix_cons {c d : Char} {s : Text} : [c] <+: d :: s ↔ d = c := by
  rw [List.cons_prefix_cons, eq_comm]
  simp

/-- The first occurrence of a character. -/
theorem splitOnce_singleton {c : Char} (h : c ∉ a) (b : Text) : splitOnce [c] (a ++ c :: b) = some (a, b) := by
  induction a with
  | nil => rw [List.nil_append, splitOnce, if_pos (singleton_prefix_cons.mpr rfl), List.length_singleton, List.drop_one,
      List.tail_cons]
  | cons d a ih =>
    rw [List.mem_cons, not_or] at h
    rw [List.cons_append, splitOnce, if_neg (by rw [singleton_prefix_cons]; exact Ne.symm h.1), ih h.2, Option.map_some]

theorem splitOnce_singleton_of_notMem {c : Char} (h : c ∉ s) : splitOnce [c] s = none :=
  splitOnce_of_absent fun hin => h (hin.subset (List.mem_singleton_self c))

theorem split_singleton (c : Char) (s : Text) : split [c] s = s.splitOn c := by
  induction s with
  | nil => rw [split_nil (List.cons_ne_nil c []), List.splitOn_nil]
  | cons d s ih =>
    rw [split_cons (List.cons_ne_nil c []), List.splitOn_cons_eq_if_modifyHead]
    simp only [singleton_prefix_cons, List.length_singleton, List.drop_one, List.tail_cons, beq_iff_eq, ih]

theorem replace_singleton (c : Char) (r s : Text) :
    replace [c] r s = s.flatMap fun d => if d = c then r else [d] := by
  induction s with
  | nil => rw [replace_nil (List.cons_ne_nil c []), List.flatMap_nil]
  | cons d s ih =>
    rw [replace_cons (List.cons_ne_nil c []), List.flatMap_cons]
    simp only [singleton_prefix_cons]
    split
    · rw [List.length_singleton, List.drop_one, List.tail_cons, ih]
    · rw [ih, List.singleton_append]

end Str
