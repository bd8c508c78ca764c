import WireSurge.Lib.Replace

/-!
# Masking

`maskAll` marks the occurrences of some patterns, one pattern after the other
over what the others have left. A mark keeps what is on its two sides apart
(`maskAll_append_mark`), so that no pattern is seen in what comes out, and
masking it once more changes nothing (`maskAll_idem`). A text is masked as a
whole when the first pattern that occurs in it is the text itself
(`maskAll_eq_mark_iff`).
-/

namespace Str

variable {pat r s t a b word : Text}

theorem mark_ne_nil (word : Text) : mark word ≠ [] := List.cons_ne_nil _ _

/-- Both sides of a mark. -/
theorem Unmarkable.replace_append_mark (ht : Unmarkable word t) (r a b : Text) :
    replace t r (a ++ mark word ++ b) = replace t r a ++ mark word ++ replace t r b := by
  have hmark (x y : Text) : x ++ mark word ++ y = x ++ '[' :: (word ++ ']' :: y) := by
    simp only [mark, List.append_assoc, List.cons_append, List.nil_append]
  rw [hmark, hmark, replace_append_cons ht.nonempty ht.left, replace_append_cons ht.nonempty ht.right,
    replace_of_absent ht.nonempty ht.word]

/-! ## Many patterns -/

/-- Every pattern in its turn. -/
def maskAll (word : Text) (pats : List Text) (s : Text) : Text :=
  pats.foldl (fun out pat => replace pat (mark word) out) s

variable {pats : List Text}

/-- Nothing is seen that was not, and no pattern is. -/
theorem Unmarkable.infix_maskAll (ht : Unmarkable word t) (hpats : ∀ pat ∈ pats, pat ≠ [])
    (h : t <:+: maskAll word pats s) : t <:+: s ∧ t ∉ pats := by
  induction pats generalizing s with
  | nil => exact ⟨h, List.not_mem_nil⟩
  | cons pat pats ih =>
    obtain ⟨hin, hno⟩ := ih (fun p hp => hpats p (List.mem_cons_of_mem pat hp)) h
    refine ⟨ht.infix_replace (hpats pat List.mem_cons_self) hin, fun hmem => ?_⟩
    rcases List.mem_cons.mp hmem with rfl | hmem
    · exact ht.not_infix_replace_self s hin
    · exact hno hmem

theorem maskAll_of_absent (hpats : ∀ pat ∈ pats, pat ≠ []) (h : ∀ pat ∈ pats, ¬ pat <:+: s) :
    maskAll word pats s = s := by
  induction pats with
  | nil => rfl
  | cons pat pats ih =>
    have hone : replace pat (mark word) s = s :=
      replace_of_absent (hpats pat List.mem_cons_self) (h pat List.mem_cons_self)
    rw [maskAll, List.foldl_cons, hone]
    exact ih (fun p hp => hpats p (List.mem_cons_of_mem pat hp)) fun p hp => h p (List.mem_cons_of_mem pat hp)

variable (hpats : ∀ pat ∈ pats, Unmarkable word pat)

include hpats

theorem not_infix_maskAll (s : Text) : ∀ pat ∈ pats, ¬ pat <:+: maskAll word pats s := fun pat hpat h =>
  ((hpats pat hpat).infix_maskAll (fun p hp => (hpats p hp).nonempty) h).2 hpat

theorem maskAll_idem (s : Text) : maskAll word pats (maskAll word pats s) = maskAll word pats s :=
  maskAll_of_absent (fun p hp => (hpats p hp).nonempty) (not_infix_maskAll hpats s)

/-- Both sides of a mark. -/
theorem maskAll_append_mark (a b : Text) :
    maskAll word pats (a ++ mark word ++ b) = maskAll word pats a ++ mark word ++ maskAll word pats b := by
  induction pats generalizing a b with
  | nil => rfl
  | cons pat pats ih =>
    have hone := (hpats pat List.mem_cons_self).replace_append_mark (mark word) a b
    rw [maskAll, List.foldl_cons, hone]
    exact ih (fun p hp => hpats p (List.mem_cons_of_mem pat hp)) _ _

/-- Both sides of a character that no pattern has. -/
theorem maskAll_append_cons {c : Char} (hc : ∀ pat ∈ pats, c ∉ pat) (a b : Text) :
    maskAll word pats (a ++ c :: b) = maskAll word pats a ++ c :: maskAll word pats b := by
  induction pats generalizing a b with
  | nil => rfl
  | cons pat pats ih =>
    have hone := replace_append_cons (hpats pat List.mem_cons_self).nonempty (hc pat List.mem_cons_self) (mark word) a b
    rw [maskAll, List.foldl_cons, hone]
    exact ih (fun p hp => hpats p (List.mem_cons_of_mem pat hp)) (fun p hp => hc p (List.mem_cons_of_mem pat hp)) _ _

theorem maskAll_eq_nil_iff : maskAll word pats s = [] ↔ s = [] := by
  induction pats generalizing s with
  | nil => rfl
  | cons pat pats ih =>
    rw [maskAll, List.foldl_cons]
    refine (ih fun p hp => hpats p (List.mem_cons_of_mem pat hp)).trans ?_
    exact replace_eq_nil_iff (hpats pat List.mem_cons_self).nonempty (mark_ne_nil word)

/-- The first pattern that occurs in a text takes it away as a whole, or leaves
something beside the mark. -/
theorem maskAll_eq_mark_iff (hs : '[' ∉ s) :
    maskAll word pats s = mark word ↔ pats.find? (· <:+: s) = some s := by
  induction pats with
  | nil =>
    simp only [maskAll, List.foldl_nil, List.find?_nil, reduceCtorEq, iff_false]
    rintro rfl
    exact hs List.mem_cons_self
  | cons pat pats ih =>
    have hne := (hpats pat List.mem_cons_self).nonempty
    have hrest : ∀ p ∈ pats, Unmarkable word p := fun p hp => hpats p (List.mem_cons_of_mem pat hp)
    rw [maskAll, List.foldl_cons]
    by_cases hin : pat <:+: s
    · obtain ⟨a, b, hsplit⟩ := splitOnce_of_present hin
      rw [List.find?_cons_of_pos (by simpa using hin), Option.some.injEq, replace_of_some hne hsplit]
      have hall := maskAll_append_mark hrest a (replace pat (mark word) b)
      have hside : maskAll word pats a ++ mark word ++ maskAll word pats (replace pat (mark word) b) = mark word ↔
          a = [] ∧ b = [] := by
        rw [← maskAll_eq_nil_iff hrest (s := a), ← replace_eq_nil_iff hne (mark_ne_nil word) (s := b),
          ← maskAll_eq_nil_iff hrest (s := replace pat (mark word) b)]
        constructor
        · intro h
          have := congrArg List.length h
          simp only [List.length_append] at this
          exact ⟨List.eq_nil_of_length_eq_zero (by omega), List.eq_nil_of_length_eq_zero (by omega)⟩
        · intro ⟨ha, hb⟩
          rw [ha, hb, List.nil_append, List.append_nil]
      rw [← maskAll, hall, hside]
      have heq := splitOnce_eq_some hsplit
      constructor
      · rintro ⟨rfl, rfl⟩
        rw [heq, List.nil_append, List.append_nil]
      · intro hp
        have := congrArg List.length heq
        rw [← hp] at this
        simp only [List.length_append] at this
        exact ⟨List.eq_nil_of_length_eq_zero (by omega), List.eq_nil_of_length_eq_zero (by omega)⟩
    · rw [List.find?_cons_of_neg (by simpa using hin), replace_of_absent hne hin]
      exact ih hrest

end Str
