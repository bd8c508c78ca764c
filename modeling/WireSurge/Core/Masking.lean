import WireSurge.Core.Redact

/-!
# Masked secrets

None of the texts that `maskSecretValues` looks for is left in what it gives
(`masking_complete`). A secret is masked as a
whole, and so is what a query makes of it, unless a part of that comes first
(`masked_whole_iff`): the order is that of the secrets as they are.
-/

namespace WireSurge.Core

open Str (Text Unmarkable mark maskAll)

variable {secret input p : Text} {secretValues : List Text}

/-! ## The encoding of a query -/

theorem ascii_needsEncoding : Percent.Ascii needsEncoding := by
  intro b hb
  have hle : (0x80 : UInt8) ≤ b := UInt8.le_iff_toNat_le.mpr hb
  simp [needsEncoding, UInt8.not_lt.mpr hle]

theorem queryPercentEncode_eq (s : Text) : queryPercentEncode s = Percent.encode needsEncoding s := rfl

/-- An encoding can be told from a mark as the text can. -/
theorem unmarkable_queryPercentEncode (h : Unmarkable redactedWord secret) :
    Unmarkable redactedWord (queryPercentEncode secret) := by
  have hnot {c : Char} (hc : c ∉ secret) (hp : c ≠ '%') (hhex : ∀ n < 16, Percent.hexDigit (UInt8.ofNat n) ≠ c) :
      c ∉ queryPercentEncode secret := by
    intro hin
    rcases Percent.mem_encode ascii_needsEncoding hin with heq | ⟨n, hn, heq⟩ | ⟨hmem, -⟩
    · exact hp heq
    · exact Percent.hexDigit_ne hhex hn heq
    · exact hc hmem
  refine ⟨queryPercentEncode_ne_nil h.nonempty, hnot h.left (by decide) (by decide),
    hnot h.right (by decide) (by decide), fun hin => ?_⟩
  by_cases heq : queryPercentEncode secret = secret
  · rw [heq] at hin
    exact h.word hin
  · have hp := hin.subset (Percent.percent_mem ascii_needsEncoding heq)
    exact absurd hp (by decide)

/-! ## Nothing is left -/

theorem unmarkable_patterns (h : ∀ s ∈ secretValues, s ≠ [] → Unmarkable redactedWord s) :
    ∀ p ∈ patterns secretValues, Unmarkable redactedWord p := by
  intro p hp
  obtain ⟨s, hs, hne, rfl | rfl⟩ := mem_patterns.mp hp
  · exact h p hs hne
  · exact unmarkable_queryPercentEncode (h s hs hne)

theorem unmarkable_singleton (h : Unmarkable redactedWord secret) :
    ∀ s ∈ [secret], s ≠ [] → Unmarkable redactedWord s := by
  intro s hs _
  rwa [List.mem_singleton.mp hs]

/-- No secret is left in a masked text, nor what a query makes of one, and masking
it once more changes nothing. -/
theorem masking_complete (h : ∀ s ∈ secretValues, s ≠ [] → Unmarkable redactedWord s) (input : Text) :
    (∀ s ∈ secretValues, s ≠ [] → ¬ s <:+: maskSecretValues input secretValues ∧
      ¬ queryPercentEncode s <:+: maskSecretValues input secretValues) ∧
    maskSecretValues (maskSecretValues input secretValues) secretValues = maskSecretValues input secretValues := by
  have hpats := unmarkable_patterns h
  simp only [maskSecretValues_eq]
  refine ⟨fun s hs hne => ⟨?_, ?_⟩, Str.maskAll_idem hpats input⟩
  · exact Str.not_infix_maskAll hpats input s (mem_patterns.mpr ⟨s, hs, hne, .inl rfl⟩)
  · exact Str.not_infix_maskAll hpats input _ (mem_patterns.mpr ⟨s, hs, hne, .inr rfl⟩)

/-- `masking_complete` on what a query makes of a secret. -/
theorem masking_complete_query :
    ¬ "a%20b".toList <:+: maskSecretValues "q=a%20b&r=a b".toList ["a b".toList] := by
  have hone : ∀ s ∈ ["a b".toList], s ≠ [] → Unmarkable redactedWord s :=
    unmarkable_singleton ⟨by decide, by decide, by decide, by decide⟩
  exact ((masking_complete hone "q=a%20b&r=a b".toList).1 _ List.mem_cons_self (by decide)).2

/-! ## Masked as a whole -/

theorem longestFirst_of_sorted (hne : ∀ s ∈ secretValues, s ≠ [])
    (h : secretValues.Pairwise fun a b => Str.size b ≤ Str.size a) : longestFirst secretValues = secretValues := by
  rw [longestFirst, List.filter_eq_self.mpr fun s hs => by simpa using hne s hs]
  exact List.mergeSort_of_pairwise (h.imp decide_eq_true)

theorem sorted_longestFirst (secretValues : List Text) :
    (longestFirst secretValues).Pairwise fun a b => Str.size b ≤ Str.size a := by
  have hsorted : (longestFirst secretValues).Pairwise fun a b => decide (Str.size b ≤ Str.size a) = true :=
    List.pairwise_mergeSort (fun a b c hab hbc => by simp only [decide_eq_true_eq] at *; omega)
      (fun a b => by simp only [Bool.or_eq_true, decide_eq_true_eq]; omega) _
  exact hsorted.imp of_decide_eq_true

/-- Nothing that comes before a secret is a part of it. -/
theorem find?_patterns_secret (hs : secret ∈ secretValues) (hne : secret ≠ []) :
    (patterns secretValues).find? (· <:+: secret) = some secret := by
  have hsorted := sorted_longestFirst secretValues
  obtain ⟨before, behind, heq⟩ := List.append_of_mem (mem_longestFirst.mpr ⟨hs, hne⟩)
  rw [heq] at hsorted
  have hbefore : ∀ p ∈ before.flatMap forms, p <:+: secret → p = secret := by
    intro p hp hin
    obtain ⟨r, hr, hp⟩ := List.mem_flatMap.mp hp
    have hle : Str.size secret ≤ Str.size r := (List.pairwise_append.mp hsorted).2.2 r hr secret List.mem_cons_self
    rcases mem_forms.mp hp with rfl | rfl
    · exact Str.eq_of_part hin hle
    · -- an encoding is no shorter than what it encodes
      have hlong := Percent.size_le_length needsEncoding r
      have hsize := Str.length_le_size (queryPercentEncode r)
      rw [queryPercentEncode_eq] at hsize hin ⊢
      exact Str.eq_of_part hin (by omega)
  have hforms : ∃ rest, forms secret = secret :: rest := by
    rw [forms]
    split
    · exact ⟨_, rfl⟩
    · exact ⟨_, rfl⟩
  obtain ⟨rest, hrest⟩ := hforms
  rw [patterns, heq, List.flatMap_append, List.flatMap_cons, hrest, List.find?_append]
  cases hfind : (before.flatMap forms).find? (· <:+: secret) with
  | none =>
    rw [Option.none_or, List.cons_append]
    exact List.find?_cons_of_pos (by simp)
  | some p =>
    have hin : p <:+: secret := by simpa using List.find?_some hfind
    rw [Option.some_or, hbefore p (List.mem_of_find?_eq_some hfind) hin]

/-- A secret is masked as a whole, and so is what a query makes of it when the
first of the texts to occur in that is all of it. -/
theorem masked_whole_iff (h : ∀ s ∈ secretValues, s ≠ [] → Unmarkable redactedWord s) (hs : secret ∈ secretValues)
    (hne : secret ≠ []) :
    (maskSecretValues secret secretValues = redacted ∧
      maskSecretValues (queryPercentEncode secret) secretValues = redacted) ↔
    (patterns secretValues).find? (· <:+: queryPercentEncode secret) = some (queryPercentEncode secret) := by
  have hpats := unmarkable_patterns h
  have hsecret := h secret hs hne
  have hraw : maskSecretValues secret secretValues = redacted := by
    rw [maskSecretValues_eq]
    exact (Str.maskAll_eq_mark_iff hpats hsecret.left).mpr (find?_patterns_secret hs hne)
  rw [maskSecretValues_eq (queryPercentEncode secret)]
  refine (and_iff_right hraw).trans ?_
  exact Str.maskAll_eq_mark_iff hpats (unmarkable_queryPercentEncode hsecret).left

/-- `masked_whole_iff` on a single secret. -/
theorem masked_whole_one : maskSecretValues "a b".toList ["a b".toList] = redacted ∧
    maskSecretValues "a%20b".toList ["a b".toList] = redacted := by
  have hone : ∀ s ∈ ["a b".toList], s ≠ [] → Unmarkable redactedWord s :=
    unmarkable_singleton ⟨by decide, by decide, by decide, by decide⟩
  have hpats : patterns ["a b".toList] = ["a b".toList, "a%20b".toList] := by
    rw [patterns, longestFirst_of_sorted (by decide) (by decide)]
    decide
  refine (masked_whole_iff hone List.mem_cons_self (by decide)).mpr ?_
  rw [hpats]
  decide

/-- The longer of two secrets is a part of what a query makes of the other. -/
theorem masked_tail : ¬ ∀ secretValues : List Text, (∀ s ∈ secretValues, Unmarkable redactedWord s) →
    ∀ s ∈ secretValues, s ≠ [] → maskSecretValues s secretValues = redacted ∧
      maskSecretValues (queryPercentEncode s) secretValues = redacted := by
  intro h
  have htwo : ∀ s ∈ ["%20b".toList, "a b".toList], Unmarkable redactedWord s := by
    intro s hs
    simp only [List.mem_cons, List.not_mem_nil, or_false] at hs
    rcases hs with rfl | rfl <;> exact ⟨by decide, by decide, by decide, by decide⟩
  have hpats : patterns ["%20b".toList, "a b".toList] = ["%20b".toList, "a b".toList, "a%20b".toList] := by
    rw [patterns, longestFirst_of_sorted (by decide) (by decide)]
    decide
  have hmask := (h _ htwo "a b".toList (by simp) (by decide)).2
  rw [maskSecretValues_eq] at hmask
  have hfind := (Str.maskAll_eq_mark_iff (unmarkable_patterns fun s hs _ => htwo s hs) (by decide)).mp hmask
  rw [hpats] at hfind
  exact absurd hfind (by decide)

end WireSurge.Core
