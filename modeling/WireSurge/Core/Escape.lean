import WireSurge.Core.Template

/-!
# Texts as templates

Which texts some template gives in every scope: those where an opener behind a
backslash goes on with a third brace (`Writable`). `escape` writes them; that
no template writes another text is an argument over the pieces of a template
(`writable_of_pieces`), once a reference is known to give two values
(`pieces_of_writes`).
-/

namespace WireSurge.Core

open Checked (map_eq_ok)
open Str (Text splitOnce)

def brace : Char := '\x7b'

/-- An opener behind a backslash goes on with a third brace. -/
def Writable (s : Text) : Prop := ∀ rest, '\\' :: opener ++ rest <:+ s → rest.head? = some brace

/-- A text with its openers escaped. Of three braces behind a backslash the
last two are the ones to escape. -/
def escape : Text → Text
  | [] => []
  | c :: s =>
    if '\\' :: brace :: opener <+: c :: s then '\\' :: brace :: '\\' :: opener ++ escape (s.drop 3)
    else if opener <+: c :: s then '\\' :: opener ++ escape s.tail
    else c :: escape s
termination_by s => s.length
decreasing_by
  all_goals simp only [List.length_tail, List.length_drop, List.length_cons]
  all_goals omega

theorem Writable.of_suffix {r s : Text} (h : Writable s) (hr : r <:+ s) : Writable r :=
  fun rest hrest => h rest (hrest.trans hr)

theorem writable_cons {c : Char} {s : Text} :
    Writable (c :: s) ↔ (∀ rest, c :: s = '\\' :: opener ++ rest → rest.head? = some brace) ∧ Writable s := by
  simp only [Writable, List.suffix_cons_iff]
  constructor
  · intro h
    exact ⟨fun rest hrest => h rest (.inl hrest.symm), fun rest hrest => h rest (.inr hrest)⟩
  · rintro ⟨hfirst, hbehind⟩ rest (hrest | hrest)
    · exact hfirst rest hrest.symm
    · exact hbehind rest hrest

/-! ## Escaping -/

/-- What is escaped starts with a brace only when the text does. -/
theorem head?_escape {s : Text} (h : (escape s).head? = some brace) : s.head? = some brace := by
  cases s with
  | nil => simp [escape] at h
  | cons c s =>
    rw [escape] at h
    split at h
    · exact absurd h (by simp [brace])
    · split at h
      · exact absurd h (by simp [brace])
      · exact h

theorem not_opener_escape (s : Text) : ¬ opener <+: escape s := by
  cases s with
  | nil => simp [escape, opener]
  | cons c s =>
    rw [escape]
    split
    · simp [opener, List.cons_prefix_cons]
    · split
      · simp [opener, List.cons_prefix_cons]
      · rename_i hopener
        intro h
        obtain ⟨hc, rest, hrest⟩ := List.cons_prefix_cons.mp h
        have hhead := head?_escape (s := s) (by rw [← hrest]; rfl)
        obtain ⟨t, rfl⟩ : ∃ t, s = brace :: t := by
          cases s with
          | nil => cases hhead
          | cons d t => exact ⟨t, congrArg (· :: t) (Option.some.inj hhead)⟩
        exact hopener ⟨t, by rw [← hc]; rfl⟩

theorem opener_of_escape {s : Text} (h : '\\' :: opener <+: escape s) : opener <+: s := by
  cases s with
  | nil => simp [escape] at h
  | cons c s =>
    rw [escape] at h
    split at h
    · exact absurd h (by simp [opener, List.cons_prefix_cons])
    · split at h
      · assumption
      · exact absurd (List.cons_prefix_cons.mp h).2 (not_opener_escape s)

/-- The reader of an escaped opener. -/
theorem pieces_escapedOpener (t : Text) : pieces ('\\' :: opener ++ t) = opener.map .char ++ pieces t :=
  pieces_escape (by simp [opener, List.cons_prefix_cons]) ⟨t, rfl⟩

theorem pieces_escaped (s : Text) (h : Writable s) : pieces (escape s) = s.map .char := by
  induction s using escape.induct with
  | case1 => rw [escape, pieces]; rfl
  | case2 c s hthree ih =>
    obtain ⟨rest, hrest⟩ := hthree
    obtain ⟨rfl, rfl⟩ := List.cons.inj hrest
    rw [escape, if_pos ⟨rest, rfl⟩]
    have hrest : pieces (escape rest) = rest.map .char := ih (h.of_suffix ⟨'\\' :: brace :: opener, rfl⟩)
    show pieces ('\\' :: brace :: ('\\' :: opener ++ escape rest)) = ('\\' :: brace :: (opener ++ rest)).map .char
    rw [pieces_char, pieces_char, pieces_escapedOpener, hrest, List.map_cons, List.map_cons, List.map_append]
    all_goals simp [brace, opener, List.cons_prefix_cons]
  | case3 c s hthree hopener ih =>
    obtain ⟨rest, hrest⟩ := hopener
    obtain ⟨rfl, rfl⟩ := List.cons.inj hrest
    rw [escape, if_neg hthree, if_pos ⟨rest, rfl⟩, pieces_escapedOpener]
    have hrest : pieces (escape rest) = rest.map .char := ih (h.of_suffix ⟨opener, rfl⟩)
    show opener.map .char ++ pieces (escape rest) = (opener ++ rest).map .char
    rw [hrest, List.map_append]
  | case4 c s hthree hopener ih =>
    -- no escape starts here: what follows a backslash is no opener, escaped or not
    rw [escape, if_neg hthree, if_neg hopener, pieces_char, ih (writable_cons.mp h).2, List.map_cons]
    · intro hp
      obtain ⟨rfl, hp'⟩ := List.cons_prefix_cons.mp hp
      obtain ⟨rest, rfl⟩ := opener_of_escape hp'
      obtain ⟨r, hr⟩ := List.head?_eq_some_iff.mp ((writable_cons.mp h).1 rest rfl)
      exact hthree ⟨r, by rw [hr]; rfl⟩
    · intro hp
      exact not_opener_escape s (List.cons_prefix_cons.mp hp).2
    · intro hp
      obtain ⟨rfl, rest, hrest⟩ := List.cons_prefix_cons.mp hp
      obtain ⟨r, rfl⟩ := List.head?_eq_some_iff.mp (head?_escape (s := s) (by rw [← hrest]; rfl))
      exact hopener ⟨r, rfl⟩

/-! ## What a template without references gives -/

/-- An opener that is not escaped gives no plain text. -/
theorem pieces_opener (t s : Text) : pieces (opener ++ t) ≠ s.map .char := by
  have hnot : ∀ r : Text, ¬ '\\' :: r <+: brace :: brace :: t := fun r => not_escape (by decide) r
  show pieces (brace :: brace :: t) ≠ s.map .char
  have hopener : opener <+: brace :: brace :: t := ⟨t, rfl⟩
  cases hsplit : splitOnce closer (brace :: t).tail with
  | none =>
    rw [pieces_unterminated (hnot _) (hnot _) hopener hsplit]
    cases s <;> simp
  | some found =>
    rw [pieces_ref (hnot _) (hnot _) hopener hsplit]
    cases s <;> simp

/-- What a template gives first, and what the rest of it gives. -/
theorem pieces_eq_map {t s : Text} (h : pieces t = s.map .char) (hs : s ≠ []) :
    (∃ t' s', t = '\\' :: opener ++ t' ∧ s = opener ++ s' ∧ pieces t' = s'.map .char) ∨
    ∃ c t' s', t = c :: t' ∧ s = c :: s' ∧ pieces t' = s'.map .char ∧
      ¬ '\\' :: '\\' :: opener <+: t ∧ ¬ '\\' :: opener <+: t ∧ ¬ opener <+: t := by
  obtain ⟨d, s, rfl⟩ := List.exists_cons_of_ne_nil hs
  cases t with
  | nil =>
    rw [pieces] at h
    cases h
  | cons c t =>
    by_cases h1 : '\\' :: '\\' :: opener <+: c :: t
    · rw [pieces_backslash h1, List.map_cons] at h
      obtain ⟨rest, hrest⟩ := h1
      obtain ⟨-, rfl⟩ := List.cons.inj hrest
      exact absurd (List.cons.inj h).2 (pieces_opener rest s)
    by_cases h2 : '\\' :: opener <+: c :: t
    · obtain ⟨rest, hrest⟩ := h2
      rw [← hrest, pieces_escapedOpener] at h
      obtain ⟨front, behind, hfront, hmap, hbehind⟩ := List.map_eq_append_iff.mp h.symm
      have hinj : front = opener := List.map_injective_iff.mpr (fun _ _ => Piece.char.inj) hmap
      exact .inl ⟨rest, behind, hrest.symm, hinj ▸ hfront, hbehind.symm⟩
    by_cases h3 : opener <+: c :: t
    · obtain ⟨rest, hrest⟩ := h3
      exact absurd (hrest ▸ h) (pieces_opener rest _)
    · rw [pieces_char h1 h2 h3, List.map_cons] at h
      obtain ⟨hc, ht⟩ := List.cons.inj h
      obtain rfl := Piece.char.inj hc
      exact .inr ⟨c, t, s, rfl, rfl, ht, h1, h2, h3⟩

/-- Two braces and no third one come of an escaped opener. -/
theorem escaped_of_opener {t r : Text} (h : pieces t = (opener ++ r).map .char) (hr : r.head? ≠ some brace) :
    '\\' :: opener <+: t := by
  rcases pieces_eq_map h (by simp [opener]) with ⟨t', -, rfl, -, -⟩ | ⟨c, t', s', rfl, hs, ht', -, -, hopener⟩
  · exact ⟨t', rfl⟩
  obtain ⟨rfl, rfl⟩ := List.cons.inj hs
  -- the first brace is plain, so the second one is not, and a third follows
  rcases pieces_eq_map ht' (by simp) with ⟨t'', s'', rfl, hs'', -⟩ | ⟨d, t'', s'', rfl, hs'', -⟩
  · exact absurd (congrArg List.head? (List.cons.inj hs'').2) hr
  · obtain ⟨rfl, -⟩ := List.cons.inj hs''
    exact absurd ⟨t'', rfl⟩ hopener

theorem writable_of_pieces {t s : Text} (h : pieces t = s.map .char) : Writable s := by
  induction hn : s.length using Nat.strong_induction_on generalizing t s with
  | _ n ih =>
    rcases eq_or_ne s [] with rfl | hs
    · intro rest hrest
      cases List.suffix_nil.mp hrest
    rcases pieces_eq_map h hs with ⟨t', s', rfl, rfl, ht'⟩ | ⟨c, t', s', rfl, rfl, ht', hbackslash, -, -⟩
    · have hs' := ih s'.length (by rw [← hn, List.length_append]; simp [opener]) ht' rfl
      refine writable_cons.mpr ⟨fun rest hrest => ?_, writable_cons.mpr ⟨fun rest hrest => ?_, hs'⟩⟩
      · exact absurd (List.cons.inj hrest).1 (by decide)
      · exact absurd (List.cons.inj hrest).1 (by decide)
    · refine writable_cons.mpr ⟨fun rest hrest => ?_, ih s'.length (by rw [← hn]; simp) ht' rfl⟩
      obtain ⟨rfl, rfl⟩ := List.cons.inj hrest
      by_contra hhead
      exact hbackslash (List.cons_prefix_cons.mpr ⟨rfl, escaped_of_opener ht' hhead⟩)

/-! ## References -/

/-- No variable is set, and all that a reference can read is `n`. -/
def bareScope (n : Nat) (counter : UInt64) : Scope :=
  { Scope.new ∅ ∅ n (.ofNat n) n with uuidCounter := counter }

theorem var_empty (name : Text) (error : WireSurgeError) : Scope.var ∅ name error = .error error := by
  simp [Scope.var, okOr]

theorem length_nextUuid (n : UInt64) :
    (bareScope 0 n).nextUuid.1.length < (bareScope 16 n).nextUuid.1.length := by
  have hzero : Scope.hex 0 = ['0'] := by decide
  have hsixteen : Scope.hex 16 = ['1', '0'] := by decide
  simp only [Scope.nextUuid, bareScope, Scope.new, hzero, hsixteen, UInt64.toNat_ofNat', List.length_append,
    List.length_cons, List.length_nil, Nat.reduceMod, Nat.reducePow]
  omega

/-- Without variables only the worker's own values are left. -/
theorem resolveIn_grows {key nmspace rest value : Text} {n : UInt64}
    (h : (bareScope 0 n).resolveIn key nmspace rest = .ok value) :
    ∃ value', (bareScope 16 n).resolveIn key nmspace rest = .ok value' ∧ value.length < value'.length := by
  have hdigits : (toString 0).toList.length < (toString 16).toList.length := by decide
  unfold Scope.resolveIn at h ⊢
  by_cases hvars : nmspace = "vars".toList
  · rw [if_pos hvars, show (bareScope 0 n).vars = ∅ from rfl, var_empty] at h
    cases h
  by_cases hsecrets : nmspace = "secrets".toList
  · rw [if_neg hvars, if_pos hsecrets, show (bareScope 0 n).secrets = ∅ from rfl, var_empty] at h
    cases h
  by_cases hworker : nmspace = "worker".toList
  · rw [if_neg hvars, if_neg hsecrets, if_pos hworker] at h ⊢
    by_cases hid : rest = "id".toList
    · rw [if_pos hid] at h ⊢
      cases h
      exact ⟨_, rfl, hdigits⟩
    by_cases hiteration : rest = "iteration".toList
    · rw [if_neg hid, if_pos hiteration] at h ⊢
      cases h
      exact ⟨_, rfl, hdigits⟩
    · rw [if_neg hid, if_neg hiteration] at h
      cases h
  · rw [if_neg hvars, if_neg hsecrets, if_neg hworker] at h
    cases h

/-- A reference that resolves without variables gives more in the second scope. -/
theorem resolve_grows {key value : Text} {n : UInt64} {scope' : Scope}
    (h : (bareScope 0 n).resolve key = (.ok value, scope')) :
    ∃ m value', scope' = bareScope 0 m ∧ (bareScope 16 n).resolve key = (.ok value', bareScope 16 m) ∧
      value.length < value'.length := by
  by_cases huuid : key = "uuid".toList
  · subst huuid
    rw [Scope.resolve_uuid] at h
    cases h
    exact ⟨n + 1, _, rfl, Scope.resolve_uuid _, length_nextUuid n⟩
  unfold Scope.resolve at h ⊢
  by_cases hempty : key = []
  · rw [if_pos hempty] at h
    cases (Prod.mk.inj h).1
  rw [if_neg hempty, if_neg huuid] at h ⊢
  cases hsplit : splitOnce ['.'] key with
  | none =>
    rw [hsplit, show (bareScope 0 n).extracts = ∅ from rfl, var_empty] at h
    cases (Prod.mk.inj h).1
  | some found =>
    rw [hsplit] at h
    obtain ⟨hvalue, hscope⟩ := Prod.mk.inj h
    obtain ⟨value', hvalue', hlt⟩ := resolveIn_grows hvalue
    exact ⟨n, value', hscope.symm, by simp only [hvalue'], hlt⟩

/-- Between the two scopes every reference of a template shows. -/
theorem fill_grows {ps : List Piece} {n : UInt64} {out out' : Text}
    (h : (fill ps (bareScope 0 n)).1 = .ok out) (h' : (fill ps (bareScope 16 n)).1 = .ok out') :
    out.length ≤ out'.length ∧ (out.length = out'.length → ps = out.map .char) := by
  induction ps generalizing n out out' with
  | nil =>
    cases h
    cases h'
    exact ⟨Nat.le_refl 0, fun _ => rfl⟩
  | cons p ps ih =>
    cases p with
    | unterminated =>
      rw [fill] at h
      cases h
    | char c =>
      rw [fill] at h h'
      obtain ⟨rest, hrest, rfl⟩ := map_eq_ok.mp h
      obtain ⟨rest', hrest', rfl⟩ := map_eq_ok.mp h'
      obtain ⟨hle, heq⟩ := ih hrest hrest'
      refine ⟨Nat.succ_le_succ hle, fun hlen => ?_⟩
      rw [heq (Nat.succ.inj hlen), List.map_cons]
    | ref key =>
      rw [fill] at h h'
      cases hresolve : (bareScope 0 n).resolve key with
      | mk result behind =>
        rw [hresolve] at h
        cases result with
        | error error => cases h
        | ok value =>
          obtain ⟨m, value', rfl, hresolve', hlt⟩ := resolve_grows hresolve
          rw [hresolve'] at h'
          obtain ⟨rest, hrest, rfl⟩ := map_eq_ok.mp h
          obtain ⟨rest', hrest', rfl⟩ := map_eq_ok.mp h'
          have hle := (ih hrest hrest').1
          rw [List.length_append, List.length_append]
          exact ⟨by omega, fun hlen => by omega⟩

/-- A template that gives one text in every scope has no references. -/
theorem pieces_of_writes {t s : String}
    (h : ∀ scope, ∃ scope', expand t scope = some (.ok (.ok s, scope'))) :
    pieces t.toList = s.toList.map .char := by
  have hfill : ∀ scope, (fill (pieces t.toList) scope).1 = .ok s.toList := by
    intro scope
    obtain ⟨scope', hscope⟩ := h scope
    rw [expand_eq, Option.some.injEq, Except.ok.injEq] at hscope
    obtain ⟨text, htext, rfl⟩ := map_eq_ok.mp (Prod.mk.inj hscope).1
    rw [htext, String.toList_ofList]
  exact (fill_grows (hfill (bareScope 0 0)) (hfill (bareScope 16 0))).2 rfl

/-- A text is what some template gives in every scope if and only if each of
its openers that is behind a backslash goes on with a third brace. -/
theorem expand_writes_iff (s : String) :
    (∃ t, ∀ scope, ∃ scope', expand t scope = some (.ok (.ok s, scope'))) ↔ Writable s.toList := by
  constructor
  · rintro ⟨t, h⟩
    exact writable_of_pieces (pieces_of_writes h)
  · intro h
    refine ⟨String.ofList (escape s.toList), fun scope => ⟨scope, ?_⟩⟩
    have hfill := fill_append_char s.toList [] scope
    rw [List.append_nil] at hfill
    rw [expand_eq, String.toList_ofList, pieces_escaped _ h, hfill]
    simp [fill, Except.map]

/-- Two braces behind a backslash are out of reach. -/
theorem not_writes_escapedOpener :
    ¬ ∃ t, ∀ scope, ∃ scope', expand t scope = some (.ok (.ok "\\\x7b\x7b", scope')) := by
  rintro ⟨t, h⟩
  have := writable_of_pieces (pieces_of_writes h) [] List.suffix_rfl
  cases this

end WireSurge.Core
