import WireSurge.Core.Scenario

/-!
# Dotted selectors

A dotted path is lowered to a JSON pointer, whose tokens are its segments with `~`
and `/` escaped (`escapeToken`); the pointer is split at `/` and each token is
unescaped in two passes. `unescape_escape` undoes the one by the other, so that a
dotted selector goes down a document by its own segments (`resolveValue_dotted`).
-/

namespace WireSurge.Core

open Str (Text replace replace_cons replace_nil replace_singleton split_singleton)

/-! ## Tokens -/

/-- A segment as `lower_path` writes it. -/
def escapeToken (segment : Text) : Text := replace ['/'] ['~', '1'] (replace ['~'] ['~', '0'] segment)

/-- The tilde on its own: what unescaping the slash leaves. -/
def escapeTilde (c : Char) : Text := if c = '~' then ['~', '0'] else [c]

def escapeChar (c : Char) : Text := if c = '/' then ['~', '1'] else escapeTilde c

theorem escapeToken_eq (segment : Text) : escapeToken segment = segment.flatMap escapeChar := by
  rw [escapeToken, replace_singleton '~', replace_singleton '/', List.flatMap_assoc]
  refine List.flatMap_congr fun c _ => ?_
  rw [escapeChar, escapeTilde]
  by_cases htilde : c = '~'
  · subst htilde
    rfl
  · simp [htilde]

theorem slash_notMem_escapeToken (segment : Text) : '/' ∉ escapeToken segment := by
  rw [escapeToken_eq, List.mem_flatMap]
  rintro ⟨c, -, hc⟩
  rw [escapeChar, escapeTilde] at hc
  split at hc
  · simp at hc
  · split at hc
    · simp at hc
    · rename_i hslash _
      exact hslash (List.mem_singleton.mp hc).symm

/-- The first pass: a `~1` is a slash, since a tilde of the segment has a `0` behind it. -/
theorem replace_slash_escapeChar (segment : Text) :
    replace ['~', '1'] ['/'] (segment.flatMap escapeChar) = segment.flatMap escapeTilde := by
  have hpat : ['~', '1'] ≠ [] := List.cons_ne_nil _ _
  induction segment with
  | nil => rw [List.flatMap_nil, List.flatMap_nil, replace_nil hpat]
  | cons c segment ih =>
    rw [List.flatMap_cons, List.flatMap_cons, ← ih, escapeChar, escapeTilde]
    by_cases hslash : c = '/'
    · subst hslash
      simp [replace_cons]
    · by_cases htilde : c = '~'
      · subst htilde
        simp [replace_cons]
      · simp [hslash, htilde, replace_cons, Ne.symm htilde]

/-- The second pass. -/
theorem replace_tilde_escapeTilde (segment : Text) :
    replace ['~', '0'] ['~'] (segment.flatMap escapeTilde) = segment := by
  have hpat : ['~', '0'] ≠ [] := List.cons_ne_nil _ _
  induction segment with
  | nil => rw [List.flatMap_nil, replace_nil hpat]
  | cons c segment ih =>
    rw [List.flatMap_cons, escapeTilde]
    by_cases htilde : c = '~'
    · subst htilde
      simp [replace_cons, ih]
    · simp [htilde, replace_cons, Ne.symm htilde, ih]

theorem unescape_escape (segment : Text) : Json.unescapeToken (escapeToken segment) = segment := by
  rw [Json.unescapeToken, escapeToken_eq, replace_slash_escapeChar, replace_tilde_escapeTilde]

/-! ## The walk -/

/-- The value reached by the segments, each the key of an object or the index of an array. -/
def Json.walk : List Text → Json → Option Json
  | [], value => some value
  | segment :: segments, value => (value.step segment).bind (Json.walk segments)

theorem Json.foldlM_step (segments : List Text) (value : Json) :
    segments.foldlM (fun v token => Json.step token v) value = value.walk segments := by
  induction segments generalizing value with
  | nil => rfl
  | cons segment segments ih =>
    rw [List.foldlM_cons, Json.walk]
    exact congrArg _ (funext fun v => ih v)

/-- What is written ahead of each part separates them. -/
theorem flatMap_cons_eq {c : Char} {f : Text → Text} {segments : List Text} (hne : segments ≠ []) :
    segments.flatMap (fun segment => c :: f segment) = c :: [c].intercalate (segments.map f) := by
  induction segments with
  | nil => exact absurd rfl hne
  | cons segment segments ih =>
    rw [List.flatMap_cons, List.map_cons]
    by_cases hnil : segments = []
    · subst hnil
      simp
    · rw [ih hnil, List.intercalate_cons_of_ne_nil (by simpa using hnil)]
      simp

/-- The pointer of some segments goes down by them. -/
theorem Json.pointer_flatMap {segments : List Text} (hne : segments ≠ []) (value : Json) :
    value.pointer (segments.flatMap fun segment => '/' :: escapeToken segment) = value.walk segments := by
  have hslash : ∀ token ∈ segments.map escapeToken, '/' ∉ token := by
    intro token htoken
    obtain ⟨segment, -, rfl⟩ := List.mem_map.mp htoken
    exact slash_notMem_escapeToken segment
  have hundo : Json.unescapeToken ∘ escapeToken = id := funext unescape_escape
  rw [flatMap_cons_eq hne, Json.pointer, split_singleton, List.splitOn_intercalate '/' hslash (by simpa using hne),
    List.map_map, hundo, List.map_id, Json.foldlM_step]

/-! ## Dotted selectors -/

/-- The segments of a dotted path: it is neither empty nor a pointer. -/
structure Dotted (segments : List Text) : Prop where
  nonempty : segments ≠ []
  noDot : ∀ segment ∈ segments, '.' ∉ segment
  notPointer : ∀ first ∈ segments.head?, ¬ ['/'] <+: first
  notEmpty : segments ≠ [[]]

def dottedSpec (segments : List Text) : String := "body:" ++ String.ofList (['.'].intercalate segments)

theorem Dotted.lowerPath {segments : List Text} (h : Dotted segments) :
    lowerPath (['.'].intercalate segments) = .ok (segments.flatMap fun segment => '/' :: escapeToken segment) := by
  obtain ⟨first, rest, rfl⟩ := List.exists_cons_of_ne_nil h.nonempty
  have hfirst := h.notPointer first rfl
  have hhead : ['.'].intercalate (first :: rest) ≠ [] ∧
      (['.'].intercalate (first :: rest)).head? ≠ some '/' := by
    cases first with
    | cons c first =>
      have hc : c ≠ '/' := fun hc => hfirst (hc ▸ (List.cons_prefix_cons.mpr ⟨rfl, List.nil_prefix⟩))
      cases rest with
      | nil => simpa using hc
      | cons second rest => simpa [List.intercalate_cons_cons] using hc
    | nil =>
      cases rest with
      | nil => exact absurd rfl h.notEmpty
      | cons second rest => simp [List.intercalate_cons_cons]
  rw [Core.lowerPath, if_neg hhead.1, if_neg hhead.2, split_singleton,
    List.splitOn_intercalate '.' h.noDot h.nonempty]
  rfl

theorem parse_body (path : Text) : Selector.parse ("body:" ++ String.ofList path) =
    (lowerPath path).map fun pointer => .bodyPointer (String.ofList pointer) := by
  have hlist : ("body:" ++ String.ofList path).toList = "body:".toList ++ path := by
    simp
  have hstatus : "body:" ++ String.ofList path ≠ "status" := by
    intro h
    have := congrArg String.toList h
    rw [hlist] at this
    cases this
  have hheader : stripPrefix? "header:".toList ("body:".toList ++ path) = none := if_neg (by simp)
  have hbody : stripPrefix? "body:".toList ("body:".toList ++ path) = some path := by
    rw [stripPrefix?, if_pos (List.prefix_append _ _), List.drop_left]
  rw [Selector.parse, if_neg hstatus, hlist, hheader, hbody]

/-- A dotted selector goes down the document of a body by its segments, as they are:
it has the value that they reach, and none when one of them leads nowhere. -/
theorem resolveValue_dotted {segments : List Text} (h : Dotted segments) :
    ∃ selector, Selector.parse (dottedSpec segments) = .ok selector ∧
      ∀ (fromStr : String → Option Json) (response : CallResponse),
        selector.resolveValue fromStr response = (fromStr response.body).bind fun value => value.walk segments := by
  refine ⟨.bodyPointer (String.ofList (segments.flatMap fun segment => '/' :: escapeToken segment)), ?_, ?_⟩
  · rw [dottedSpec, parse_body, h.lowerPath]
    rfl
  · intro fromStr response
    rw [Selector.resolveValue, String.toList_ofList]
    simp only [Json.pointer_flatMap h.nonempty]

/-- A selector with both characters that are escaped, an index and an empty segment. -/
theorem resolveValue_dotted_escapes : ∃ selector, Selector.parse "body:a/~1..0" = .ok selector ∧
    ∀ (fromStr : String → Option Json) (response : CallResponse),
      fromStr response.body = some (.object [("a/~1", .object [("", .array [.bool true])])]) →
      selector.resolveValue fromStr response = some (.bool true) := by
  have hdotted : Dotted ["a/~1".toList, [], "0".toList] := ⟨by decide, by decide, by decide, by decide⟩
  obtain ⟨selector, hparse, hresolve⟩ := resolveValue_dotted hdotted
  refine ⟨selector, hparse, fun fromStr response hbody => ?_⟩
  rw [hresolve, hbody]
  rfl

end WireSurge.Core
