import WireSurge.Core.Masking
import WireSurge.Core.Normal
import WireSurge.Engine.Run
import WireSurge.Lib.Quote

/-!
# Secrets in a failed assertion

The message of a `body_eq` that fails has the value found in it, as JSON. It is
masked as text, for the secrets as they are and not as JSON writes them:
`assertion_keeps_iff` says for which secrets that is enough.
-/

namespace WireSurge.Engine

open WireSurge.Core
open Str (Text Unmarkable maskAll toAsciiLowercase)

/-! ## The library of JSON -/

/-- An object with one string in it. -/
def bodyOf (s : String) : String :=
  String.ofList ("\x7b\"v\":".toList ++ Quote.quote s.toList ++ "\x7d".toList)

/-- What `serde_json` writes and reads, as far as it is used here. -/
structure Serde (json : JsonText) : Prop where
  null : json.toString .null = "null"
  string (s : String) : json.toString (.string s) = String.ofList (Quote.quote s.toList)
  read (s : String) : json.fromStr (bodyOf s) = some (.object [("v", .string s)])

/-- The message of no failed `body_eq` that finds a string with the secret in it has
the secret, as it is or as JSON writes it, unless the assertion has it itself. -/
def KeepsSecret (json : JsonText) (secretValues : List Text) (secret : Text) : Prop :=
  ∀ (expect : Expect) (bodyEq : BodyEq) (response : HttpResponse) (found : String) (error : WireSurgeError),
    expect.bodyEq = some bodyEq → Selector.parse bodyEq.raw = .ok bodyEq.selector →
    bodyEq.selector.resolveValue json.fromStr response.toCallResponse = some (.string found) →
    secret <:+: found.toList → ¬ secret <:+: (json.toString bodyEq.value).toList → ¬ secret <:+: bodyEq.raw.toList →
    evaluateExpect json (some expect) response secretValues = .failed error →
    ¬ secret <:+: error.message.toList ∧ ¬ Quote.escape secret <:+: error.message.toList

/-! ## The message -/

variable {json : JsonText} {bodyEq : BodyEq} {response : HttpResponse} {actual : Json} {secretValues : List Text}
  {secret t : Text}

/-- What a failed `body_eq` says, but for the value. -/
def messageBefore (json : JsonText) (bodyEq : BodyEq) : Text :=
  ("expected " ++ bodyEq.raw ++ " to equal " ++ json.toString bodyEq.value ++ ", got ").toList

theorem evaluate_bodyEq (json : JsonText) (bodyEq : BodyEq) (response : CallResponse) (secretValues : List Text) :
    evaluate json { status := none, bodyEq := some bodyEq } response secretValues =
      evaluateBodyEq json bodyEq response secretValues := rfl

theorem evaluateExpect_mismatch (secretValues : List Text)
    (hfound : bodyEq.selector.resolveValue json.fromStr response.toCallResponse = some actual)
    (hne : actual.valuesMatch bodyEq.value = false) :
    ∃ error, evaluateExpect json (some { status := none, bodyEq := some bodyEq }) response secretValues =
      .failed error ∧
      error.message.toList = maskSecretValues
        (messageBefore json bodyEq ++ redactValue (json.toString actual).toList secretValues) secretValues := by
  have hevaluate : evaluate json { status := none, bodyEq := some bodyEq } response.toCallResponse secretValues =
      .error (assertionFailed ("expected " ++ bodyEq.raw ++ " to equal " ++ json.toString bodyEq.value ++
        ", got " ++ String.ofList (redactValue (json.toString actual).toList secretValues))) := by
    rw [evaluate_bodyEq, evaluateBodyEq]
    simp only [hfound, hne, Bool.false_eq_true, if_false]
  refine ⟨_, by rw [evaluateExpect]; simp only [hevaluate]; rfl, ?_⟩
  show (String.ofList _).toList = _
  rw [String.toList_ofList]
  apply congrArg (maskSecretValues · secretValues)
  show (_ ++ String.ofList _).toList = _
  rw [String.toList_append, String.toList_ofList, messageBefore]

/-- What no masked text occurs in stays in its brackets. -/
theorem mask_bracketed (h : ∀ s ∈ secretValues, s ≠ [] → Unmarkable redactedWord s)
    (hno : ∀ p ∈ patterns secretValues, ¬ p <:+: t) (a b : Text) :
    maskSecretValues (a ++ '[' :: (t ++ ']' :: b)) secretValues =
      maskSecretValues a secretValues ++ '[' :: (t ++ ']' :: maskSecretValues b secretValues) := by
  have hpats := unmarkable_patterns h
  simp only [maskSecretValues_eq]
  rw [Str.maskAll_append_cons hpats fun p hp => (hpats p hp).left,
    Str.maskAll_append_cons hpats fun p hp => (hpats p hp).right,
    Str.maskAll_of_absent (fun p hp => (hpats p hp).nonempty) hno]

theorem infix_bracketed (a b : Text) : t <:+: a ++ '[' :: (t ++ ']' :: b) :=
  ⟨a ++ ['['], ']' :: b, by simp only [List.append_assoc, List.cons_append, List.nil_append]⟩

/-! ## A secret that is shown -/

/-- What JSON does not write as it is has a character that no plain text has. -/
theorem not_infix_of_escape (h : Quote.escape secret ≠ secret) (ht : t.any Quote.special = false) :
    ¬ secret <:+: t := by
  intro hin
  apply h
  exact Quote.escape_of_plain fun c hc => Bool.eq_false_iff.mpr (List.any_eq_false.mp ht c (hin.subset hc))

theorem pointer_v (value : Json) : (Json.object [("v", value)]).pointer "/v".toList = some value := by
  have hsplit : Str.split ['/'] ['v'] = [['v']] := Str.split_of_none (by decide) (by decide)
  have htoken : Json.unescapeToken ['v'] = ['v'] := by
    have hslash : Str.replace ['~', '1'] ['/'] ['v'] = ['v'] := Str.replace_of_absent (by decide) (by decide)
    rw [Json.unescapeToken, hslash]
    exact Str.replace_of_absent (by decide) (by decide)
  show ((Str.split ['/'] ['v']).map Json.unescapeToken).foldlM _ _ = _
  rw [hsplit, List.map_singleton, htoken]
  simp [Json.step, Json.get?]

/-- The value in a body shows it, when JSON writes the value without a marker word. -/
theorem shown_in_body (hjson : Serde json) (h : ∀ s ∈ secretValues, s ≠ [] → Unmarkable redactedWord s)
    (hescape : Quote.escape secret ≠ secret) (hno : ∀ p ∈ patterns secretValues, ¬ p <:+: Quote.escape secret)
    (hmarker : containsSensitiveMarker (Quote.quote ('[' :: (secret ++ [']']))) = false) :
    ¬ KeepsSecret json secretValues secret := by
  intro hkeeps
  let found := String.ofList ('[' :: (secret ++ [']']))
  let bodyEq : BodyEq := { selector := .bodyPointer "/v", value := .null, raw := "body:/v" }
  let response : HttpResponse :=
    { statusCode := 200, reason := "OK", headers := ∅, body := bodyOf found, durationMs := 0, warnings := [] }
  have hlist : found.toList = '[' :: (secret ++ [']']) := String.toList_ofList
  have hfound : bodyEq.selector.resolveValue json.fromStr response.toCallResponse = some (.string found) := by
    show (json.fromStr (bodyOf found)).bind _ = _
    rw [hjson.read, Option.bind_some, pointer_v]
  obtain ⟨error, herror, hmessage⟩ := evaluateExpect_mismatch secretValues hfound rfl
  have hparse : Selector.parse bodyEq.raw = .ok bodyEq.selector := by decide +kernel
  have hnull : (json.toString bodyEq.value).toList = "null".toList := by rw [hjson.null]
  have hplain := not_infix_of_escape (t := "null".toList) hescape (by decide)
  have hraw := not_infix_of_escape (t := "body:/v".toList) hescape (by decide)
  have hin : secret <:+: found.toList := ⟨['['], [']'], by simp [hlist]⟩
  have hshown := (hkeeps _ bodyEq response found error rfl hparse hfound hin (hnull ▸ hplain) hraw herror).2
  apply hshown
  -- the message is masked as a part and as a whole
  have hquote : Quote.quote ('[' :: (secret ++ [']'])) = ['"'] ++ '[' :: (Quote.escape secret ++ ']' :: ['"']) := by
    show '"' :: Quote.escape (['['] ++ (secret ++ [']'])) ++ ['"'] = _
    rw [Quote.escape_append, Quote.escape_append, List.cons_append, List.append_assoc, List.append_assoc]
    rfl
  have hredact : redactValue (json.toString (.string found)).toList secretValues =
      maskSecretValues ['"'] secretValues ++
        '[' :: (Quote.escape secret ++ ']' :: maskSecretValues ['"'] secretValues) := by
    rw [hjson.string, String.toList_ofList, hlist, redactValue, hmarker, if_neg Bool.false_ne_true, hquote]
    exact mask_bracketed h hno _ _
  rw [hmessage, hredact, ← List.append_assoc, mask_bracketed h hno]
  exact infix_bracketed _ _

theorem parse_header {name : Text} (hname : name ≠ []) :
    Selector.parse (String.ofList ("header:".toList ++ name)) =
      .ok (.header (toAsciiLowercase (String.ofList name))) := by
  have hstatus : String.ofList ("header:".toList ++ name) ≠ "status" := by
    intro heq
    have := congrArg String.toList heq
    rw [String.toList_ofList] at this
    cases this
  have hstrip : stripPrefix? "header:".toList ("header:".toList ++ name) = some name := by
    rw [stripPrefix?, if_pos (List.prefix_append _ _), List.drop_left]
  have hlist : (String.ofList ("header:".toList ++ name)).toList = "header:".toList ++ name := String.toList_ofList
  rw [Selector.parse, if_neg hstatus, hlist, hstrip]
  exact if_neg hname

/-- The text of a selector shows it, where that has the secret as JSON writes it. -/
theorem shown_in_selector (hjson : Serde json) (h : ∀ s ∈ secretValues, s ≠ [] → Unmarkable redactedWord s)
    (hleft : '[' ∉ secret) (hright : ']' ∉ secret) (hmem : secret ∈ patterns secretValues)
    (hescape : Quote.escape secret ≠ secret) (hno : ∀ p ∈ patterns secretValues, ¬ p <:+: Quote.escape secret) :
    ¬ KeepsSecret json secretValues secret := by
  intro hkeeps
  let name : Text := '[' :: (Quote.escape secret ++ [']'])
  let header := toAsciiLowercase (String.ofList name)
  let bodyEq : BodyEq :=
    { selector := .header header, value := .null, raw := String.ofList ("header:".toList ++ name) }
  let response : HttpResponse :=
    { statusCode := 200, reason := "OK"
      headers := (∅ : BTreeMap String).insert header (String.ofList secret)
      body := "", durationMs := 0, warnings := [] }
  have hfound : bodyEq.selector.resolveValue json.fromStr response.toCallResponse =
      some (.string (String.ofList secret)) := by
    show ((lowerKeys ((∅ : BTreeMap String).insert header (String.ofList secret)))[header]?).map _ = _
    rw [(LowerKeys.empty.insert (String.ofList name) (String.ofList secret)).lowerKeys_eq,
      Std.ExtTreeMap.getElem?_insert_self]
    rfl
  obtain ⟨error, herror, hmessage⟩ := evaluateExpect_mismatch secretValues hfound rfl
  have hparse : Selector.parse bodyEq.raw = .ok bodyEq.selector := parse_header (List.cons_ne_nil _ _)
  have hnull : (json.toString bodyEq.value).toList = "null".toList := by rw [hjson.null]
  have hplain := not_infix_of_escape (t := "null".toList) hescape (by decide)
  have hlist : bodyEq.raw.toList = "header:".toList ++ name := String.toList_ofList
  have hraw : ¬ secret <:+: bodyEq.raw.toList := by
    intro hin
    rw [hlist] at hin
    rcases Str.infix_append_cons hleft hin with hin | hin
    · exact not_infix_of_escape (t := "header:".toList) hescape (by decide) hin
    · rcases Str.infix_append_cons hright hin with hin | hin
      · exact hno secret hmem hin
      · exact hescape (by rw [List.infix_nil.mp hin]; rfl)
  have hshown := (hkeeps _ bodyEq response (String.ofList secret) error rfl hparse hfound
    (by rw [String.toList_ofList]) (hnull ▸ hplain) hraw herror).2
  apply hshown
  have hbefore (behind : Text) : ∃ a b, messageBefore json bodyEq ++ behind =
      a ++ '[' :: (Quote.escape secret ++ ']' :: b) := by
    refine ⟨"expected ".toList ++ "header:".toList, " to equal null, got ".toList ++ behind, ?_⟩
    rw [messageBefore, hjson.null]
    simp only [String.toList_append, hlist, name, List.append_assoc, List.cons_append, List.nil_append]
    rfl
  obtain ⟨a, b, heq⟩ := hbefore (redactValue (json.toString (.string (String.ofList secret))).toList secretValues)
  rw [hmessage, heq, mask_bracketed h hno]
  exact infix_bracketed _ _

/-- A failed assertion keeps a secret when one of the texts that are masked occurs
in it as JSON writes it. -/
theorem assertion_keeps_iff (hjson : Serde json) (h : ∀ s ∈ secretValues, s ≠ [] → Unmarkable redactedWord s)
    (hs : secret ∈ secretValues) (hne : secret ≠ []) :
    KeepsSecret json secretValues secret ↔ ∃ p ∈ patterns secretValues, p <:+: Quote.escape secret := by
  have hmem : secret ∈ patterns secretValues := mem_patterns.mpr ⟨secret, hs, hne, .inl rfl⟩
  have hpats := unmarkable_patterns h
  constructor
  · intro hkeeps
    by_contra hno
    push Not at hno
    have hescape : Quote.escape secret ≠ secret := fun heq => hno secret hmem (by rw [heq])
    exact shown_in_selector hjson h (hpats _ hmem).left (hpats _ hmem).right hmem hescape hno hkeeps
  · rintro ⟨p, hp, hin⟩ expect bodyEq response found error - - - - - - herror
    have hmessage : ∃ input, error.message.toList = maskAll redactedWord (patterns secretValues) input := by
      rw [evaluateExpect] at herror
      split at herror
      · cases herror
      · cases herror
        exact ⟨_, by rw [← maskSecretValues_eq]; exact String.toList_ofList⟩
    obtain ⟨input, hmessage⟩ := hmessage
    rw [hmessage]
    exact ⟨Str.not_infix_maskAll hpats input secret hmem, fun hshown =>
      Str.not_infix_maskAll hpats input p hp (hin.trans hshown)⟩

/-! ### A secret with a quote -/

/-- The library on what is used of it. -/
def plainJson : JsonText where
  toString
    | .null => "null"
    | .string s => String.ofList (Quote.quote s.toList)
    | _ => ""
  fromStr text :=
    (stripPrefix? "\x7b\"v\":\"".toList text.toList).bind fun rest =>
      (Quote.unescape (rest.take (rest.length - 2))).map fun s => .object [("v", .string (String.ofList s))]

theorem serde_plainJson : Serde plainJson where
  null := rfl
  string _ := rfl
  read s := by
    have hlist : (bodyOf s).toList =
        "\x7b\"v\":\"".toList ++ (Quote.escape s.toList ++ "\"\x7d".toList) := by
      have hbody : (bodyOf s).toList = "\x7b\"v\":".toList ++ Quote.quote s.toList ++ "\x7d".toList :=
        String.toList_ofList
      rw [hbody, Quote.quote, List.cons_append, List.append_cons]
      simp only [List.append_assoc]
      rfl
    have htake : (Quote.escape s.toList ++ "\"\x7d".toList).take
        ((Quote.escape s.toList ++ "\"\x7d".toList).length - 2) = Quote.escape s.toList := by
      apply List.take_left'
      simp
    simp only [plainJson, hlist]
    rw [stripPrefix?, if_pos (List.prefix_append _ _), List.drop_left, Option.bind_some, htake,
      Quote.unescape_escape, Option.map_some, String.ofList_toList]

/-- `assertion_keeps_iff` on a secret that JSON writes as it is. -/
theorem assertion_keeps_plain : KeepsSecret plainJson ["hunter2".toList] "hunter2".toList := by
  have hone : ∀ s ∈ ["hunter2".toList], s ≠ [] → Unmarkable redactedWord s :=
    unmarkable_singleton ⟨by decide, by decide, by decide, by decide⟩
  refine (assertion_keeps_iff serde_plainJson hone List.mem_cons_self (by decide)).mpr ?_
  exact ⟨"hunter2".toList, mem_patterns.mpr ⟨_, List.mem_cons_self, by decide, .inl rfl⟩, by decide⟩

/-- The quote is written with a backslash, and nothing that is masked has one. -/
theorem assertion_shows_quote : ¬ ∀ (json : JsonText) (secretValues : List Text) (secret : Text), Serde json →
    (∀ s ∈ secretValues, Unmarkable redactedWord s) → secret ∈ secretValues → KeepsSecret json secretValues secret := by
  intro h
  have hone : ∀ s ∈ ["pa\"ss".toList], Unmarkable redactedWord s :=
    List.forall_mem_singleton.mpr ⟨by decide, by decide, by decide, by decide⟩
  have hkeeps := h plainJson _ _ serde_plainJson hone List.mem_cons_self
  have hno : ∀ p ∈ patterns ["pa\"ss".toList], ¬ p <:+: Quote.escape "pa\"ss".toList := by
    intro p hp
    obtain ⟨s, hs, -, hp⟩ := mem_patterns.mp hp
    rw [List.mem_singleton] at hs
    subst hs
    rcases hp with rfl | rfl <;> decide
  exact shown_in_body serde_plainJson (fun s hs _ => hone s hs) (by decide) hno (by decide +kernel) hkeeps

end WireSurge.Engine
