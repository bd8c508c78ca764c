import WireSurge.Core.Scenario

/-!
# Secrets in an expanded request

An expansion writes the values of secrets into the request, and they are
masked when the request is serialized, in every field but the method.
`expand_no_secret_iff` says exactly when none of them is seen.
-/

namespace WireSurge.Core

open Checked (Panic map_eq_ok)
open Str (Text Unmarkable splitOnce toAsciiLowercase toAsciiUppercase)

/-! ## What an expansion gives -/

namespace Expanding

variable {α β : Type} {scope scope' : Scope} {a : α} {b : β}

/-- `x`, from `scope`, gives `a` and leaves `scope'`. -/
def Gives (x : Expanding α) (scope : Scope) (a : α) (scope' : Scope) : Prop := x scope = some (.ok (.ok a, scope'))

instance [DecidableEq α] (x : Expanding α) : Decidable (Gives x scope a scope') :=
  inferInstanceAs (Decidable (@Eq (Option (Except Panic (Except WireSurgeError α × Scope))) (x scope) _))

theorem gives_bind {x : Expanding α} {f : α → Expanding β} (h : Gives (x >>= f) scope b scope') :
    ∃ a mid, Gives x scope a mid ∧ Gives (f a) mid b scope' := by
  simp only [Gives, bind, ExceptT.bind, ExceptT.mk, StateT.bind, Option.bind] at h ⊢
  cases hx : x scope with
  | none =>
    rw [hx] at h
    cases h
  | some r =>
    rw [hx] at h
    rcases r with _ | ⟨_ | a, mid⟩
    · cases h
    · cases h
    · exact ⟨a, mid, rfl, h⟩

/-- What the steps of a fold keep. -/
theorem gives_foldlM {f : β → α → Expanding β} {P : β → Prop}
    (hf : ∀ {b a scope b' scope'}, P b → Gives (f b a) scope b' scope' → P b') {l : List α} {b b' : β}
    (hb : P b) (h : Gives (l.foldlM f b) scope b' scope') : P b' := by
  induction l generalizing b scope with
  | nil =>
    cases h
    exact hb
  | cons a l ih =>
    rw [List.foldlM_cons] at h
    obtain ⟨b₁, mid, hone, h⟩ := gives_bind h
    exact ih (hf hb hone) h

theorem gives_liftExcept {x : Except WireSurgeError α} (h : Gives (liftExcept x) scope a scope') : x = .ok a := by
  cases x with
  | error => cases h
  | ok => cases h; rfl

theorem gives_pure {a' : α} (h : Gives (pure a') scope a scope') : a = a' := by
  cases h
  rfl

end Expanding

open Expanding

/-- The method is expanded first, the headers from some scope, and what is made of
them is valid. -/
theorem RunSpec.expand_gives {spec : RunSpec} {scope scope' : Scope} {request : RequestSpec}
    (h : Gives spec.expand scope request scope') :
    ∃ method mid, Gives (expandField spec.method) scope method mid ∧ request.method = toAsciiUppercase method ∧
      (∃ mid' mid'', Gives (expandHeaders spec.headers.toList) mid' request.headers mid'') ∧
      request.validate = .ok () := by
  obtain ⟨method, mid, hmethod, h⟩ := gives_bind h
  obtain ⟨url, _, -, h⟩ := gives_bind h
  obtain ⟨headers, _, hheaders, h⟩ := gives_bind h
  obtain ⟨body, _, -, h⟩ := gives_bind h
  obtain ⟨_, _, hvalid, h⟩ := gives_bind h
  obtain rfl := gives_pure h
  exact ⟨method, mid, hmethod, rfl, ⟨_, _, hheaders⟩, gives_liftExcept hvalid⟩

/-! ## What a template spells -/

namespace Scope

/-- The values of the secrets. -/
def secretValues (s : Scope) : List Text := s.secrets.values.map String.toList

/-- What a key stands for. -/
def value (s : Scope) (key : Text) : Text :=
  match (s.resolve key).1 with
  | .ok value => value
  | .error _ => []

theorem value_of_resolve {s s' : Scope} {key value : Text} (h : s.resolve key = (.ok value, s')) :
    s.value key = value := by
  rw [Scope.value, h]

/-- Only `uuid` counts the scope on. -/
theorem resolve_of_ne_uuid (s : Scope) {key : Text} (h : key ≠ "uuid".toList) : (s.resolve key).2 = s := by
  unfold resolve
  split
  · rfl
  · split <;> rfl

theorem dash_mem_nextUuid (s : Scope) : '-' ∈ s.nextUuid.1 := by
  rw [nextUuid]
  exact List.mem_append_left _ (List.mem_append_left _ (List.mem_append_right _ List.mem_cons_self))

end Scope

/-- What a piece stands for. -/
def Piece.text (scope : Scope) : Piece → Text
  | .char c => [c]
  | .ref key => scope.value key
  | .unterminated => []

/-- What a template says, with its references replaced. -/
def spell (scope : Scope) (template : String) : Text := (pieces template.toList).flatMap (Piece.text scope)

section

variable {p : Piece} {ps : List Piece} {scope scope' : Scope} {text : Text}

/-- What stands for the first piece, and the scope that the others go on from. -/
theorem fill_cons (h : fill (p :: ps) scope = (.ok text, scope')) :
    ∃ mid rest, fill ps mid = (.ok rest, scope') ∧ text = p.text scope ++ rest ∧
      (p ≠ .ref "uuid".toList → mid = scope) := by
  cases p with
  | char c =>
    rw [fill, Prod.mk.injEq] at h
    obtain ⟨rest, hrest, rfl⟩ := map_eq_ok.mp h.1
    exact ⟨scope, rest, Prod.ext hrest h.2, rfl, fun _ => rfl⟩
  | unterminated => cases h
  | ref key =>
    rw [fill] at h
    cases hr : scope.resolve key with
    | mk result mid =>
      rw [hr] at h
      cases result with
      | error => cases h
      | ok value =>
        rw [Prod.mk.injEq] at h
        obtain ⟨rest, hrest, rfl⟩ := map_eq_ok.mp h.1
        refine ⟨mid, rest, Prod.ext hrest h.2, by rw [Piece.text, Scope.value_of_resolve hr], fun hne => ?_⟩
        have hsnd := scope.resolve_of_ne_uuid fun hk => hne (congrArg Piece.ref hk)
        rwa [hr] at hsnd

theorem fill_eq_flatMap (huuid : .ref "uuid".toList ∉ ps) (h : fill ps scope = (.ok text, scope')) :
    text = ps.flatMap (Piece.text scope) := by
  induction ps generalizing text scope with
  | nil =>
    cases h
    rfl
  | cons p ps ih =>
    obtain ⟨mid, rest, hf, rfl, hmid⟩ := fill_cons h
    rw [List.mem_cons, not_or] at huuid
    obtain rfl := hmid (Ne.symm huuid.1)
    rw [List.flatMap_cons, ih huuid.2 hf]

theorem dash_mem_fill (huuid : .ref "uuid".toList ∈ ps) (h : fill ps scope = (.ok text, scope')) : '-' ∈ text := by
  induction ps generalizing text scope with
  | nil => cases huuid
  | cons p ps ih =>
    obtain ⟨mid, rest, hf, rfl, -⟩ := fill_cons h
    rcases List.mem_cons.mp huuid with rfl | hin
    · exact List.mem_append_left _ scope.dash_mem_nextUuid
    · exact List.mem_append_right _ (ih hin hf)

end

/-- The method of an expanded request is what its template spells: a `uuid` has
dashes, which no method has. -/
theorem RunSpec.expand_method {spec : RunSpec} {scope scope' : Scope} {request : RequestSpec}
    (h : Gives spec.expand scope request scope') :
    request.method.toList = (spell scope spec.method).map Char.toUpper := by
  obtain ⟨method, mid, hmethod, hreq, -, hvalid⟩ := RunSpec.expand_gives h
  have hup := (RequestSpec.validate_eq_ok.mp hvalid).2.2.2.2.2
  rw [Gives, expandField, expand_eq, Option.some.injEq, Except.ok.injEq, Prod.mk.injEq] at hmethod
  obtain ⟨text, htext, rfl⟩ := map_eq_ok.mp hmethod.1
  have hfill : fill (pieces spec.method.toList) scope = (.ok text, mid) := Prod.ext htext hmethod.2
  have hlist : request.method.toList = text.map Char.toUpper := by
    rw [hreq, toAsciiUppercase, String.toList_map, String.toList_ofList]
  rw [hlist, spell, ← fill_eq_flatMap (fun huuid => ?_) hfill]
  have hdash := hup '-'.toUpper (by rw [hlist]; exact List.mem_map_of_mem (dash_mem_fill huuid hfill))
  exact absurd hdash (by decide)

/-! ## What is shown -/

/-- The template refers to a secret. -/
def RefersToSecret (template : String) : Prop :=
  ∃ key name, .ref key ∈ pieces template.toList ∧ splitOnce ['.'] key = some ("secrets".toList, name)

namespace RunSpec

/-- The templates, each with the path of the field that it fills. -/
def templates (spec : RunSpec) : List (String × List String) :=
  (spec.method, ["method"]) :: (spec.url, ["url"]) ::
    (spec.headers.toList.map (fun entry => (entry.2, ["headers", toAsciiLowercase entry.1])) ++
      spec.body.toList.map fun body => (body, ["body"]))

/-- No field whose template refers to a secret shows one. -/
def NoSecretLeaves (spec : RunSpec) (secretValues : List Text) (shown : Json) : Prop :=
  ∀ entry ∈ spec.templates, RefersToSecret entry.1 →
    ∀ text, shown.at? entry.2 = some (.string text) → ∀ secret ∈ secretValues, ¬ secret <:+: text.toList

end RunSpec

section

variable {secret : Text} {secretValues : List Text}

theorem redactString_no_secret (hs : Unmarkable redactedWord secret) (hmem : secret ∈ secretValues) (input : String) :
    ¬ secret <:+: (RequestSpec.redactString input secretValues).toList := by
  rw [RequestSpec.redactString, String.toList_ofList]
  exact redactValue_no_secret hs hmem input.toList

theorem redactHeader_no_secret (hs : Unmarkable redactedWord secret) (hmem : secret ∈ secretValues)
    (key value : String) : ¬ secret <:+: (RequestSpec.redactHeader secretValues key value).toList := by
  rw [RequestSpec.redactHeader]
  split
  · rw [String.toList_ofList]
    exact hs.not_infix_mark
  · exact redactString_no_secret hs hmem value

theorem at?_method (r : RequestSpec) : (r.toJsonValueWith secretValues).at? ["method"] = some (.string r.method) :=
  rfl

theorem at?_url (r : RequestSpec) :
    (r.toJsonValueWith secretValues).at? ["url"] = some (.string (RequestSpec.redactString r.url secretValues)) :=
  rfl

theorem at?_body (r : RequestSpec) {text : String}
    (h : (r.toJsonValueWith secretValues).at? ["body"] = some (.string text)) :
    ∃ body, text = RequestSpec.redactString body secretValues := by
  have hbody : (r.toJsonValueWith secretValues).at? ["body"] =
      some (((r.redactedOutput secretValues).body.map .string).getD .null) := rfl
  rw [hbody, RequestSpec.redactedOutput] at h
  cases hr : r.body with
  | none =>
    rw [hr] at h
    cases h
  | some body =>
    rw [hr] at h
    cases h
    exact ⟨body, rfl⟩

theorem at?_header (r : RequestSpec) {key text : String}
    (h : (r.toJsonValueWith secretValues).at? ["headers", key] = some (.string text)) :
    ∃ value, text = RequestSpec.redactHeader secretValues key value := by
  obtain ⟨v, hv, h⟩ := Option.bind_eq_some_iff.mp (show (Json.object _).get? key >>= (·.at? []) = _ from h)
  obtain ⟨entry, hentry, heq⟩ := List.mem_map.mp (Json.mem_of_get? hv)
  obtain ⟨rfl, rfl⟩ := Prod.mk.inj heq
  cases h
  have hget := Std.ExtTreeMap.mem_toList_iff_getElem?_eq_some.mp hentry
  rw [RequestSpec.redactedOutput, Std.ExtTreeMap.getElem?_map] at hget
  obtain ⟨value, -, hvalue⟩ := Option.map_eq_some_iff.mp hget
  exact ⟨value, hvalue.symm⟩

end

/-- Of an expanded request with all secrets masked, no field whose template
refers to a secret shows one, except when it is the method, and what its
template spells in capital letters has one in it. -/
theorem expand_no_secret_iff {spec : RunSpec} {scope scope' : Scope} {request : RequestSpec}
    (hsecrets : ∀ secret ∈ scope.secretValues, Unmarkable redactedWord secret)
    (h : Gives spec.expand scope request scope') :
    spec.NoSecretLeaves scope.secretValues (request.toJsonValueWith scope.secretValues) ↔
      ¬ (RefersToSecret spec.method ∧
        ∃ secret ∈ scope.secretValues, secret <:+: (spell scope spec.method).map Char.toUpper) := by
  have hmethod := RunSpec.expand_method h
  constructor
  · rintro hno ⟨hrefers, secret, hsecret, hin⟩
    refine hno _ List.mem_cons_self hrefers request.method (at?_method request) secret hsecret ?_
    rwa [hmethod]
  · rintro hno entry hentry hrefers text htext secret hsecret hin
    have hs := hsecrets secret hsecret
    simp only [RunSpec.templates, List.mem_cons, List.mem_append, List.mem_map] at hentry
    rcases hentry with rfl | rfl | ⟨header, -, rfl⟩ | ⟨body, -, rfl⟩
    · rw [at?_method] at htext
      cases htext
      exact hno ⟨hrefers, secret, hsecret, hmethod ▸ hin⟩
    · rw [at?_url] at htext
      cases htext
      exact redactString_no_secret hs hsecret _ hin
    · obtain ⟨value, rfl⟩ := at?_header request htext
      exact redactHeader_no_secret hs hsecret _ value hin
    · obtain ⟨body, rfl⟩ := at?_body request htext
      exact redactString_no_secret hs hsecret body hin

/-- A run with a secret in each of the fields that show its value. -/
def sampleSpec (method : String) : RunSpec where
  id := "r"
  name := "r"
  method := method
  url := "http://h/?q=\x7b\x7bsecrets.k\x7d\x7d"
  headers := (∅ : BTreeMap String).insert "X-A" "a \x7b\x7b secrets.k \x7d\x7d"
  body := some "\x7b\x7bsecrets.k\x7d\x7d \x7b\x7bsecrets.k\x7d\x7d"
  vars := ∅
  expect := none

def secretScope (secret : String) : Scope := .new ∅ ((∅ : BTreeMap String).insert "k" secret) 0 0 0

def sampleRequest (method secret : String) : RequestSpec where
  id := "r"
  name := "r"
  method := method
  url := "http://h/?q=" ++ secret
  headers := (∅ : BTreeMap String).insert "x-a" ("a " ++ secret)
  body := some (secret ++ " " ++ secret)

/-- `expand_no_secret_iff` on a run that posts a secret. -/
theorem expand_no_secret_post :
    (sampleSpec "post").NoSecretLeaves (secretScope "hunter2").secretValues
      ((sampleRequest "POST" "hunter2").toJsonValueWith (secretScope "hunter2").secretValues) := by
  have hsecrets : (secretScope "hunter2").secretValues = ["hunter2".toList] := by decide +kernel
  have hexpand : Gives (sampleSpec "post").expand (secretScope "hunter2") (sampleRequest "POST" "hunter2")
      (secretScope "hunter2") := by decide +kernel
  refine (expand_no_secret_iff (fun secret hsecret => ?_) hexpand).mpr fun h => absurd h.2 (by decide +kernel)
  rw [hsecrets, List.mem_singleton] at hsecret
  subst hsecret
  exact ⟨by decide, by decide, by decide, by decide⟩

/-- A method may be a secret, and is shown. -/
theorem expand_shows_secret_method :
    ∃ spec scope request scope', (∀ secret ∈ Scope.secretValues scope, Unmarkable redactedWord secret) ∧
      Gives (RunSpec.expand spec) scope request scope' ∧
      ¬ spec.NoSecretLeaves scope.secretValues (request.toJsonValueWith scope.secretValues) := by
  have hsecrets : (secretScope "PASS").secretValues = ["PASS".toList] := by decide +kernel
  refine ⟨sampleSpec "\x7b\x7bsecrets.k\x7d\x7d", secretScope "PASS", sampleRequest "PASS" "PASS",
    secretScope "PASS", ?_,
    by decide +kernel, fun hno => ?_⟩
  · intro secret hsecret
    rw [hsecrets, List.mem_singleton] at hsecret
    subst hsecret
    exact ⟨by decide, by decide, by decide, by decide⟩
  · have hrefers : RefersToSecret "\x7b\x7bsecrets.k\x7d\x7d" :=
      ⟨"secrets.k".toList, "k".toList, by decide +kernel, by decide⟩
    exact hno _ List.mem_cons_self hrefers "PASS" rfl "PASS".toList (by rw [hsecrets]; exact List.mem_cons_self)
      List.infix_rfl

end WireSurge.Core
