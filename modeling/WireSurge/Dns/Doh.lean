import WireSurge.Lib.Base64
import WireSurge.Lib.Form
import WireSurge.Lib.Replace
import WireSurge.Net.Target

/-!
# DoH requests

`assemble` makes the URI and the body of a request from the wire message and from what
a connection has prepared (`Prepared`): the path and the query of the template, behind
which a GET puts the message as the parameter `dns`. It is the one parameter of this
name when the template has none (`carries_iff`), and the URI that goes out has the path
and the query that were built (`assemble_eq_ok`).
-/

namespace WireSurge.Dns

open Checked (mapError_eq_ok)
open WireSurge.Core (bind_inv bind_eq_ok)
open Str (Text splitOnce splitOnce_singleton splitOnce_singleton_of_notMem)
open Net (HttpMethod HttpTemplate)

/-! ## The crates -/

/-- `PathAndQuery`. -/
structure PathAndQuery where
  path : Text
  query : Option Text
  deriving DecidableEq, Repr

/-- `PathAndQuery::as_str`. -/
def PathAndQuery.asStr (pq : PathAndQuery) : Text := pq.path ++ (pq.query.map ('?' :: ·)).getD []

/-- `Uri`, by its parts. -/
structure Uri where
  scheme : Option String
  authority : Option String
  pathAndQuery : Option PathAndQuery
  deriving DecidableEq, Repr

/-- What the transport uses of the crates; an error is its text. -/
structure UriCrates where
  /-- `parse::<Uri>`. -/
  parse : Text → Except String Uri
  /-- `PathAndQuery::try_from`. -/
  pathAndQuery : Text → Except String PathAndQuery
  /-- `Uri::from_parts`: the parts are those of a URI. -/
  fromParts : Uri → Except String Unit
  /-- `BASE64URL_NOPAD.encode_append`: what is appended. -/
  base64 : Bytes → Text

/-- What the crates document. -/
structure UriCrates.Documented (crates : UriCrates) : Prop where
  /-- The path of an absolute URI starts with a slash, and ends before the query. -/
  path : ∀ text uri scheme pq, crates.parse text = .ok uri → uri.scheme = some scheme → uri.pathAndQuery = some pq →
    pq.path.head? = some '/' ∧ '?' ∉ pq.path ∧ '#' ∉ pq.path
  /-- A path and its query are kept, up to a fragment. -/
  pathAndQuery : ∀ text pq, text.head? = some '/' → '#' ∉ text → crates.pathAndQuery text = .ok pq → pq.asStr = text
  base64 : ∀ bytes, crates.base64 bytes = Base64.encode bytes

/-! ## Requests -/

/-- The media type of a DNS message. -/
def dnsMessage : String := "application/dns-message"

/-- What the requests of a connection have in common. -/
structure Prepared where
  method : HttpMethod
  httpMethod : String
  scheme : String
  authority : String
  path : Text
  query : Text
  headers : List (String × String)
  deriving DecidableEq, Repr

/-- `from_template`. -/
def Prepared.fromTemplate (crates : UriCrates) (template : HttpTemplate) : Except TransportError Prepared := do
  let uri ← (crates.parse template.baseUri).mapError fun error => .protocol ("invalid DoH base URI: " ++ error)
  let scheme ← uri.scheme.elim (.error (.protocol "DoH base URI is missing its scheme")) .ok
  let authority ← uri.authority.elim (.error (.protocol "DoH base URI is missing its authority")) .ok
  let path := (uri.pathAndQuery.map PathAndQuery.path).getD ['/']
  let accept := [("accept", dnsMessage)]
  return {
    method := template.method
    httpMethod := template.method.asStr
    scheme
    authority
    path
    query := template.query
    headers := if template.method = .post then accept ++ [("content-type", dnsMessage)] else accept }

/-- The path and the query of a request, and its body. -/
def buildPathAndQuery (crates : UriCrates) (prepared : Prepared) (wire : Bytes) : Text × Bytes :=
  match prepared.method with
  | .get =>
    let pq := prepared.path ++ ['?']
    let pq := if prepared.query ≠ [] then pq ++ prepared.query ++ ['&'] else pq
    (pq ++ "dns=".toList ++ crates.base64 wire, [])
  | .post =>
    (if prepared.query ≠ [] then prepared.path ++ '?' :: prepared.query else prepared.path, wire)

/-- `assemble`: the URI of a request, and its body. -/
def assemble (crates : UriCrates) (prepared : Prepared) (wire : Bytes) : Except TransportError (Uri × Bytes) := do
  let (pq, body) := buildPathAndQuery crates prepared wire
  let invalid (error : String) := TransportError.protocol ("invalid DoH URI: " ++ error)
  let pathAndQuery ← (crates.pathAndQuery pq).mapError invalid
  let uri : Uri := {
    scheme := some prepared.scheme, authority := some prepared.authority, pathAndQuery := some pathAndQuery }
  (crates.fromParts uri).mapError invalid
  return (uri, body)

/-! ## The parameter of the message -/

/-- The name of the parameter. -/
def dnsKey : Text := "dns".toList

/-- The parameters called `dns` of a path and its query. -/
def dnsParams (pq : Text) : List Text :=
  match splitOnce ['?'] pq with
  | some (_, query) => Form.named dnsKey query
  | none => []

/-- A GET carries the message as the one parameter `dns`, a POST as the body and
without such a parameter. -/
def Carries (crates : UriCrates) (prepared : Prepared) (wire : Bytes) : Prop :=
  let (pq, body) := buildPathAndQuery crates prepared wire
  match prepared.method with
  | .get => ∃ param, dnsParams pq = [param] ∧ Base64.decode? (Form.value param) = some wire
  | .post => dnsParams pq = [] ∧ body = wire

variable {crates : UriCrates} {template : HttpTemplate} {prepared : Prepared} {wire : Bytes}

/-- A path that can be told from the query behind it. -/
structure Prepared.Path (prepared : Prepared) : Prop where
  slash : prepared.path.head? = some '/'
  query : '?' ∉ prepared.path
  fragment : '#' ∉ prepared.path

theorem fromTemplate_eq_ok (hcrates : crates.Documented) (h : Prepared.fromTemplate crates template = .ok prepared) :
    prepared.Path ∧ prepared.method = template.method ∧ prepared.query = template.query := by
  obtain ⟨uri, huri, h⟩ := bind_inv h
  obtain ⟨scheme, hscheme, h⟩ := bind_inv h
  obtain ⟨authority, -, h⟩ := bind_inv h
  cases h
  have hsome : uri.scheme = some scheme := by
    cases hs : uri.scheme <;> rw [hs] at hscheme <;> cases hscheme
    rfl
  refine ⟨?_, rfl, rfl⟩
  cases hpq : uri.pathAndQuery with
  | none => exact ⟨rfl, by simp, by simp⟩
  | some pq =>
    obtain ⟨hslash, hquery, hfragment⟩ := hcrates.path _ _ _ _ (mapError_eq_ok huri) hsome hpq
    exact ⟨hslash, hquery, hfragment⟩

theorem dnsParams_query {path query : Text} (hpath : '?' ∉ path) :
    dnsParams (path ++ '?' :: query) = Form.named dnsKey query := by
  rw [dnsParams, splitOnce_singleton hpath]

/-- The parameter that a GET puts behind the others. -/
theorem named_message (hcrates : crates.Documented) (wire : Bytes) :
    Form.named dnsKey ("dns=".toList ++ crates.base64 wire) = ["dns=".toList ++ crates.base64 wire] ∧
      Base64.decode? (Form.value ("dns=".toList ++ crates.base64 wire)) = some wire := by
  rw [hcrates.base64]
  have hamp : '&' ∉ "dns=".toList ++ Base64.encode wire := by
    rw [List.mem_append, not_or]
    exact ⟨by decide, fun h => absurd (Base64.mem_alphabet wire h) (by decide)⟩
  have heq : '=' ∉ "dns".toList := by decide
  have hname : Form.name ("dns=".toList ++ Base64.encode wire) = "dns".toList := Form.name_append heq
  have hvalue : Form.value ("dns=".toList ++ Base64.encode wire) = Base64.encode wire := Form.value_append heq
  have hkey : "dns".toList.map Char.toLower = dnsKey := by decide
  constructor
  · rw [Form.named, Form.params_single hamp, List.filter_cons_of_pos (by rw [hname, hkey]; simp), List.filter_nil]
  · rw [hvalue, Base64.decode?_encode]

theorem dnsParams_get (hcrates : crates.Documented) (hpath : prepared.Path) (hmethod : prepared.method = .get)
    (wire : Bytes) : dnsParams (buildPathAndQuery crates prepared wire).1 =
      Form.named dnsKey prepared.query ++ ["dns=".toList ++ crates.base64 wire] := by
  have hmessage := (named_message hcrates wire).1
  simp only [buildPathAndQuery, hmethod]
  by_cases hquery : prepared.query = []
  · have hempty : Form.named dnsKey [] = [] := by decide
    rw [if_neg (not_not.mpr hquery), List.append_assoc, List.append_assoc, List.singleton_append,
      dnsParams_query hpath.query, hmessage, hquery, hempty, List.nil_append]
  · rw [if_pos hquery, List.append_assoc, List.append_assoc, List.append_assoc, List.append_assoc,
      List.singleton_append, dnsParams_query hpath.query, List.singleton_append, Form.named_append, hmessage]

theorem dnsParams_post (hpath : prepared.Path) (hmethod : prepared.method = .post) (wire : Bytes) :
    dnsParams (buildPathAndQuery crates prepared wire).1 = Form.named dnsKey prepared.query := by
  simp only [buildPathAndQuery, hmethod]
  by_cases hquery : prepared.query = []
  · have hempty : Form.named dnsKey [] = [] := by decide
    rw [if_neg (not_not.mpr hquery), dnsParams, splitOnce_singleton_of_notMem hpath.query, hquery, hempty]
  · rw [if_pos hquery, dnsParams_query hpath.query]

/-- The message is carried as it should be, unless the template has a parameter
`dns` already. -/
theorem carries_iff (hcrates : crates.Documented) (hpath : prepared.Path) (wire : Bytes) :
    Carries crates prepared wire ↔ Form.named dnsKey prepared.query = [] := by
  rw [Carries]
  cases hmethod : prepared.method with
  | get =>
    simp only [dnsParams_get hcrates hpath hmethod]
    constructor
    · rintro ⟨param, hparam, -⟩
      have hlen := congrArg List.length hparam
      rw [List.length_append, List.length_singleton, List.length_singleton] at hlen
      exact List.eq_nil_of_length_eq_zero (by omega)
    · intro hnone
      rw [hnone]
      exact ⟨_, rfl, (named_message hcrates wire).2⟩
  | post =>
    simp only [dnsParams_post hpath hmethod]
    have hbody : (buildPathAndQuery crates prepared wire).2 = wire := by
      simp only [buildPathAndQuery, hmethod]
    rw [hbody]
    exact and_iff_left rfl

theorem build_slash (hpath : prepared.Path) (wire : Bytes) :
    (buildPathAndQuery crates prepared wire).1.head? = some '/' := by
  obtain ⟨rest, hrest⟩ : ∃ rest, prepared.path = '/' :: rest := List.head?_eq_some_iff.mp hpath.slash
  rw [buildPathAndQuery]
  split
  · simp only [hrest]
    split <;> rfl
  · simp only [hrest]
    split <;> rfl

theorem build_fragment (hcrates : crates.Documented) (hpath : prepared.Path) (hquery : '#' ∉ prepared.query)
    (wire : Bytes) : '#' ∉ (buildPathAndQuery crates prepared wire).1 := by
  have hpath' := hpath.fragment
  have hmessage : '#' ∉ crates.base64 wire := by
    rw [hcrates.base64]
    exact fun h => absurd (Base64.mem_alphabet wire h) (by decide)
  rw [buildPathAndQuery]
  split
  · simp only
    split <;> simp [hpath', hquery, hmessage]
  · simp only
    split <;> simp [hpath', hquery]

/-- What goes out is what was built. -/
theorem assemble_eq_ok {uri : Uri} {body : Bytes} (hcrates : crates.Documented) (hpath : prepared.Path)
    (hquery : '#' ∉ prepared.query) (h : assemble crates prepared wire = .ok (uri, body)) :
    uri.pathAndQuery.map PathAndQuery.asStr = some (buildPathAndQuery crates prepared wire).1 ∧
      body = (buildPathAndQuery crates prepared wire).2 := by
  obtain ⟨pq, hpq, h⟩ := bind_inv h
  obtain ⟨-, -, h⟩ := bind_inv h
  cases h
  have htext := hcrates.pathAndQuery _ _ (build_slash hpath wire) (build_fragment hcrates hpath hquery wire)
    (mapError_eq_ok hpq)
  exact ⟨congrArg some htext, rfl⟩

end WireSurge.Dns
