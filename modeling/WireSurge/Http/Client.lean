import WireSurge.Core.Masking

/-!
# Sending a request

`HttpClient::send` up to the request that goes out (`outbound`), over the crates
that read URLs and headers. A secret in the query of the URL goes out encoded,
with a set of bytes that is larger than the one that masking encodes it with, and
without the white space at the end of the URL: `echo_masked_iff` says when masking
still finds it.
-/

namespace WireSurge.Http

open WireSurge.Core
open Checked (mapError_eq_ok)
open Str (Text Unmarkable toAsciiLowercase)

/-! ## The crates -/

/-- `url::Url`, by its parts; `base` is what is serialized before the query. -/
structure Url where
  scheme : String
  username : String
  password : Option String
  host : Option String
  base : Text
  query : Option Text
  fragment : Option Text

namespace Url

/-- `Url::set_fragment`. -/
def setFragment (url : Url) (fragment : Option Text) : Url := { url with fragment }

/-- `Url::as_str`. -/
def asStr (url : Url) : Text :=
  url.base ++ (url.query.map ('?' :: ·)).getD [] ++ (url.fragment.map ('#' :: ·)).getD []

end Url

/-- What `send` uses of the crates; an error is its text. -/
structure Crates where
  /-- `Url::parse`. -/
  parse : String → Except String Url
  /-- `Method::from_bytes`. -/
  method : String → Except String Unit
  /-- `parse::<Uri>`. -/
  uri : Text → Except String Unit
  /-- `Request::builder`, of a method and a URI. -/
  build : String → Text → Except String Unit
  /-- `HeaderName::from_bytes`: the name in lower case. -/
  headerName : String → Except String String
  /-- `HeaderValue::from_str`. -/
  headerValue : String → Except String Unit

/-! ## The request that goes out -/

/-- The error of a URL, whatever is wrong with it. -/
def invalidUrl (message : String) : WireSurgeError := (WireSurgeError.new "invalid_url" message).atPath "url"

/-- `parse_url`; the fragment is not sent. -/
def parseUrl (crates : Crates) (input : String) : Except WireSurgeError Url := do
  let url ← (crates.parse input).mapError invalidUrl
  failWhen (url.scheme ∉ ["http", "https"]) (invalidUrl "only http:// and https:// URLs are supported")
  failWhen url.host.isNone (invalidUrl "host is required")
  failWhen (url.username ≠ "" || url.password.isSome)
    (invalidUrl "credentials in URLs are not supported; use an Authorization header")
  return url.setFragment none

/-- What goes out to the server. -/
structure Outbound where
  method : String
  url : Url
  headers : BTreeMap String
  body : String

/-- A header of the request; those that the connection sets itself are left out. -/
def insertHeader (crates : Crates) (headers : BTreeMap String) (key value : String) :
    Except WireSurgeError (BTreeMap String) := do
  if toAsciiLowercase key ∈ ["host", "connection", "content-length"] then return headers
  let invalidHeader (error : String) := (WireSurgeError.new "invalid_http_header" error).atPath key
  let name ← (crates.headerName key).mapError invalidHeader
  (crates.headerValue value).mapError invalidHeader
  return headers.insert name value

/-- `send`, as far as the request that it sends. -/
def outbound (crates : Crates) (request : RequestSpec) : Except WireSurgeError Outbound := do
  let url ← parseUrl crates request.url
  (crates.method request.method).mapError fun error =>
    (WireSurgeError.new "invalid_http_method" error).atPath "method"
  (crates.uri url.asStr).mapError invalidUrl
  (crates.build request.method url.asStr).mapError (WireSurgeError.new "http_request_build_failed")
  let headers ← request.headers.toList.foldlM (fun headers (key, value) => insertHeader crates headers key value)
    ((∅ : BTreeMap String).insert "user-agent" "WireSurge/0.1.0")
  return { method := request.method, url, headers, body := request.body.getD "" }

/-! ## The query of a URL -/

/-- The special-query set of the URL standard. -/
def specialQuery (b : UInt8) : Bool :=
  b < 0x20 || 0x7E < b || b = ' '.val.toUInt8 || b = '"'.val.toUInt8 || b = '#'.val.toUInt8 ||
    b = '<'.val.toUInt8 || b = '>'.val.toUInt8 || b = '\''.val.toUInt8

/-- The query of an http URL, percent-encoded. -/
def specialQueryEncode (s : Text) : Text := Percent.encode specialQuery s

/-- What the parser trims off the ends of a URL. -/
def isC0OrSpace (c : Char) : Bool := c.toNat ≤ 0x20

/-- The tabs and line ends that the parser leaves out. -/
def withoutNewlines (s : Text) : Text := s.filter fun c => c ∉ ['\t', '\n', '\r']

/-- What the URL standard takes for the query: it is between the first `?` and the
first `#`, without the white space that the parser removes. -/
def rawQuery (input : Text) : Option Text :=
  let trimmed := (input.dropWhile isC0OrSpace).rdropWhile isC0OrSpace
  (Str.splitOnce ['?'] ((withoutNewlines trimmed).takeWhile (· ≠ '#'))).map Prod.snd

/-- The query of a URL of these schemes is written with the special-query set. -/
def Crates.WritesQuery (crates : Crates) : Prop :=
  ∀ input url, crates.parse input = .ok url → url.scheme ∈ ["http", "https"] →
    url.query = (rawQuery input.toList).map specialQueryEncode

variable {crates : Crates} {request : RequestSpec} {out : Outbound}

theorem parseUrl_eq_ok {input : String} {url : Url} (h : parseUrl crates input = .ok url) :
    ∃ parsed, crates.parse input = .ok parsed ∧ parsed.scheme ∈ ["http", "https"] ∧
      url = parsed.setFragment none := by
  obtain ⟨parsed, hparse, h⟩ := bind_inv h
  simp only [bind_eq_ok, failWhen_eq_ok, decide_eq_false_iff_not, not_not] at h
  obtain ⟨hscheme, -, -, heq⟩ := h
  cases heq
  exact ⟨parsed, mapError_eq_ok hparse, hscheme, rfl⟩

/-- The query that goes out is that of the URL of the request. -/
theorem query_outbound (hcrates : crates.WritesQuery) (h : outbound crates request = .ok out) :
    out.url.query = (rawQuery request.url.toList).map specialQueryEncode := by
  obtain ⟨url, hurl, h⟩ := bind_inv h
  simp only [bind_eq_ok] at h
  obtain ⟨-, -, -, h⟩ := h
  obtain ⟨headers, -, h⟩ := bind_inv h
  cases h
  obtain ⟨parsed, hparse, hscheme, rfl⟩ := parseUrl_eq_ok hurl
  have hquery := hcrates _ _ hparse hscheme
  exact hquery

/-! ### The parts of a query -/

/-- What the parser keeps of a part of the query that has `rest` behind it. -/
def keptOf (part rest : Text) : Text :=
  withoutNewlines (if rest.all isC0OrSpace then part.rdropWhile isC0OrSpace else part)

variable {front before part behind : Text}

theorem rdropWhile_append (p : Char → Bool) (s t : Text) :
    (s ++ t).rdropWhile p = (if t.all p then s.rdropWhile p else s) ++ t.rdropWhile p := by
  have hempty : (t.reverse.dropWhile p).isEmpty = t.all p := by
    rw [Bool.eq_iff_iff, List.isEmpty_iff, ← List.reverse_eq_nil_iff, List.all_eq_true]
    exact List.rdropWhile_eq_nil_iff
  rw [List.rdropWhile, List.reverse_append, List.dropWhile_append, hempty]
  split
  · rename_i hall
    rw [List.rdropWhile_eq_nil_iff.mpr (List.all_eq_true.mp hall), List.append_nil]
    rfl
  · rw [List.reverse_append, List.reverse_reverse]
    rfl

theorem rdropWhile_cons_of_not {p : Char → Bool} {c : Char} (hc : p c = false) (s : Text) :
    (c :: s).rdropWhile p = c :: s.rdropWhile p := by
  have hone : [c].rdropWhile p = [c] := by rw [List.rdropWhile_singleton, if_neg (by simp [hc])]
  rw [← List.singleton_append, rdropWhile_append, hone, ite_self, List.singleton_append]

theorem withoutNewlines_append (s t : Text) : withoutNewlines (s ++ t) = withoutNewlines s ++ withoutNewlines t :=
  List.filter_append _ _

theorem keptOf_append (s t rest : Text) : keptOf (s ++ t) rest = keptOf s (t ++ rest) ++ keptOf t rest := by
  simp only [keptOf, List.all_append]
  cases hrest : rest.all isC0OrSpace with
  | false => simp [withoutNewlines_append]
  | true => simp [rdropWhile_append, withoutNewlines_append]

theorem mem_of_mem_keptOf {c : Char} {rest : Text} (hc : c ∈ keptOf part rest) : c ∈ part := by
  have hin := List.mem_of_mem_filter hc
  split at hin
  · exact (List.rdropWhile_prefix isC0OrSpace _).subset hin
  · exact hin

/-- The query starts at the first `?`; only its end is trimmed. -/
theorem rawQuery_cons (hfront : '?' ∉ front ∧ '#' ∉ front) (s : Text) :
    rawQuery (front ++ '?' :: s) = some ((keptOf s []).takeWhile (· ≠ '#')) := by
  have hdrop : (front ++ '?' :: s).dropWhile isC0OrSpace = front.dropWhile isC0OrSpace ++ '?' :: s := by
    rw [List.dropWhile_append, List.dropWhile_cons_of_neg (by decide)]
    split
    · rename_i hnil
      rw [List.isEmpty_iff.mp hnil, List.nil_append]
    · rfl
  have htrim : withoutNewlines ((front ++ '?' :: s).dropWhile isC0OrSpace |>.rdropWhile isC0OrSpace) =
      withoutNewlines (front.dropWhile isC0OrSpace) ++ '?' :: keptOf s [] := by
    rw [hdrop, rdropWhile_append, rdropWhile_cons_of_not (by decide), if_neg (by simp [isC0OrSpace]),
      withoutNewlines_append]
    rfl
  have hsub : withoutNewlines (front.dropWhile isC0OrSpace) ⊆ front :=
    fun _ hc => (List.dropWhile_subset _) (List.mem_of_mem_filter hc)
  have hno : ∀ c ∈ withoutNewlines (front.dropWhile isC0OrSpace), decide (c ≠ '#') = true := by
    intro c hc
    have hne : c ≠ '#' := fun heq => hfront.2 (heq ▸ hsub hc)
    exact decide_eq_true hne
  simp only [rawQuery]
  rw [htrim, List.takeWhile_append_of_pos hno, List.takeWhile_cons_of_pos (by decide),
    Str.splitOnce_singleton fun h => hfront.1 (hsub h), Option.map_some]

/-- A query in three parts; the first two have no `#`. -/
theorem rawQuery_parts (hfront : '?' ∉ front ∧ '#' ∉ front) (hbefore : '#' ∉ before) (hpart : '#' ∉ part) :
    rawQuery (front ++ '?' :: (before ++ part ++ behind)) =
      some (keptOf before (part ++ behind) ++ keptOf part behind ++ (keptOf behind []).takeWhile (· ≠ '#')) := by
  have hno {s : Text} (h : '#' ∉ s) (rest : Text) : ∀ c ∈ keptOf s rest, decide (c ≠ '#') = true := by
    intro c hc
    have hne : c ≠ '#' := fun heq => h (heq ▸ mem_of_mem_keptOf hc)
    exact decide_eq_true hne
  rw [rawQuery_cons hfront, List.append_assoc, keptOf_append, keptOf_append part, List.append_nil, List.append_nil,
    List.takeWhile_append_of_pos (hno hbefore _), List.takeWhile_append_of_pos (hno hpart _), List.append_assoc]

/-! ## A secret in a query -/

variable {a b secret w : Text}

/-- The two sets differ by two bytes. -/
theorem specialQuery_iff (byte : UInt8) :
    specialQuery byte = true ↔ needsEncoding byte = true ∨ byte = 0x27 ∨ byte = 0x7F := by
  have hall : ∀ n < 256, specialQuery (UInt8.ofNat n) = true ↔
      needsEncoding (UInt8.ofNat n) = true ∨ UInt8.ofNat n = 0x27 ∨ UInt8.ofNat n = 0x7F := by decide +kernel
  have hbyte := hall byte.toNat byte.toNat_lt
  rwa [UInt8.ofNat_toNat] at hbyte

theorem ascii_specialQuery : Percent.Ascii specialQuery := fun byte h =>
  (specialQuery_iff byte).mpr (.inl (ascii_needsEncoding byte h))

theorem keeps_needsEncoding : Percent.Keeps needsEncoding := .of_digits (by decide) (by decide)

/-- What a query makes of the secret is what masking makes of it, but for two
characters. -/
theorem encode_eq_iff : queryPercentEncode secret = specialQueryEncode secret ↔
    '\'' ∉ secret ∧ Char.ofNat 0x7F ∉ secret := by
  have hsub (byte : UInt8) (h : needsEncoding byte = true) : specialQuery byte = true :=
    (specialQuery_iff byte).mpr (.inl h)
  rw [queryPercentEncode_eq, specialQueryEncode, Percent.encode_eq_iff hsub]
  constructor
  · intro h
    have hnot {c : Char} (hc : c.toNat ≤ 127) (hyes : specialQuery (UInt8.ofNat c.toNat) = true)
        (hno : needsEncoding (UInt8.ofNat c.toNat) = false) : c ∉ secret := by
      intro hin
      have := h _ (Str.mem_encode_of_mem hin hc) hyes
      rw [hno] at this
      cases this
    exact ⟨hnot (by decide) (by decide) (by decide), hnot (by decide) (by decide) (by decide)⟩
  · rintro ⟨hquote, hdel⟩ byte hbyte hyes
    rcases (specialQuery_iff byte).mp hyes with h | rfl | rfl
    · exact h
    · exact absurd (Str.mem_of_mem_encode hbyte (by decide)) hquote
    · exact absurd (Str.mem_of_mem_encode hbyte (by decide)) hdel

theorem longestFirst_singleton (hne : secret ≠ []) : longestFirst [secret] = [secret] := by
  apply longestFirst_of_sorted
  · intro s hs
    rwa [List.mem_singleton.mp hs]
  · exact List.pairwise_singleton _ _

/-- Of a single secret, masking takes away what a query has of it when that is the
first of its forms found there. -/
theorem mask_eq_iff_find (hsecret : Unmarkable redactedWord secret) (hpart : part ⊆ secret) :
    maskSecretValues (specialQueryEncode part) [secret] = redacted ↔
      (forms secret).find? (· <:+: specialQueryEncode part) = some (specialQueryEncode part) := by
  have hleft : '[' ∉ specialQueryEncode part := by
    intro hin
    rcases Percent.mem_encode ascii_specialQuery hin with heq | ⟨n, hn, heq⟩ | ⟨hmem, -⟩
    · exact absurd heq (by decide)
    · exact Percent.hexDigit_ne (by decide) hn heq
    · exact hsecret.left (hpart hmem)
  have hpats : patterns [secret] = forms secret := by
    rw [patterns, longestFirst_singleton hsecret.nonempty, List.flatMap_singleton]
  rw [maskSecretValues_eq, ← hpats]
  exact Str.maskAll_eq_mark_iff (unmarkable_patterns (unmarkable_singleton hsecret)) hleft

/-- Of a single secret, masking takes a text away when it is the encoding of the
secret. -/
theorem mask_encode_iff (hsecret : Unmarkable redactedWord secret) :
    maskSecretValues (specialQueryEncode secret) [secret] = redacted ↔
      queryPercentEncode secret = specialQueryEncode secret := by
  have hsub (byte : UInt8) (h : needsEncoding byte = true) : specialQuery byte = true :=
    (specialQuery_iff byte).mpr (.inl h)
  rw [mask_eq_iff_find hsecret (List.Subset.refl _)]
  constructor
  · intro hfind
    rcases mem_forms.mp (List.mem_of_find?_eq_some hfind) with heq | heq
    · -- nothing is escaped with the larger set, nor with the smaller one
      have hplain := (Percent.encode_eq_self_iff ascii_specialQuery).mp heq
      rw [heq, queryPercentEncode_eq, Percent.encode_eq_self_iff ascii_needsEncoding]
      intro byte hbyte
      by_contra hyes
      have := hplain byte hbyte
      rw [hsub byte (by simpa using hyes)] at this
      cases this
    · exact heq.symm
  · intro heq
    rw [← heq, forms]
    split
    · rename_i hne
      have hno : ¬ secret <:+: queryPercentEncode secret :=
        Percent.not_infix_encode ascii_needsEncoding keeps_needsEncoding hne
      rw [List.find?_cons_of_neg (by simpa using hno)]
      exact List.find?_cons_of_pos (by simp)
    · rename_i hself
      rw [not_not.mp hself]
      exact List.find?_cons_of_pos (by simp)

theorem keptOf_of_plain (hplain : ∀ c ∈ secret, c ∉ ['\t', '\n', '\r', '#']) : keptOf secret behind =
    if behind.all isC0OrSpace then secret.rdropWhile isC0OrSpace else secret := by
  refine List.filter_eq_self.mpr fun c hc => decide_eq_true fun hin => ?_
  have hsecret : c ∈ secret := by
    split at hc
    · exact (List.rdropWhile_prefix isC0OrSpace _).subset hc
    · exact hc
  exact hplain c hsecret (List.mem_append_left ['#'] hin)

/-- White space at the end of a URL is not part of its query. -/
theorem keptOf_eq_self_iff (hplain : ∀ c ∈ secret, c ∉ ['\t', '\n', '\r', '#']) : keptOf secret behind = secret ↔
    ¬ (behind.all isC0OrSpace = true ∧ ∃ c ∈ secret.getLast?, isC0OrSpace c = true) := by
  rw [keptOf_of_plain hplain]
  split
  · rename_i hall
    simp only [hall, true_and, not_exists, not_and, Option.mem_def, List.rdropWhile_eq_self_iff]
    constructor
    · intro h c hc
      obtain ⟨s, rfl⟩ := List.getLast?_eq_some_iff.mp hc
      simpa using h (by simp)
    · exact fun h hne => h _ (List.getLast?_eq_some_getLast hne)
  · rename_i hall
    simp [hall]

/-- A query has no character in it that it encodes. -/
theorem notMem_specialQueryEncode {c : Char} (hascii : c.toNat ≤ 127) (hyes : specialQuery (UInt8.ofNat c.toNat) = true)
    (s : Text) : c ∉ specialQueryEncode s := by
  have hplain : ∀ n < 128, specialQuery (UInt8.ofNat n) = true →
      n ≠ '%'.toNat ∧ ∀ d < 16, (Percent.hexDigit (UInt8.ofNat d)).toNat ≠ n := by decide +kernel
  obtain ⟨hpercent, hhex⟩ := hplain c.toNat (by omega) hyes
  intro hin
  rcases Percent.mem_encode ascii_specialQuery hin with rfl | ⟨n, hn, rfl⟩ | ⟨-, -, hno⟩
  · exact hpercent rfl
  · exact Percent.hexDigit_ne (fun d hd heq => hhex d hd (congrArg Char.toNat heq)) hn rfl
  · rw [hyes] at hno
    cases hno

/-- What is left of a secret that is cut off at the end of the URL is not what
masking looks for. -/
theorem kept_of_masked (hsecret : Unmarkable redactedWord secret) (hplain : ∀ c ∈ secret, c ∉ ['\t', '\n', '\r', '#'])
    (h : maskSecretValues (specialQueryEncode (keptOf secret behind)) [secret] = redacted) :
    keptOf secret behind = secret := by
  have hsub : keptOf secret behind ⊆ secret := fun _ => mem_of_mem_keptOf
  rw [mask_eq_iff_find hsecret hsub] at h
  rcases mem_forms.mp (List.mem_of_find?_eq_some h) with heq | heq
  · -- the white space that is cut off would be in the query
    by_contra htrimmed
    obtain ⟨-, last, hlast, hblank⟩ := not_not.mp (mt (keptOf_eq_self_iff hplain).mpr htrimmed)
    have hle : last.toNat ≤ 0x20 := of_decide_eq_true hblank
    have hencoded : ∀ n ≤ 0x20, specialQuery (UInt8.ofNat n) = true := by decide
    have hin : last ∈ specialQueryEncode (keptOf secret behind) := by
      rw [heq]
      exact List.mem_of_getLast? hlast
    exact notMem_specialQueryEncode (by omega) (hencoded _ hle) _ hin
  · -- a longer text has a longer encoding
    have hnot {c : Char} (hascii : c.toNat ≤ 127) (hyes : specialQuery (UInt8.ofNat c.toNat) = true)
        (hno : needsEncoding (UInt8.ofNat c.toNat) = false) : c ∉ secret := by
      intro hin
      refine notMem_specialQueryEncode hascii hyes (keptOf secret behind) ?_
      rw [heq, queryPercentEncode_eq]
      exact Percent.mem_encode_of_plain hin hascii hno
    have hquote : '\'' ∉ secret := hnot (by decide) (by decide) (by decide)
    have hdel : Char.ofNat 0x7F ∉ secret := hnot (by decide) (by decide) (by decide)
    rw [← encode_eq_iff.mpr ⟨fun hin => hquote (hsub hin), fun hin => hdel (hsub hin)⟩] at heq
    have hcut : keptOf secret behind <+: secret := by
      rw [keptOf_of_plain hplain]
      split
      · exact List.rdropWhile_prefix _ _
      · exact List.prefix_rfl
    obtain ⟨cut, hcut⟩ := hcut
    have hnil : queryPercentEncode cut = [] := by
      have happend : queryPercentEncode secret =
          queryPercentEncode (keptOf secret behind) ++ queryPercentEncode cut := by
        conv_lhs => rw [← hcut]
        exact Percent.encode_append _ _
      rw [happend] at heq
      exact List.self_eq_append_right.mp heq
    have hlong := Percent.size_le_length needsEncoding cut
    rw [← queryPercentEncode_eq, hnil, List.length_nil, Nat.le_zero] at hlong
    have hshort := Str.length_le_size cut
    rw [hlong, Nat.le_zero, List.length_eq_zero_iff] at hshort
    rwa [hshort, List.append_nil] at hcut

/-- The form that a secret has in the query that goes out is masked as a whole
exactly when the secret has neither an apostrophe nor a delete character, and is
not cut off at the end of the URL. -/
theorem echo_masked_iff (hcrates : crates.WritesQuery) (h : outbound crates request = .ok out)
    (hsecret : Unmarkable redactedWord secret) (hplain : ∀ c ∈ secret, c ∉ ['\t', '\n', '\r', '#'])
    (hurl : request.url.toList = front ++ '?' :: (before ++ secret ++ behind)) (hfront : '?' ∉ front ∧ '#' ∉ front)
    (hbefore : '#' ∉ before)
    (hw : out.url.query = some (specialQueryEncode (keptOf before (secret ++ behind)) ++ w ++
      specialQueryEncode ((keptOf behind []).takeWhile (· ≠ '#')))) :
    maskSecretValues w [secret] = redacted ↔ '\'' ∉ secret ∧ Char.ofNat 0x7F ∉ secret ∧
      ¬ (behind.all isC0OrSpace = true ∧ ∃ c ∈ secret.getLast?, isC0OrSpace c = true) := by
  have hquery := query_outbound hcrates h
  have henc (s t : Text) : specialQueryEncode (s ++ t) = specialQueryEncode s ++ specialQueryEncode t :=
    Percent.encode_append s t
  have hhash : '#' ∉ secret := fun hin => hplain _ hin (by decide)
  rw [hurl, rawQuery_parts hfront hbefore hhash, hw, Option.map_some, Option.some.injEq, henc, henc,
    List.append_left_inj, List.append_right_inj] at hquery
  rw [hquery, ← keptOf_eq_self_iff hplain, ← and_assoc]
  constructor
  · intro hmask
    have hkept := kept_of_masked hsecret hplain hmask
    rw [hkept, mask_encode_iff hsecret, encode_eq_iff] at hmask
    exact ⟨hmask, hkept⟩
  · rintro ⟨hplain, hkept⟩
    rw [hkept, mask_encode_iff hsecret, encode_eq_iff]
    exact hplain

/-! ### An echoed secret -/

/-- The crates on URLs of one host, which has no other parts than a query. -/
def plainCrates : Crates where
  parse input :=
    if "http://h/".toList <+: input.toList then
      .ok {
        scheme := "http", username := "", password := none, host := some "h", base := "http://h/".toList,
        query := (rawQuery input.toList).map specialQueryEncode, fragment := none }
    else .error "relative URL without a base"
  method _ := .ok ()
  uri _ := .ok ()
  build _ _ := .ok ()
  headerName key := .ok (toAsciiLowercase key)
  headerValue _ := .ok ()

theorem writesQuery_plainCrates : plainCrates.WritesQuery := by
  intro input url h _
  simp only [plainCrates] at h
  split at h <;> cases h
  rfl

/-- A request with a query of its own. -/
def echoRequest (query : String) : RequestSpec :=
  { id := "r", name := "r", method := "GET", url := "http://h/?" ++ query, headers := ∅, body := none }

/-- `echo_masked_iff` on a secret with a space. -/
theorem echo_masked_space : maskSecretValues "a%20b".toList ["a b".toList] = redacted := by
  have hsent : ∃ out, outbound plainCrates (echoRequest "q=a b") = .ok out ∧ out.url.query = some "q=a%20b".toList :=
    ⟨_, rfl, by decide +kernel⟩
  obtain ⟨out, hout, hquery⟩ := hsent
  have hurl : (echoRequest "q=a b").url.toList = "http://h/".toList ++ '?' :: ("q=".toList ++ "a b".toList ++ []) := rfl
  have hplain : ∀ c ∈ ['a', ' ', 'b'], c ∉ ['\t', '\n', '\r', '#'] := by simp
  refine (echo_masked_iff writesQuery_plainCrates hout ⟨by decide, by decide, by decide, by decide⟩ hplain hurl
    (by decide) (by decide) hquery).mpr ⟨by decide, by decide, ?_⟩
  rintro ⟨-, c, hlast, hblank⟩
  have hb : some 'b' = some c := hlast
  cases hb
  exact absurd hblank (by decide)

/-- An apostrophe is encoded in the query, and masking looks for it as it is. -/
theorem echo_apostrophe : ¬ ∀ (crates : Crates) (request : RequestSpec) (out : Outbound)
    (front before secret behind w : Text), crates.WritesQuery → outbound crates request = .ok out →
    Unmarkable redactedWord secret → (∀ c ∈ secret, c ∉ ['\t', '\n', '\r', '#']) →
    request.url.toList = front ++ '?' :: (before ++ secret ++ behind) → ('?' ∉ front ∧ '#' ∉ front) → '#' ∉ before →
    out.url.query = some (specialQueryEncode (keptOf before (secret ++ behind)) ++ w ++
      specialQueryEncode ((keptOf behind []).takeWhile (· ≠ '#'))) →
    maskSecretValues w [secret] = redacted := by
  intro h
  have hsent : ∃ out, outbound plainCrates (echoRequest "q=it's") = .ok out ∧
      out.url.query = some "q=it%27s".toList := ⟨_, rfl, by decide +kernel⟩
  obtain ⟨out, hout, hquery⟩ := hsent
  have hsecret : Unmarkable redactedWord "it's".toList := ⟨by decide, by decide, by decide, by decide⟩
  have hplain : ∀ c ∈ ['i', 't', '\'', 's'], c ∉ ['\t', '\n', '\r', '#'] := by simp
  have hmask := h plainCrates (echoRequest "q=it's") out "http://h/".toList "q=".toList "it's".toList [] "it%27s".toList
    writesQuery_plainCrates hout hsecret hplain rfl (by decide) (by decide) hquery
  have henc := (mask_encode_iff hsecret).mp hmask
  exact absurd henc (by decide)

end WireSurge.Http
