import WireSurge.Cli.Run
import WireSurge.Dns.Doh
import WireSurge.Dns.Payload
import WireSurge.Engine.Plan
import WireSurge.Http.Client

/-!
# What a load run connects to

The parts of `build_load_config` that read the flags of the target: the EDNS options,
the PROXY header and the DoH endpoint. A header that is accepted is encoded for both
transports, and read back by the other end (`buildProxyHeader_reads`). A DoH query goes
out as it should unless the URL of the endpoint has a parameter `dns` itself, which is
refused among the `--http-param` pairs only (`buildDohTarget_carries_iff`). The target of
a run has the header of the flags, for every protocol (`buildTarget_proxyBytes`).
-/

namespace WireSurge.Cli

open Checked (Checked Returns mapError_eq_ok map_eq_ok)
open WireSurge.Core (WireSurgeError failWhen okOr okOr_eq_ok bind_inv bind_eq_ok failWhen_eq_ok)
open Dns (Bytes LoadProto decodeHexPayload decodeHexPayload_returns Prepared PathAndQuery UriCrates Uri Carries assemble
  buildPathAndQuery dnsKey fromTemplate_eq_ok carries_iff assemble_eq_ok)
open Engine (EdnsOption)
open Http (Url rawQuery specialQueryEncode specialQuery)
open Str (Text toAsciiLowercase)
open Net (AppProto ConnectTarget HttpMethod HttpTemplate IpAddr ProxyHeader ProxyTransport SocketAddr TlsParams
  readHeader readHeader_encode encode_eq_error_iff)

/-- What these functions read of the arguments. -/
structure LoadArgs where
  url : Option String
  dohMethod : Option String
  httpParams : List String
  ednsOptions : List String
  proxySrc : Option String
  proxyDst : Option String
  sni : Option String
  alpnRelaxed : Bool
  insecure : Bool

/-! ## EDNS options -/

/-- One option of `parse_edns_options`. -/
def parseEdnsOption (spec : String) : Checked (Except WireSurgeError EdnsOption) :=
  match splitKv spec ':' "edns-option" with
  | .error error => return .error error
  | .ok (code, value) =>
    match Hex.fromStrRadix 10 65535 code.toList with
    | none => return .error ((WireSurgeError.new (invalidFlagCode "edns-option")
        ("--edns-option code must be 0-65535, got " ++ code)).atPath "edns-option")
    | some code => return (← decodeHexPayload value).map fun payload => { code := UInt16.ofNat code, payload }

/-- One option for each spec, in their order, up to the first error. -/
def parseEdnsOptions : List String → Checked (Except WireSurgeError (List EdnsOption))
  | [] => return .ok []
  | spec :: specs => do
    match ← parseEdnsOption spec with
    | .error error => return .error error
    | .ok option => return (← parseEdnsOptions specs).map (option :: ·)

theorem parseEdnsOption_returns (spec : String) : Returns (parseEdnsOption spec) := by
  rw [parseEdnsOption]
  split
  · exact ⟨_, rfl⟩
  · split
    · exact ⟨_, rfl⟩
    · rename_i value _ _ _ _
      obtain ⟨payload, hpayload⟩ := decodeHexPayload_returns value
      rw [hpayload]
      exact ⟨_, rfl⟩

/-- No flag stops the program. -/
theorem parseEdnsOptions_returns (specs : List String) : Returns (parseEdnsOptions specs) := by
  induction specs with
  | nil => exact ⟨_, rfl⟩
  | cons spec specs ih =>
    obtain ⟨options, hoptions⟩ := ih
    obtain ⟨option, hoption⟩ := parseEdnsOption_returns spec
    rw [parseEdnsOptions, hoption]
    cases option with
    | error => exact ⟨_, rfl⟩
    | ok option =>
      rw [hoptions]
      exact ⟨_, rfl⟩

/-! ## The PROXY header -/

/-- The parser of the standard library for addresses with a port; an error is its text. -/
abbrev AddrParser := String → Except String SocketAddr

variable {parse : AddrParser} {args : LoadArgs} {header : ProxyHeader}

/-- `parse_proxy_addr`: an IPv4 address that is mapped into IPv6 becomes one again. -/
def parseProxyAddr (parse : AddrParser) (value field : String) : Except WireSurgeError SocketAddr := do
  let addr ← (parse value).mapError fun error => (WireSurgeError.new (invalidFlagCode field) error).atPath field
  return .new addr.ip.toCanonical addr.port

/-- `build_proxy_header`: both addresses or none. -/
def buildProxyHeader (parse : AddrParser) (args : LoadArgs) : Except WireSurgeError (Option ProxyHeader) :=
  match args.proxySrc, args.proxyDst with
  | none, none => .ok none
  | some src, some dst => do
    let src ← parseProxyAddr parse src "proxy-src"
    let dst ← parseProxyAddr parse dst "proxy-dst"
    failWhen (src.isIpv4 ≠ dst.isIpv4) ((WireSurgeError.new "proxy_family_mismatch"
      "--proxy-src and --proxy-dst must be the same IP family (both IPv4 or both IPv6)").atPath "proxy")
    return some { src, dst }
  | _, _ => .error ((WireSurgeError.new "proxy_requires_both_endpoints"
      "--proxy-src and --proxy-dst must be set together").atPath "proxy")

theorem parseProxyAddr_eq_ok {value field : String} {addr : SocketAddr}
    (h : parseProxyAddr parse value field = .ok addr) : addr.endpoint = addr := by
  obtain ⟨parsed, -, h⟩ := bind_inv h
  cases h
  exact SocketAddr.endpoint_new _ _

/-- A header that is accepted has its two ends in one family, and nothing but what
goes into the encoding. -/
theorem buildProxyHeader_eq_ok (h : buildProxyHeader parse args = .ok (some header)) :
    header.SameFamily ∧ header.src.endpoint = header.src ∧ header.dst.endpoint = header.dst := by
  rw [buildProxyHeader] at h
  split at h
  · cases h
  · obtain ⟨src, hsrc, h⟩ := bind_inv h
    obtain ⟨dst, hdst, h⟩ := bind_inv h
    rw [bind_eq_ok, failWhen_eq_ok] at h
    obtain ⟨hsame, h⟩ := h
    cases h
    exact ⟨by simpa [ProxyHeader.SameFamily] using hsame, parseProxyAddr_eq_ok hsrc, parseProxyAddr_eq_ok hdst⟩
  · cases h

/-- Every header that is accepted goes out on both transports, and the other end reads
it and is left with the payload; only a pair of two families is not encoded. -/
theorem buildProxyHeader_reads (parse : AddrParser) :
    (∀ args header, buildProxyHeader parse args = .ok (some header) →
      ∀ transport, ∃ bytes, header.encode transport = .ok bytes ∧
        ∀ payload, readHeader (bytes ++ payload) = some (transport, header.src, header.dst, payload)) ∧
    ∀ (header : ProxyHeader) (transport : ProxyTransport),
      (∃ error, header.encode transport = .error error) ↔ header.src.isIpv4 ≠ header.dst.isIpv4 := by
  refine ⟨fun args header h transport => ?_, fun header transport => encode_eq_error_iff header transport⟩
  obtain ⟨hsame, hsrc, hdst⟩ := buildProxyHeader_eq_ok h
  obtain ⟨bytes, hbytes, hread⟩ := readHeader_encode hsame transport
  rw [hsrc, hdst] at hread
  exact ⟨bytes, hbytes, hread⟩

/-- Two addresses, of which one is mapped into IPv6. -/
def mappedParser : AddrParser := fun text =>
  if text = "192.0.2.1:50000" then .ok (.v4 #v[192, 0, 2, 1] 50000)
  else if text = "[::ffff:203.0.113.7]:443" then
    .ok (.v6 #v[0, 0, 0, 0, 0, 0, 0, 0, 0, 0, 0xff, 0xff, 203, 0, 113, 7] 443 0 0)
  else .error "invalid socket address syntax"

/-- A mapped address and a plain one. -/
def mappedArgs : LoadArgs where
  url := none
  dohMethod := none
  httpParams := []
  ednsOptions := []
  proxySrc := some "192.0.2.1:50000"
  proxyDst := some "[::ffff:203.0.113.7]:443"
  sni := none
  alpnRelaxed := false
  insecure := false

theorem buildProxyHeader_reads_mapped :
    ∀ payload, readHeader ([0x0D, 0x0A, 0x0D, 0x0A, 0x00, 0x0D, 0x0A, 0x51, 0x55, 0x49, 0x54, 0x0A, 0x21, 0x11,
        0x00, 0x0C, 192, 0, 2, 1, 203, 0, 113, 7, 0xC3, 0x50, 0x01, 0xBB] ++ payload) =
      some (.stream, .v4 #v[192, 0, 2, 1] 50000, .v4 #v[203, 0, 113, 7] 443, payload) := by
  intro payload
  obtain ⟨bytes, hbytes, hread⟩ := (buildProxyHeader_reads mappedParser).1 mappedArgs
    ⟨.v4 #v[192, 0, 2, 1] 50000, .v4 #v[203, 0, 113, 7] 443⟩ (by decide) .stream
  cases hbytes
  exact hread payload

/-! ## The DoH endpoint -/

/-- What is used of the crate for URLs; an error is its text. -/
structure UrlCrates where
  /-- `Url::parse`. -/
  parse : String → Except String Url
  /-- `query_pairs_mut().append_pair`. -/
  appendPair : Url → String → String → Url

/-- What the URL standard says of them. -/
structure UrlCrates.Documented (crates : UrlCrates) : Prop where
  query : ∀ input url, crates.parse input = .ok url → url.scheme ∈ ["http", "https"] →
    url.query = (rawQuery input.toList).map specialQueryEncode
  appendPair : ∀ url key value, crates.appendPair url key value =
    { url with query := some (Form.appendPair (url.query.getD []) key.toList value.toList) }

/-- The host without the brackets of an IPv6 address. -/
def sniHost (host : String) : String :=
  match host.toList with
  | '[' :: addr => String.ofList addr.dropLast
  | _ => host

/-- One `KEY=VALUE` of the `--http-param` flags. -/
def appendParam (crates : UrlCrates) (url : Url) (pair : String) : Except WireSurgeError Url := do
  let paramError (message : String) := (WireSurgeError.new (invalidFlagCode "http-param") message).atPath "http-param"
  let (key, value) ← splitKv pair '=' "http-param"
  failWhen (key = "") (paramError "--http-param key must not be empty")
  failWhen (toAsciiLowercase key = "dns") (paramError "--http-param key 'dns' is reserved for the DoH query payload")
  return crates.appendPair url key value

/-- The method of `--doh-method`, in any case. -/
def parseDohMethod (method : Option String) : Except WireSurgeError HttpMethod :=
  match toAsciiLowercase (method.getD "post") with
  | "post" => .ok .post
  | "get" => .ok .get
  | other => .error ((WireSurgeError.new "invalid_doh_method"
      ("--doh-method must be get or post, got " ++ other)).atPath "doh-method")

variable {Config : Type}

/-- `build_doh_target`. -/
def buildDohTarget (crates : UrlCrates) (buildClientConfig : TlsParams → Except WireSurgeError Config)
    (args : LoadArgs) (addr : SocketAddr) : Except WireSurgeError (ConnectTarget Config) := do
  let invalidUrl (message : String) := (WireSurgeError.new "invalid_url" message).atPath "url"
  let raw ← okOr args.url ((WireSurgeError.new "doh_url_required"
    "--protocol doh requires --url, e.g. https://dns.example/dns-query").atPath "url")
  let url ← (crates.parse raw).mapError invalidUrl
  failWhen (url.scheme ≠ "https") (invalidUrl "DoH URL must use https")
  failWhen (url.username ≠ "" || url.password.isSome)
    (invalidUrl "DoH URL must not embed userinfo (user:pass@); pass query params via --http-param")
  let host ← okOr url.host (invalidUrl "DoH URL must include a host")
  let method ← parseDohMethod args.dohMethod
  let queryUrl ← args.httpParams.foldlM (appendParam crates) url
  let query := queryUrl.query.getD []
  let sni := args.sni.or (some (sniHost host))
  let config ← buildClientConfig { proto := .doh, insecure := args.insecure }
  return ((ConnectTarget.new addr).withTls config .doh sni args.alpnRelaxed).withHttp {
    method, baseUri := url.base, query }

variable {crates : UrlCrates} {url url' : Url} {pair : String}

/-- What an accepted pair leaves as it is. -/
structure Keeps (url url' : Url) : Prop where
  dns : Form.named dnsKey (url'.query.getD []) = Form.named dnsKey (url.query.getD [])
  fragment : '#' ∉ url.query.getD [] → '#' ∉ url'.query.getD []

theorem plain_dnsKey : Form.Plain Form.escapes dnsKey ∧ Form.Plain specialQuery dnsKey :=
  ⟨.of_letters (by decide) (by decide), .of_letters (by decide) (by decide)⟩

theorem appendParam_keeps (hcrates : crates.Documented) (h : appendParam crates url pair = .ok url') :
    Keeps url url' := by
  obtain ⟨⟨key, value⟩, -, h⟩ := bind_inv h
  simp only [bind_eq_ok, failWhen_eq_ok, decide_eq_false_iff_not] at h
  obtain ⟨-, hdns, h⟩ := h
  cases h
  rw [hcrates.appendPair]
  have hother : key.toList.map Char.toLower ≠ dnsKey := by
    rw [← String.toList_map]
    exact fun heq => hdns (String.toList_inj.mp heq)
  have hfragment (s : Text) : '#' ∉ Form.serialize s :=
    Form.notMem_serialize (by decide) (by decide) (by decide) (by decide)
  exact ⟨Form.named_appendPair (by decide) (by decide) plain_dnsKey.1 hother _,
    fun hurl => Form.notMem_appendPair hurl (by decide) (by decide) hfragment⟩

theorem foldlM_keeps (hcrates : crates.Documented) {pairs : List String}
    (h : pairs.foldlM (appendParam crates) url = .ok url') : Keeps url url' := by
  induction pairs generalizing url with
  | nil =>
    cases h
    exact ⟨rfl, id⟩
  | cons pair pairs ih =>
    rw [List.foldlM_cons] at h
    obtain ⟨next, hnext, h⟩ := bind_inv h
    have hone := appendParam_keeps hcrates hnext
    have hrest := ih h
    exact ⟨hrest.dns.trans hone.dns, hrest.fragment ∘ hone.fragment⟩

/-- What of an accepted endpoint goes into its requests. -/
theorem buildDohTarget_eq_ok {buildClientConfig : TlsParams → Except WireSurgeError Config} {addr : SocketAddr}
    {target : ConnectTarget Config} (h : buildDohTarget crates buildClientConfig args addr = .ok target) :
    ∃ raw url queryUrl method, args.url = some raw ∧ crates.parse raw = .ok url ∧ url.scheme = "https" ∧
      args.httpParams.foldlM (appendParam crates) url = .ok queryUrl ∧
      target.http = some { method, baseUri := url.base, query := queryUrl.query.getD [] } ∧ target.proxy = none := by
  obtain ⟨raw, hraw, h⟩ := bind_inv h
  obtain ⟨url, hurl, h⟩ := bind_inv h
  simp only [bind_eq_ok, failWhen_eq_ok, decide_eq_false_iff_not, not_not] at h
  obtain ⟨hscheme, -, h⟩ := h
  obtain ⟨host, -, h⟩ := bind_inv h
  obtain ⟨method, -, h⟩ := bind_inv h
  obtain ⟨queryUrl, hquery, h⟩ := bind_inv h
  obtain ⟨config, -, h⟩ := bind_inv h
  cases h
  exact ⟨raw, url, queryUrl, method, okOr_eq_ok hraw, mapError_eq_ok hurl, hscheme, hquery, rfl, rfl⟩

/-- The parameters `dns` of a URL are those of the text that it is read from. -/
theorem named_url (hcrates : crates.Documented) {raw : String} (hurl : crates.parse raw = .ok url)
    (hscheme : url.scheme = "https") : '#' ∉ url.query.getD [] ∧
      (Form.named dnsKey (url.query.getD []) = [] ↔
        ∀ query, rawQuery raw.toList = some query → Form.named dnsKey query = []) := by
  rw [hcrates.query _ _ hurl (by rw [hscheme]; decide)]
  cases rawQuery raw.toList with
  | none => exact ⟨by simp, iff_of_true (by decide) (fun _ h => by cases h)⟩
  | some query =>
    have hfragment : '#' ∉ specialQueryEncode query :=
      Form.notMem_encode Http.ascii_specialQuery (by decide) (by decide) (by decide)
    have hnamed := Form.named_encode Http.ascii_specialQuery (by decide) (by decide) plain_dnsKey.2 query
    refine ⟨hfragment, ?_⟩
    rw [Option.map_some, Option.getD_some, specialQueryEncode, hnamed, List.map_eq_nil_iff]
    simp only [Option.some.injEq, forall_eq']

/-- A query goes out as it should unless the URL of the endpoint has a parameter `dns`. -/
theorem buildDohTarget_carries_iff {uris : UriCrates} (hcrates : crates.Documented) (huris : uris.Documented)
    {buildClientConfig : TlsParams → Except WireSurgeError Config} {addr : SocketAddr} {target : ConnectTarget Config}
    {raw : String} {template : HttpTemplate} {prepared : Prepared}
    (htarget : buildDohTarget crates buildClientConfig args addr = .ok target) (hraw : args.url = some raw)
    (htemplate : target.http = some template) (hprepared : Prepared.fromTemplate uris template = .ok prepared)
    (wire : Bytes) :
    (Carries uris prepared wire ↔ ∀ query, rawQuery raw.toList = some query → Form.named dnsKey query = []) ∧
      ∀ uri body, assemble uris prepared wire = .ok (uri, body) →
        uri.pathAndQuery.map PathAndQuery.asStr = some (buildPathAndQuery uris prepared wire).1 ∧
          body = (buildPathAndQuery uris prepared wire).2 := by
  obtain ⟨_, url, queryUrl, method, hraw', hurl, hscheme, hquery, hhttp, -⟩ := buildDohTarget_eq_ok htarget
  cases hraw.symm.trans hraw'
  cases hhttp.symm.trans htemplate
  obtain ⟨hpath, -, hsame⟩ := fromTemplate_eq_ok huris hprepared
  obtain ⟨hfragment, hnamed⟩ := named_url hcrates hurl hscheme
  have hkeeps := foldlM_keeps hcrates hquery
  refine ⟨?_, fun uri body h => assemble_eq_ok huris hpath ?_ h⟩
  · rw [carries_iff huris hpath, hsame, ← hnamed, ← hkeeps.dns]
  · rw [hsame]
    exact hkeeps.fragment hfragment

/-! ### One endpoint -/

/-- The crate on URLs of one path, which has no other parts than a query. -/
def endpointCrates : UrlCrates where
  parse input :=
    if "https://dns.example/dns-query".toList <+: input.toList then
      .ok {
        scheme := "https", username := "", password := none, host := some "dns.example",
        base := "https://dns.example/dns-query".toList, query := (rawQuery input.toList).map specialQueryEncode,
        fragment := none }
    else .error "relative URL without a base"
  appendPair url key value :=
    { url with query := some (Form.appendPair (url.query.getD []) key.toList value.toList) }

theorem documented_endpointCrates : endpointCrates.Documented where
  query input url h _ := by
    simp only [endpointCrates] at h
    split at h <;> cases h
    rfl
  appendPair _ _ _ := rfl

/-- The crates on the URI of the endpoint. -/
def endpointUris : UriCrates where
  parse text :=
    if text = "https://dns.example/dns-query".toList then
      .ok {
        scheme := some "https", authority := some "dns.example",
        pathAndQuery := some { path := "/dns-query".toList, query := none } }
    else .error "invalid uri character"
  pathAndQuery text :=
    match Str.splitOnce ['?'] text with
    | some (path, query) => .ok { path, query := some query }
    | none => .ok { path := text, query := none }
  fromParts _ := .ok ()
  base64 := Base64.encode

theorem documented_endpointUris : endpointUris.Documented where
  path text uri scheme pq h _ hpq := by
    simp only [endpointUris] at h
    split at h <;> cases h
    cases hpq
    decide
  pathAndQuery text pq _ _ h := by
    simp only [endpointUris] at h
    split at h
    · rename_i path query hsplit
      cases h
      rw [Str.splitOnce_eq_some hsplit, PathAndQuery.asStr, Option.map_some, Option.getD_some, List.append_assoc]
      rfl
    · cases h
      exact List.append_nil text
  base64 _ := rfl

/-- A DoH endpoint, asked with GET and a parameter that needs escapes. -/
def endpointArgs (url : String) : LoadArgs where
  url := some url
  dohMethod := some "get"
  httpParams := ["ct=a&b"]
  ednsOptions := []
  proxySrc := none
  proxyDst := none
  sni := none
  alpnRelaxed := false
  insecure := true

/-- Its address. -/
def endpointAddr : SocketAddr := .v4 #v[127, 0, 0, 1] 443

/-- The target of the endpoint, with this query. -/
def endpointTarget (query : String) : ConnectTarget Unit :=
  ((ConnectTarget.new endpointAddr).withTls () .doh (some "dns.example") false).withHttp {
    method := .get, baseUri := "https://dns.example/dns-query".toList, query := query.toList }

/-- The request that goes to it. -/
def endpointPrepared (query : String) : Prepared where
  method := .get
  httpMethod := "GET"
  scheme := "https"
  authority := "dns.example"
  path := "/dns-query".toList
  query := query.toList
  headers := [("accept", Dns.dnsMessage)]

/-- `buildDohTarget_carries_iff` on an endpoint with another parameter. -/
theorem carries_endpoint : Carries endpointUris (endpointPrepared "a=b&ct=a%26b") [0, 1] := by
  have htarget : buildDohTarget endpointCrates (fun _ => .ok ()) (endpointArgs "https://dns.example/dns-query?a=b")
      endpointAddr = .ok (endpointTarget "a=b&ct=a%26b") := by decide +kernel
  have hprepared : Prepared.fromTemplate endpointUris ⟨.get, "https://dns.example/dns-query".toList,
      "a=b&ct=a%26b".toList⟩ = .ok (endpointPrepared "a=b&ct=a%26b") := by decide +kernel
  have hquery : rawQuery "https://dns.example/dns-query?a=b".toList = some "a=b".toList := by decide +kernel
  refine (buildDohTarget_carries_iff documented_endpointCrates documented_endpointUris htarget rfl rfl hprepared
    [0, 1]).1.mpr fun query h => ?_
  cases hquery.symm.trans h
  decide

/-- A parameter `dns` of the URL goes out in front of that of the message. -/
theorem dnsParams_endpoint :
    Dns.dnsParams (buildPathAndQuery endpointUris (endpointPrepared "dns=abc&ct=a%26b") [0, 1]).1 =
        ["dns=abc".toList, "dns=AAE".toList] ∧
      ¬ ∀ (crates : UrlCrates) (uris : UriCrates) (args : LoadArgs) (target : ConnectTarget Unit)
        (template : HttpTemplate) (prepared : Prepared) (wire : Bytes), crates.Documented → uris.Documented →
        buildDohTarget crates (fun _ => .ok ()) args endpointAddr = .ok target → target.http = some template →
        Prepared.fromTemplate uris template = .ok prepared → Carries uris prepared wire := by
  have htwice : Dns.dnsParams (buildPathAndQuery endpointUris (endpointPrepared "dns=abc&ct=a%26b") [0, 1]).1 =
      ["dns=abc".toList, "dns=AAE".toList] := by decide +kernel
  refine ⟨htwice, fun h => ?_⟩
  have htarget : buildDohTarget endpointCrates (fun _ => .ok ()) (endpointArgs "https://dns.example/dns-query?dns=abc")
      endpointAddr = .ok (endpointTarget "dns=abc&ct=a%26b") := by decide +kernel
  have hprepared : Prepared.fromTemplate endpointUris ⟨.get, "https://dns.example/dns-query".toList,
      "dns=abc&ct=a%26b".toList⟩ = .ok (endpointPrepared "dns=abc&ct=a%26b") := by decide +kernel
  obtain ⟨param, hone, -⟩ :=
    h _ _ _ _ _ _ [0, 1] documented_endpointCrates documented_endpointUris htarget rfl hprepared
  cases htwice.symm.trans hone

/-! ## The target of a run -/

/-- The target of a protocol. -/
def protoTarget (crates : UrlCrates) (buildClientConfig : TlsParams → Except WireSurgeError Config)
    (args : LoadArgs) (addr : SocketAddr) : LoadProto → Except WireSurgeError (ConnectTarget Config)
  | .dot => (buildClientConfig { proto := .dot, insecure := args.insecure }).map fun config =>
      (ConnectTarget.new addr).withTls config .dot args.sni args.alpnRelaxed
  | .doh => buildDohTarget crates buildClientConfig args addr
  | .do53Udp | .do53Tcp => .ok (.new addr)

/-- The part of `build_load_config` that makes the target. -/
def buildTarget (crates : UrlCrates) (buildClientConfig : TlsParams → Except WireSurgeError Config) (parse : AddrParser)
    (args : LoadArgs) (addr : SocketAddr) (proto : LoadProto) : Except WireSurgeError (ConnectTarget Config) := do
  let proxy ← buildProxyHeader parse args
  let target ← protoTarget crates buildClientConfig args addr proto
  return match proxy with
    | some proxy => target.withProxy proxy
    | none => target

theorem protoTarget_proxy {buildClientConfig : TlsParams → Except WireSurgeError Config} {proto : LoadProto}
    {addr : SocketAddr} {target : ConnectTarget Config}
    (h : protoTarget crates buildClientConfig args addr proto = .ok target) : target.proxy = none := by
  cases proto with
  | do53Udp | do53Tcp =>
    cases h
    rfl
  | dot =>
    obtain ⟨config, -, rfl⟩ := map_eq_ok.mp h
    rfl
  | doh =>
    obtain ⟨-, -, -, -, -, -, -, -, -, hnone⟩ := buildDohTarget_eq_ok h
    exact hnone

/-- The header of a target is that of the flags, and no connection fails on it: it is
encoded for the stream and for the datagrams, and the other end reads it. -/
theorem buildTarget_proxyBytes {buildClientConfig : TlsParams → Except WireSurgeError Config} {proto : LoadProto}
    {addr : SocketAddr} {target : ConnectTarget Config}
    (h : buildTarget crates buildClientConfig parse args addr proto = .ok target) (transport : ProxyTransport) :
    ∃ bytes, target.proxyBytes transport = .ok bytes ∧
      (buildProxyHeader parse args = .ok none ∧ bytes = [] ∨
        ∃ header, buildProxyHeader parse args = .ok (some header) ∧
          ∀ carried, readHeader (bytes ++ carried) = some (transport, header.src, header.dst, carried)) := by
  obtain ⟨proxy, hproxy, h⟩ := bind_inv h
  obtain ⟨base, hbase, h⟩ := bind_inv h
  cases proxy with
  | none =>
    cases h
    refine ⟨[], ?_, .inl ⟨hproxy, rfl⟩⟩
    rw [ConnectTarget.proxyBytes, protoTarget_proxy hbase]
  | some header =>
    cases h
    obtain ⟨hsame, hsrc, hdst⟩ := buildProxyHeader_eq_ok hproxy
    have hsome : (base.withProxy header).proxy = some header := rfl
    obtain ⟨bytes, hbytes, hread⟩ := ConnectTarget.readHeader_proxyBytes hsome hsame transport
    rw [hsrc, hdst] at hread
    exact ⟨bytes, hbytes, .inr ⟨header, hproxy, hread⟩⟩

end WireSurge.Cli
