import WireSurge.Cli.Target
import WireSurge.Corpus.Rows
import WireSurge.Dns.Connect
import WireSurge.Engine.RateGate

/-!
# The configuration of a load run

`build_load_config`, with the resolving of the server's address. No command line stops
it (`buildLoadConfig_returns`): the numbers that a conversion would stop at are refused
before. The target of an accepted one is ready for its protocol (`buildLoadConfig_ready`),
so what a worker asks of the network to connect, and all that can fail there, is the
course of its protocol, the PROXY header of the flags in front (`admitted_connects`).
-/

namespace WireSurge.Cli

open Checked (Checked Panic Returns map_eq_ok)
open WireSurge.Core (WireSurgeError failWhen bind_inv bind_eq_ok failWhen_eq_ok)
open Corpus (Corpus)
open Dns (Bytes ConnectCrates Connected Course LoadProto Ready connect connectError? connect_eq)
open Engine (LoadConfig fromSecsF64 fromSecsF64_eq maxRunSecs)
open Net (AppProto ConnectTarget IpAddr NameCrates NetOp ProxyTransport SocketAddr TlsParams readHeader serverName
  serverName_of_none)
open Str (toAsciiLowercase toAsciiUppercase)

/-! ## The arguments -/

/-- The rest of the arguments of a load run. -/
structure ConfigArgs extends LoadArgs where
  server : String
  protocol : String
  port : UInt16
  corpus : Option String
  name : String
  qtype : String
  concurrency : Nat
  inFlight : Nat
  durationS : Option Double
  count : Option Nat
  qps : Option Double
  timeoutMs : Nat
  randomize : Bool
  seed : UInt64

/-- What is used of the standard library and the crates. -/
structure ConfigCrates (Config : Type) where
  parseAddr : AddrParser
  parseIp : String → Option IpAddr
  /-- `to_socket_addrs`, or none where it fails. -/
  lookup : String → UInt16 → Option (List SocketAddr)
  urls : UrlCrates
  buildClientConfig : TlsParams → Except WireSurgeError Config
  /-- The opening of a file, and the mapping of its bytes; an error is its text. -/
  openFile : String → Except String Unit
  mapFile : String → Except String (List UInt8)

variable {Config : Type}

/-- `resolve_addr`: an address with its port, or one that takes the port of the flag. -/
def resolveAddr (crates : ConfigCrates Config) (server : String) (port : UInt16) : Except WireSurgeError SocketAddr :=
  match crates.parseAddr server with
  | .ok addr => .ok (.new addr.ip.toCanonical addr.port)
  | .error _ =>
    match crates.parseIp server with
    | some ip => .ok (.new ip.toCanonical port)
    | none =>
      match (Net.unbracket server).bind crates.parseIp with
      | some ip => .ok (.new ip.toCanonical port)
      | none =>
        match (crates.lookup server port).bind List.head? with
        | some addr => .ok addr
        | none => .error ((WireSurgeError.new "invalid_server" ("could not resolve " ++ server)).atPath "server")

/-- The transport that `--protocol` names, in any case. -/
def parseProtocol (protocol : String) : Except WireSurgeError LoadProto :=
  match toAsciiLowercase protocol with
  | "udp" => .ok .do53Udp
  | "tcp" => .ok .do53Tcp
  | "dot" => .ok .dot
  | "doh" => .ok .doh
  | other => .error ((WireSurgeError.new "invalid_dns_transport"
      ("protocol must be udp, tcp, dot, or doh, got " ++ other)).atPath "protocol")

/-- `parse_qtype`: a name, or a number. -/
def parseQtype (value : String) : Except WireSurgeError UInt16 :=
  match toAsciiUppercase value with
  | "A" => .ok 1
  | "NS" => .ok 2
  | "CNAME" => .ok 5
  | "SOA" => .ok 6
  | "PTR" => .ok 12
  | "MX" => .ok 15
  | "TXT" => .ok 16
  | "AAAA" => .ok 28
  | "SRV" => .ok 33
  | "ANY" => .ok 255
  | _ =>
    match Hex.fromStrRadix 10 65535 value.toList with
    | some qtype => .ok (UInt16.ofNat qtype)
    | none => .error ((WireSurgeError.new "invalid_dns_qtype"
        "qtype must be A, AAAA, NS, CNAME, SOA, PTR, MX, TXT, SRV, ANY, or a number").atPath "qtype")

/-- `Duration::from_millis`. -/
def fromMillis (millis : Nat) : ℚ≥0 := .divNat millis 1000

/-- The checks of the flags, in order, up to the EDNS options. -/
def checkFlags (args : ConfigArgs) (proto : LoadProto) : Except WireSurgeError Unit := do
  failWhen ((proto ≠ .dot ∧ proto ≠ .doh) ∧ (args.insecure ∨ args.sni.isSome ∨ args.alpnRelaxed))
    ((WireSurgeError.new "tls_flag_without_tls"
      "--sni, --alpn-relaxed, and --insecure apply only to --protocol dot or doh").atPath "protocol")
  failWhen (args.url.isSome ∧ proto ≠ .doh)
    ((WireSurgeError.new "url_requires_doh" "--url is only used by --protocol doh").atPath "url")
  failWhen (args.dohMethod.isSome ∧ proto ≠ .doh)
    ((WireSurgeError.new "doh_method_requires_doh" "--doh-method is only used by --protocol doh").atPath "doh-method")
  failWhen (args.durationS.isSome ∧ args.count.isSome)
    ((WireSurgeError.new "conflicting_stop_conditions" "set either --duration-s (-l) or --count, not both").atPath
      "duration-s")
  failWhen (args.durationS.any fun secs => secs.le 0 || !secs.isFinite || secs.gt maxRunSecs)
    ((WireSurgeError.new "invalid_duration"
      "--duration-s must be a positive, finite number of seconds (at most 7 days)").atPath "duration-s").reject
  failWhen (args.qps.any fun qps => qps.le 0 || !qps.isFinite)
    ((WireSurgeError.new "invalid_qps" "--qps must be a positive, finite number").atPath "qps").reject
  failWhen (args.httpParams ≠ [] ∧ proto ≠ .doh)
    ((WireSurgeError.new "http_param_requires_doh" "--http-param is only used by --protocol doh").atPath "http-param")

/-- The names that the queries ask for. -/
def loadCorpus (crates : ConfigCrates Config) (args : ConfigArgs) : Checked (Except WireSurgeError Corpus) :=
  match args.corpus with
  | some path => Corpus.load (crates.openFile path) (crates.mapFile path)
  | none => return .ok (Corpus.single args.name)

/-- `build_load_config`. -/
def buildLoadConfig (crates : ConfigCrates Config) (args : ConfigArgs) :
    Checked (Except WireSurgeError (LoadConfig × ConnectTarget Config)) := ExceptT.run do
  let addr ← liftExcept (resolveAddr crates args.server args.port)
  let proto ← liftExcept (parseProtocol args.protocol)
  liftExcept (checkFlags args proto)
  let ednsOptions ← ExceptT.mk (parseEdnsOptions args.ednsOptions)
  let target ← liftExcept
    (buildTarget crates.urls crates.buildClientConfig crates.parseAddr args.toLoadArgs addr proto)
  let corpus ← ExceptT.mk (loadCorpus crates args)
  let qtype ← liftExcept (parseQtype args.qtype)
  let duration ← ExceptT.lift (args.durationS.mapM fromSecsF64)
  return ({
    proto, corpus, qtype, concurrency := args.concurrency, inFlight := args.inFlight
    timeout := fromMillis args.timeoutMs, qpsCap := args.qps, duration, count := args.count
    randomize := args.randomize, seed := args.seed, ednsOptions }, target)

/-! ## Programs that are refused or stopped -/

section

variable {α β : Type} {x : ExceptT WireSurgeError Checked α} {f : α → ExceptT WireSurgeError Checked β} {b : β}

theorem run_bind_inv (h : (x >>= f).run = .ok (.ok b)) : ∃ a, x.run = .ok (.ok a) ∧ (f a).run = .ok (.ok b) := by
  obtain ⟨r, hr, h⟩ := bind_inv h
  cases r with
  | error => cases h
  | ok a => exact ⟨a, hr, h⟩

theorem returns_bind (hx : Returns x.run) (hf : ∀ a, x.run = .ok (.ok a) → Returns (f a).run) :
    Returns (x >>= f).run := by
  obtain ⟨r, hr⟩ := hx
  rw [ExceptT.run_bind, hr]
  cases r with
  | error error => exact ⟨.error error, rfl⟩
  | ok a => exact hf a hr

theorem returns_lift (r : Except WireSurgeError α) : Returns (liftExcept r : ExceptT WireSurgeError Checked α).run := by
  cases r with
  | error error => exact ⟨.error error, rfl⟩
  | ok a => exact ⟨.ok a, rfl⟩

theorem run_lift_inv {r : Except WireSurgeError α} {a : α}
    (h : (liftExcept r : ExceptT WireSurgeError Checked α).run = .ok (.ok a)) : r = .ok a := by
  cases r with
  | error => cases h
  | ok => cases h; rfl

end

/-! ## What is accepted -/

variable {crates : ConfigCrates Config} {args : ConfigArgs} {config : LoadConfig} {target : ConnectTarget Config}
  {proto : LoadProto}

/-- The flags that pass have no duration that a conversion would stop at. -/
theorem fromSecsF64_returns {secs : Double} (h : (secs.le 0 || !secs.isFinite || secs.gt maxRunSecs) = false) :
    Returns (fromSecsF64 secs) := by
  simp only [Bool.or_eq_false_iff] at h
  obtain ⟨⟨hpos, hfinite⟩, hmax⟩ := h
  cases secs with
  | infinite | nan => cases hfinite
  | finite secs =>
    have hpos : 0 < secs := by simpa [Double.le] using hpos
    have hmax : secs ≤ maxRunSecs := by simpa [Double.gt] using hmax
    obtain ⟨d, hd, -⟩ := fromSecsF64_eq hpos.le hmax
    exact ⟨d, hd⟩

theorem checkFlags_duration (h : checkFlags args proto = .ok ()) {secs : Double} (hsecs : args.durationS = some secs) :
    (secs.le 0 || !secs.isFinite || secs.gt maxRunSecs) = false := by
  simp only [checkFlags, bind_eq_ok, failWhen_eq_ok] at h
  obtain ⟨-, -, -, -, hduration, -⟩ := h
  rwa [hsecs] at hduration

/-- No command line stops the program. -/
theorem buildLoadConfig_returns (crates : ConfigCrates Config) (args : ConfigArgs) :
    Returns (buildLoadConfig crates args) := by
  unfold buildLoadConfig
  refine returns_bind (returns_lift _) fun addr _ => returns_bind (returns_lift _) fun proto _ =>
    returns_bind (returns_lift _) fun _ hflags => returns_bind (parseEdnsOptions_returns _) fun ednsOptions _ =>
    returns_bind (returns_lift _) fun target _ => returns_bind ?_ fun corpus _ =>
    returns_bind (returns_lift _) fun qtype _ => returns_bind ?_ fun duration _ => ⟨_, rfl⟩
  · unfold loadCorpus
    split
    · exact Corpus.load_returns _ _
    · exact ⟨_, rfl⟩
  · cases hsecs : args.durationS with
    | none => exact ⟨_, rfl⟩
    | some secs =>
      have hpass := checkFlags_duration (run_lift_inv hflags) hsecs
      obtain ⟨duration, hduration⟩ := fromSecsF64_returns hpass
      rw [Option.mapM_some, hduration]
      exact ⟨_, rfl⟩

theorem buildLoadConfig_eq_ok (h : buildLoadConfig crates args = .ok (.ok (config, target))) :
    ∃ addr, resolveAddr crates args.server args.port = .ok addr ∧ parseProtocol args.protocol = .ok config.proto ∧
      checkFlags args config.proto = .ok () ∧
      buildTarget crates.urls crates.buildClientConfig crates.parseAddr args.toLoadArgs addr config.proto =
        .ok target := by
  obtain ⟨addr, haddr, h⟩ := run_bind_inv h
  obtain ⟨proto, hproto, h⟩ := run_bind_inv h
  obtain ⟨_, hflags, h⟩ := run_bind_inv h
  obtain ⟨ednsOptions, -, h⟩ := run_bind_inv h
  obtain ⟨target, htarget, h⟩ := run_bind_inv h
  obtain ⟨corpus, -, h⟩ := run_bind_inv h
  obtain ⟨qtype, -, h⟩ := run_bind_inv h
  obtain ⟨duration, -, h⟩ := run_bind_inv h
  cases h
  exact ⟨addr, run_lift_inv haddr, run_lift_inv hproto, run_lift_inv hflags, run_lift_inv htarget⟩

/-- What an endpoint is connected to with. -/
theorem buildDohTarget_tls {args : LoadArgs} {addr : SocketAddr}
    (h : buildDohTarget crates.urls crates.buildClientConfig args addr = .ok target) :
    target.tcpAddr = addr ∧ (∃ config, target.tls = some config) ∧ target.proto = some .doh := by
  obtain ⟨raw, -, h⟩ := bind_inv h
  obtain ⟨url, -, h⟩ := bind_inv h
  simp only [bind_eq_ok, failWhen_eq_ok] at h
  obtain ⟨-, -, h⟩ := h
  obtain ⟨host, -, h⟩ := bind_inv h
  obtain ⟨method, -, h⟩ := bind_inv h
  obtain ⟨queryUrl, -, h⟩ := bind_inv h
  obtain ⟨config, -, h⟩ := bind_inv h
  cases h
  exact ⟨rfl, ⟨config, rfl⟩, rfl⟩

/-- The target of a protocol has what its transport needs besides the header. -/
theorem protoTarget_needs {args : LoadArgs} {addr : SocketAddr}
    (h : protoTarget crates.urls crates.buildClientConfig args addr proto = .ok target) :
    target.tcpAddr = addr ∧
      (∀ app, proto.app = some app → (∃ config, target.tls = some config) ∧ target.proto = some app) ∧
      (proto = .doh → ∃ template, target.http = some template) ∧ (proto = .dot → target.sni = args.sni) := by
  cases proto with
  | do53Udp | do53Tcp =>
    cases h
    exact ⟨rfl, fun _ happ => absurd happ (Option.some_ne_none _).symm, LoadProto.noConfusion, LoadProto.noConfusion⟩
  | dot =>
    obtain ⟨config, -, rfl⟩ := map_eq_ok.mp h
    exact ⟨rfl, fun app happ => ⟨⟨config, rfl⟩, happ⟩, LoadProto.noConfusion, fun _ => rfl⟩
  | doh =>
    obtain ⟨haddr, htls, hproto⟩ := buildDohTarget_tls h
    obtain ⟨-, url, queryUrl, method, -, -, -, -, hhttp, -⟩ := buildDohTarget_eq_ok h
    exact ⟨haddr, fun app happ => ⟨htls, hproto.trans happ⟩, fun _ => ⟨_, hhttp⟩, LoadProto.noConfusion⟩

/-- The target of an accepted command line is ready, and goes to the address of the server. -/
theorem buildLoadConfig_ready (h : buildLoadConfig crates args = .ok (.ok (config, target))) :
    Ready config.proto target ∧ resolveAddr crates args.server args.port = .ok target.tcpAddr ∧
      (config.proto = .dot → target.sni = args.sni) := by
  obtain ⟨addr, haddr, -, -, htarget⟩ := buildLoadConfig_eq_ok h
  have hproxy (transport : ProxyTransport) : ∃ bytes, target.proxyBytes transport = .ok bytes :=
    (buildTarget_proxyBytes htarget transport).imp fun _ hbytes => hbytes.1
  obtain ⟨proxy, -, htarget⟩ := bind_inv htarget
  obtain ⟨base, hbase, htarget⟩ := bind_inv htarget
  obtain ⟨hbaseAddr, htls, hhttp, hsni⟩ := protoTarget_needs hbase
  -- the header changes nothing else of the target
  cases proxy with
  | none =>
    cases htarget
    exact ⟨⟨hproxy, htls, hhttp⟩, hbaseAddr ▸ haddr, hsni⟩
  | some proxy =>
    cases htarget
    exact ⟨⟨hproxy, htls, hhttp⟩, hbaseAddr ▸ haddr, hsni⟩

/-- No command line of a load run stops `build_load_config`, and one that is accepted has
a target for the address of its server with which every attempt to connect, whatever the
network answers, is the course of its protocol: what it asks is a part from the front of
the requests of the course, and it ends at an answer that fails, with its error, or
behind them all, with the outcome of the course. In front of what a stream or a datagram
carries is nothing, or the header of the flags; and over DoT without `--sni` the course
comes to a connection. -/
theorem admitted_connects (connecting : ConnectCrates) (crates : ConfigCrates Config) (args : ConfigArgs) :
    Returns (buildLoadConfig crates args) ∧
    ∀ config target, buildLoadConfig crates args = .ok (.ok (config, target)) →
      resolveAddr crates args.server args.port = .ok target.tcpAddr ∧
      (∀ transport, ∃ bytes, target.proxyBytes transport = .ok bytes ∧
        (buildProxyHeader crates.parseAddr args.toLoadArgs = .ok none ∧ bytes = [] ∨
          ∃ header, buildProxyHeader crates.parseAddr args.toLoadArgs = .ok (some header) ∧
            ∀ carried, readHeader (bytes ++ carried) = some (transport, header.src, header.dst, carried))) ∧
      ∃ ops outcome, Course connecting target config.proto ops outcome ∧
        (connecting.names.Documented → config.proto = .dot → args.sni = none → ∃ connected, outcome = .ok connected) ∧
        ∀ p said, Prog.Runs Prog.recording ((connect connecting config.proto target).run, []) (p, said) →
          said.map Sigma.fst <+: ops ∧
          ∀ r, p = .done r →
            Prog.Ends (connectError? connecting.names (config.proto.app.getD .dot) target.alpnRelaxed) ops outcome r
              said := by
  refine ⟨buildLoadConfig_returns crates args, fun config target h => ?_⟩
  obtain ⟨hready, haddr, hsni⟩ := buildLoadConfig_ready h
  obtain ⟨addr, -, -, -, htarget⟩ := buildLoadConfig_eq_ok h
  obtain ⟨ops, outcome, hcourse, heq⟩ := connect_eq connecting hready
  refine ⟨haddr, buildTarget_proxyBytes htarget, ops, outcome, hcourse, fun hnames hdot hnone => ?_,
    fun p said hrun => ?_⟩
  · have hname := serverName_of_none hnames ((hsni hdot).trans hnone)
    revert hcourse
    generalize config.proto = proto at hdot
    subst hdot
    intro hcourse
    cases hcourse with
    | dot => exact ⟨_, rfl⟩
    | refusedName _ _ hrefused => cases hname.symm.trans hrefused
  · rw [heq] at hrun
    exact Prog.runs_script hrun

/-! A command line over DoT, with a PROXY header. -/

def dotCrates : ConfigCrates Unit where
  parseAddr text :=
    if text = "10.0.0.1:853" then .ok (.v4 #v[10, 0, 0, 1] 853)
    else if text = "10.0.0.2:50000" then .ok (.v4 #v[10, 0, 0, 2] 50000)
    else if text = "10.0.0.3:443" then .ok (.v4 #v[10, 0, 0, 3] 443)
    else .error "invalid socket address syntax"
  parseIp _ := none
  lookup _ _ := none
  urls := endpointCrates
  buildClientConfig _ := .ok ()
  openFile _ := .error "No such file or directory (os error 2)"
  mapFile _ := .ok []

/-- DoT behind a PROXY header. -/
def dotArgs : ConfigArgs where
  url := none
  dohMethod := none
  httpParams := []
  ednsOptions := []
  proxySrc := some "10.0.0.2:50000"
  proxyDst := some "10.0.0.3:443"
  sni := some "dns.example"
  alpnRelaxed := false
  insecure := true
  server := "10.0.0.1:853"
  protocol := "DoT"
  port := 53
  corpus := none
  name := "example.com"
  qtype := "aaaa"
  concurrency := 1
  inFlight := 1
  durationS := some (.ofRat (1 / 2))
  count := none
  qps := none
  timeoutMs := 2000
  randomize := false
  seed := 0

def dotConnecting : ConnectCrates where
  names := {
    parseIp _ := none
    showIp _ := "10.0.0.1"
    serverName _ := .ok ()
    debugLossy _ := "\"dot\"" }
  uris := endpointUris

/-- What it connects to. -/
def dotTarget : ConnectTarget Unit :=
  ((ConnectTarget.new (.v4 #v[10, 0, 0, 1] 853)).withTls () .dot (some "dns.example") false).withProxy
    ⟨.v4 #v[10, 0, 0, 2] 50000, .v4 #v[10, 0, 0, 3] 443⟩

/-- `admitted_connects` for it: the header goes out in front of TLS. -/
theorem admitted_connects_dot : ∃ config header, buildLoadConfig dotCrates dotArgs = .ok (.ok (config, dotTarget)) ∧
    (∀ carried, readHeader (header ++ carried) =
      some (.stream, .v4 #v[10, 0, 0, 2] 50000, .v4 #v[10, 0, 0, 3] 443, carried)) ∧
    ∀ p said, Prog.Runs Prog.recording ((connect dotConnecting .dot dotTarget).run, []) (p, said) →
      said.map Sigma.fst <+: [.tcpConnect (.v4 #v[10, 0, 0, 1] 853), .setNodelay, .writeAll header, .flush,
        .tlsConnect () (.dns "dns.example")] := by
  obtain ⟨⟨r, hr⟩, haccepted⟩ := admitted_connects dotConnecting dotCrates dotArgs
  have hresult : ((buildLoadConfig dotCrates dotArgs).toOption.bind Except.toOption).map
      (fun accepted => (accepted.1.proto, accepted.2)) = some (.dot, dotTarget) := by decide +kernel
  rw [hr] at hresult
  cases r with
  | error => cases hresult
  | ok accepted =>
    obtain ⟨config, target⟩ := accepted
    simp only [Except.toOption, Option.bind_some, Option.map_some, Option.some.injEq, Prod.mk.injEq] at hresult
    obtain ⟨hdot, rfl⟩ := hresult
    obtain ⟨-, hheader, ops, outcome, hcourse, -, hruns⟩ := haccepted config dotTarget hr
    obtain ⟨header, hbytes, hread⟩ := hheader .stream
    have hflags : buildProxyHeader dotCrates.parseAddr dotArgs.toLoadArgs =
        .ok (some ⟨.v4 #v[10, 0, 0, 2] 50000, .v4 #v[10, 0, 0, 3] 443⟩) := by decide
    rw [hflags] at hread
    rcases hread with ⟨hnone, -⟩ | ⟨header', hsome, hread⟩
    · cases hnone
    cases hsome
    refine ⟨config, header, hr, hread, fun p said hrun => ?_⟩
    rw [hdot] at hcourse hruns
    have hasked := (hruns p said hrun).1
    cases hcourse with
    | dot hheader' htls hname =>
      cases hbytes.symm.trans hheader'
      cases htls
      cases hname
      exact hasked
    | refusedName _ _ hname => cases hname

end WireSurge.Cli
