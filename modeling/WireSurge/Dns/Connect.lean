import WireSurge.Dns.Doh
import WireSurge.Net.Connect

/-!
# Connecting the transports

`connect` of the four transports. On a target that is `Ready` for its protocol it is a
script (`connect_eq`), whose requests and outcome are the `Course` of the target: so it
fails on what the network answers, on a name that TLS does not take or a URI that HTTP
does not take, and on nothing else.
-/

namespace WireSurge.Dns

open WireSurge.Core (WireSurgeError)
open Net (AppProto ConnectTarget Connecting NameCrates NetOp SocketAddr ask bindAddr connectTcp connectTcp_eq connectTls
  connectTls_eq connectUdp connectUdp_eq netError? preamble serverName)
open Prog (script script_adapt script_append script_congr script_error script_result)

variable {Config : Type}

/-- `TransportError::Io(error.to_string())`. -/
def ioError (error : WireSurgeError) : TransportError := .io error.display

/-- What is used of the crates for names and URIs. -/
structure ConnectCrates where
  names : NameCrates
  uris : UriCrates

/-- What a connection is made with. -/
inductive Connected
  | udp (proxyPrefix : Bytes)
  | framed (maxInFlight : Nat)
  | doh (prepared : Prepared)
  deriving DecidableEq

/-- The connect of Do53 over UDP; the PROXY header is made for its datagrams. -/
def udpConnect (target : ConnectTarget Config) : Connecting Config TransportError Connected := do
  let proxyPrefix ← liftExcept ((target.proxyBytes .dgram).mapError ioError)
  (connectUdp target).adapt ioError
  return .udp proxyPrefix

/-- The connect of Do53 over TCP. -/
def tcpConnect (target : ConnectTarget Config) : Connecting Config TransportError Connected := do
  (connectTcp target).adapt ioError
  return .framed tcpInFlight

/-- The connect of DoT. -/
def dotConnect (crates : ConnectCrates) (target : ConnectTarget Config) :
    Connecting Config TransportError Connected := do
  (connectTls crates.names target).adapt ioError
  return .framed dotInFlight

/-- What the driver answers, as an error of the transport. -/
def mapH2Err (answer : Except H2Error Unit) : Connecting Config TransportError Unit :=
  ExceptT.mk (pure (answer.mapError mapH2))

/-- The connect of DoH, up to the handshake of HTTP/2. -/
def dohConnect (crates : ConnectCrates) (target : ConnectTarget Config) :
    Connecting Config TransportError Connected := do
  match target.http with
  | none => throw (.protocol "DoH connect target is missing its HTTP template")
  | some template =>
    let prepared ← liftExcept (Prepared.fromTemplate crates.uris template)
    (connectTls crates.names target).adapt ioError
    mapH2Err (← ask .handshake)
    return .doh prepared

/-- `T::connect`, of the transport that the protocol chooses. -/
def connect (crates : ConnectCrates) (proto : LoadProto) (target : ConnectTarget Config) :
    Connecting Config TransportError Connected :=
  match proto with
  | .do53Udp => udpConnect target
  | .do53Tcp => tcpConnect target
  | .dot => dotConnect crates target
  | .doh => dohConnect crates target

/-! ## What a protocol needs -/

/-- The application protocol that is negotiated. -/
def LoadProto.app : LoadProto → Option AppProto
  | .dot => some .dot
  | .doh => some .doh
  | .do53Udp | .do53Tcp => none

/-- A target that has what its protocol needs. -/
structure Ready (proto : LoadProto) (target : ConnectTarget Config) : Prop where
  proxy : ∀ transport, ∃ bytes, target.proxyBytes transport = .ok bytes
  tls : ∀ app, proto.app = some app → (∃ config, target.tls = some config) ∧ target.proto = some app
  http : proto = .doh → ∃ template, target.http = some template

/-- The error of an answer that fails. -/
def connectError? (names : NameCrates) (app : AppProto) (relaxed : Bool) :
    (op : NetOp Config) → op.Ans → Option TransportError
  | .handshake, .ok () => none
  | .handshake, .error error => some (mapH2 error)
  | op, answer => (netError? names app relaxed op answer).map ioError

/-- What is asked on the way to a connection, and what comes of it when nothing of it fails. -/
inductive Course (crates : ConnectCrates) (target : ConnectTarget Config) :
    LoadProto → List (NetOp Config) → Except TransportError Connected → Prop
  | udp {bytes : Bytes} : target.proxyBytes .dgram = .ok bytes →
    Course crates target .do53Udp [.udpBind (bindAddr target.tcpAddr), .udpConnect target.tcpAddr] (.ok (.udp bytes))
  | tcp {header : Bytes} : target.proxyBytes .stream = .ok header →
    Course crates target .do53Tcp (preamble target header) (.ok (.framed tcpInFlight))
  | dot {header : Bytes} {config : Config} {name : Net.ServerName} : target.proxyBytes .stream = .ok header →
    target.tls = some config → serverName crates.names target = .ok name →
    Course crates target .dot (preamble target header ++ [.tlsConnect config name]) (.ok (.framed dotInFlight))
  | doh {header : Bytes} {config : Config} {name : Net.ServerName} {template : Net.HttpTemplate} {prepared : Prepared} :
    target.proxyBytes .stream = .ok header → target.tls = some config → serverName crates.names target = .ok name →
    target.http = some template → Prepared.fromTemplate crates.uris template = .ok prepared →
    Course crates target .doh (preamble target header ++ [.tlsConnect config name, .handshake]) (.ok (.doh prepared))
  /-- TLS does not take the name. -/
  | refusedName {proto : LoadProto} {app : AppProto} {header : Bytes} {error : WireSurgeError} : proto.app = some app →
    target.proxyBytes .stream = .ok header → serverName crates.names target = .error error →
    Course crates target proto (preamble target header) (.error (ioError error))
  /-- HTTP does not take the URI. -/
  | refusedUri {template : Net.HttpTemplate} {error : TransportError} : target.http = some template →
    Prepared.fromTemplate crates.uris template = .error error → Course crates target .doh [] (.error error)

variable {crates : ConnectCrates} {target : ConnectTarget Config} {proto : LoadProto} {app : AppProto} {header : Bytes}
  {relaxed : Bool} {names : NameCrates} {config : Config}

theorem connectError?_of_ne {op : NetOp Config} (h : op ≠ .handshake) :
    connectError? names app relaxed op = fun answer => (netError? names app relaxed op answer).map ioError := by
  funext answer
  cases op with
  | handshake => exact absurd rfl h
  | _ => rfl

theorem notMem_preamble : NetOp.handshake ∉ preamble target header := by
  unfold preamble
  split <;> simp

/-- A script of the network's errors is one of the transport's. -/
theorem adapt_script {ops : List (NetOp Config)} (hops : .handshake ∉ ops) {result : Except WireSurgeError Unit} :
    (script (netError? names app relaxed) ops result).adapt ioError =
      script (connectError? names app relaxed) ops (result.mapError ioError) := by
  rw [script_adapt]
  refine script_congr fun op hop => ?_
  rw [connectError?_of_ne fun heq => hops (heq ▸ hop)]

/-- TLS, and what is asked behind it. -/
theorem connectTls_script (crates : ConnectCrates) (htls : target.tls = some config) (hproto : target.proto = some app)
    (hheader : target.proxyBytes .stream = .ok header) :
    (∃ name, serverName crates.names target = .ok name ∧ (connectTls crates.names target).adapt ioError =
      script (connectError? crates.names app target.alpnRelaxed) (preamble target header ++ [.tlsConnect config name])
        (.ok ())) ∨
    ∃ error, serverName crates.names target = .error error ∧ (connectTls crates.names target).adapt ioError =
      script (connectError? crates.names app target.alpnRelaxed) (preamble target header) (.error (ioError error)) := by
  rw [connectTls_eq htls hproto hheader]
  cases serverName crates.names target with
  | ok name =>
    refine .inl ⟨name, rfl, adapt_script fun hmem => ?_⟩
    rcases List.mem_append.mp hmem with hmem | hmem
    · exact notMem_preamble hmem
    · simp at hmem
  | error error => exact .inr ⟨error, rfl, adapt_script notMem_preamble⟩

/-- To connect a target that is ready is a script. -/
theorem connect_eq (crates : ConnectCrates) (h : Ready proto target) :
    ∃ ops result, Course crates target proto ops result ∧ connect crates proto target =
      script (connectError? crates.names (proto.app.getD .dot) target.alpnRelaxed) ops result := by
  cases proto with
  | do53Udp =>
    obtain ⟨bytes, hbytes⟩ := h.proxy .dgram
    refine ⟨_, _, .udp hbytes, ?_⟩
    rw [script_result (a := ())]
    simp only [connect, udpConnect, hbytes, connectUdp_eq crates.names .dot target.alpnRelaxed target]
    rw [adapt_script (by simp)]
    rfl
  | do53Tcp =>
    obtain ⟨header, hheader⟩ := h.proxy .stream
    refine ⟨_, _, .tcp hheader, ?_⟩
    rw [script_result (a := ())]
    simp only [connect, tcpConnect, connectTcp_eq crates.names .dot target.alpnRelaxed hheader]
    rw [adapt_script notMem_preamble]
    rfl
  | dot =>
    obtain ⟨header, hheader⟩ := h.proxy .stream
    obtain ⟨⟨config, htls⟩, hproto⟩ := h.tls .dot rfl
    rcases connectTls_script crates htls hproto hheader with ⟨name, hname, heq⟩ | ⟨error, hname, heq⟩
    · refine ⟨_, _, .dot hheader htls hname, ?_⟩
      simp only [connect, dotConnect, heq]
      exact script_result.symm
    · refine ⟨_, _, .refusedName rfl hheader hname, ?_⟩
      simp only [connect, dotConnect, heq]
      exact script_error
  | doh =>
    obtain ⟨header, hheader⟩ := h.proxy .stream
    obtain ⟨⟨config, htls⟩, hproto⟩ := h.tls .doh rfl
    obtain ⟨template, hhttp⟩ := h.http rfl
    cases hprepared : Prepared.fromTemplate crates.uris template with
    | error error =>
      refine ⟨_, _, .refusedUri hhttp hprepared, ?_⟩
      simp only [connect, dohConnect, hhttp, hprepared]
      rfl
    | ok prepared =>
      rcases connectTls_script crates htls hproto hheader with ⟨name, hname, heq⟩ | ⟨error, hname, heq⟩
      · refine ⟨_, _, .doh hheader htls hname hhttp hprepared, ?_⟩
        have hops : preamble target header ++ [.tlsConnect config name, .handshake] =
            (preamble target header ++ [.tlsConnect config name]) ++ [.handshake] := by simp
        simp only [connect, dohConnect, hhttp, hprepared, heq]
        rw [hops]
        refine Eq.trans ?_ (script_append (a := ())).symm
        refine congrArg (script _ _ _ >>= ·) (funext fun _ => ?_)
        refine congrArg (Prog.ask _) (funext fun (answer : Except H2Error Unit) => ?_)
        cases answer <;> rfl
      · refine ⟨_, _, .refusedName rfl hheader hname, ?_⟩
        simp only [connect, dohConnect, hhttp, hprepared, heq]
        exact script_error

end WireSurge.Dns
