import WireSurge.Dns.Transport
import WireSurge.Lib.Script
import WireSurge.Net.Target

/-!
# Making a connection

`connect_tcp`, `connect_udp` and `connect_tls` as programs that ask the network. On a
target that has what its protocol needs (`Ready`), each is a script: a TCP connection is
opened and the PROXY header goes out on it (`preamble`) before TLS starts
(`connectTls_eq`).
-/

namespace WireSurge.Net

open WireSurge.Core (WireSurgeError)
open Dns (Bytes H2Error)
open Prog (script)

/-! ## The network -/

/-- `ServerName`: an address, or a name for the handshake. -/
inductive ServerName
  | ip (addr : IpAddr)
  | dns (name : String)
  deriving DecidableEq, Repr

/-- What is asked of the network. -/
inductive NetOp (Config : Type)
  | tcpConnect (addr : SocketAddr)
  | setNodelay
  | writeAll (bytes : Bytes)
  | flush
  /-- The answer is the protocol that was negotiated. -/
  | tlsConnect (config : Config) (name : ServerName)
  | udpBind (addr : String)
  | udpConnect (addr : SocketAddr)
  /-- The handshake of HTTP/2. -/
  | handshake
  deriving DecidableEq

variable {Config ε α : Type}

/-- An error is its text. -/
abbrev NetOp.Ans : NetOp Config → Type
  | .tlsConnect _ _ => Except String (Option Bytes)
  | .handshake => Except H2Error Unit
  | _ => Except String Unit

/-- A program that makes a connection. -/
abbrev Connecting (Config ε α : Type) := ExceptT ε (Prog (NetOp Config) NetOp.Ans) α

/-- An operation of the network. -/
def ask (op : NetOp Config) : Connecting Config ε op.Ans := ExceptT.lift (Prog.request op)

/-- `map_err(..)?`. -/
def mapErr (f : String → ε) (r : Except String α) : Connecting Config ε α := ExceptT.mk (pure (r.mapError f))

/-- What is used of the standard library and of the TLS library on names. -/
structure NameCrates where
  /-- `parse::<IpAddr>`. -/
  parseIp : String → Option IpAddr
  /-- `IpAddr::to_string`. -/
  showIp : IpAddr → String
  /-- `ServerName::try_from`; an error is its text. -/
  serverName : String → Except String Unit
  /-- `{:?}` of `from_utf8_lossy`. -/
  debugLossy : Bytes → String

/-- What the standard library documents: an address is read back, and has no brackets. -/
structure NameCrates.Documented (names : NameCrates) : Prop where
  parseIp : ∀ ip, names.parseIp (names.showIp ip) = some ip
  showIp : ∀ ip, (names.showIp ip).toList.head? ≠ some '['

/-! ## Streams and datagrams -/

/-- The error of a TCP connect. -/
def connectFailed (message : String) : WireSurgeError :=
  ((WireSurgeError.new "connect_failed" message).atPath "server").withRetryable true

/-- The error of `set_nodelay`. -/
def setNodelayFailed (message : String) : WireSurgeError :=
  (WireSurgeError.new "set_nodelay_failed" message).withRetryable true

/-- The error of a write of the PROXY header. -/
def proxyWriteFailed (message : String) : WireSurgeError :=
  ((WireSurgeError.new "proxy_write_failed" message).atPath "proxy").withRetryable true

/-- `connect_tcp`: the PROXY header goes first. -/
def connectTcp (target : ConnectTarget Config) : Connecting Config WireSurgeError Unit := do
  mapErr connectFailed (← ask (.tcpConnect target.tcpAddr))
  mapErr setNodelayFailed (← ask .setNodelay)
  match target.proxy with
  | some proxy =>
    let header ← liftExcept (proxy.encode .stream)
    mapErr proxyWriteFailed (← ask (.writeAll header))
    mapErr proxyWriteFailed (← ask .flush)
  | none => pure ()

/-- The error of the bind of a UDP socket. -/
def udpBindFailed (message : String) : WireSurgeError :=
  (WireSurgeError.new "udp_bind_failed" message).withRetryable true

/-- The error of the connect of a UDP socket. -/
def udpConnectFailed (message : String) : WireSurgeError :=
  (WireSurgeError.new "udp_connect_failed" message).withRetryable true

/-- The address that a socket for this peer is bound to. -/
def bindAddr (addr : SocketAddr) : String := if addr.isIpv4 then "0.0.0.0:0" else "[::]:0"

/-- `connect_udp`; the PROXY header is left to each datagram. -/
def connectUdp (target : ConnectTarget Config) : Connecting Config WireSurgeError Unit := do
  mapErr udpBindFailed (← ask (.udpBind (bindAddr target.tcpAddr)))
  mapErr udpConnectFailed (← ask (.udpConnect target.tcpAddr))

/-! ## TLS -/

/-- `alpn`. -/
def AppProto.alpn : AppProto → Bytes
  | dot => [0x64, 0x6F, 0x74]
  | doh => [0x68, 0x32]

/-- The text between a pair of brackets. -/
def unbracket (name : String) : Option String :=
  match name.toList with
  | '[' :: inner => if inner.getLast? = some ']' then some (String.ofList inner.dropLast) else none
  | _ => none

/-- `server_name`; an IPv6 address may stand in brackets. -/
def serverName (names : NameCrates) (target : ConnectTarget Config) : Except WireSurgeError ServerName :=
  let name := target.sni.getD (names.showIp target.tcpAddr.ip)
  match names.parseIp ((unbracket name).getD name) with
  | some ip => .ok (.ip ip)
  | none =>
    match names.serverName name with
    | .ok () => .ok (.dns name)
    | .error error => .error ((WireSurgeError.new "invalid_sni" error).atPath "sni")

/-- Without a name of its own, a target has that of its address. -/
theorem serverName_of_none {names : NameCrates} (hnames : names.Documented) {target : ConnectTarget Config}
    (hsni : target.sni = none) : serverName names target = .ok (.ip target.tcpAddr.ip) := by
  have hplain : unbracket (names.showIp target.tcpAddr.ip) = none := by
    unfold unbracket
    split
    · rename_i inner hname
      have hhead := hnames.showIp target.tcpAddr.ip
      rw [hname] at hhead
      exact absurd rfl hhead
    · rfl
  simp only [serverName, hsni, Option.getD_none, hplain, hnames.parseIp]

/-- `check_alpn`; no protocol is taken for the one asked for only where that is relaxed. -/
def checkAlpn (names : NameCrates) (negotiated : Option Bytes) (proto : AppProto) (relaxed : Bool) :
    Except WireSurgeError Unit :=
  match negotiated with
  | some protocol =>
    if protocol = proto.alpn then .ok ()
    else .error (.new "alpn_mismatch" ("peer negotiated " ++ names.debugLossy protocol ++ ", expected " ++
      names.debugLossy proto.alpn))
  | none =>
    if relaxed then .ok ()
    else .error (.new "alpn_absent"
      "peer negotiated no ALPN; pass --alpn-relaxed to assume the configured protocol")

/-- The error of a TLS handshake. -/
def tlsHandshakeFailed (message : String) : WireSurgeError :=
  ((WireSurgeError.new "tls_handshake_failed" message).atPath "server").withRetryable true

/-- `connect_tls`. -/
def connectTls (names : NameCrates) (target : ConnectTarget Config) : Connecting Config WireSurgeError Unit := do
  match target.tls with
  | none => throw (.new "tls_not_configured" "connect_tls called without a TLS config")
  | some config =>
    match target.proto with
    | none => throw (.new "tls_not_configured" "connect_tls called without a protocol")
    | some proto =>
      connectTcp target
      let serverName ← liftExcept (serverName names target)
      let negotiated ← mapErr tlsHandshakeFailed (← ask (.tlsConnect config serverName))
      liftExcept (checkAlpn names negotiated proto target.alpnRelaxed)

/-! ## As scripts -/

/-- The error of an answer that fails. -/
def failure (f : String → WireSurgeError) : Except String α → Option WireSurgeError
  | .ok _ => none
  | .error error => some (f error)

/-- The error of a check. -/
def refusal : Except WireSurgeError Unit → Option WireSurgeError
  | .ok _ => none
  | .error error => some error

/-- What is made of the answers; the protocol and whether it has to be negotiated are those of the target. -/
def netError? (names : NameCrates) (proto : AppProto) (relaxed : Bool) :
    (op : NetOp Config) → op.Ans → Option WireSurgeError
  | .tcpConnect _, answer => failure connectFailed answer
  | .setNodelay, answer => failure setNodelayFailed answer
  | .writeAll _, answer => failure proxyWriteFailed answer
  | .flush, answer => failure proxyWriteFailed answer
  | .udpBind _, answer => failure udpBindFailed answer
  | .udpConnect _, answer => failure udpConnectFailed answer
  | .tlsConnect _ _, .error error => some (tlsHandshakeFailed error)
  | .tlsConnect _ _, .ok negotiated => refusal (checkAlpn names negotiated proto relaxed)
  | .handshake, _ => none

/-- What a stream starts with. -/
def preamble (target : ConnectTarget Config) (header : Bytes) : List (NetOp Config) :=
  [.tcpConnect target.tcpAddr, .setNodelay] ++ if target.proxy.isSome then [.writeAll header, .flush] else []

variable {names : NameCrates} {proto : AppProto} {target : ConnectTarget Config} {header : Bytes} {config : Config}

theorem connectTcp_eq (names : NameCrates) (proto : AppProto) (relaxed : Bool)
    (hheader : target.proxyBytes .stream = .ok header) :
    connectTcp target = script (netError? names proto relaxed) (preamble target header) (.ok ()) := by
  unfold connectTcp preamble
  unfold ConnectTarget.proxyBytes at hheader
  refine congrArg (Prog.ask _) (funext fun (answer : Except String Unit) => ?_)
  cases answer with
  | error => rfl
  | ok =>
    refine congrArg (Prog.ask _) (funext fun (answer : Except String Unit) => ?_)
    cases answer with
    | error => rfl
    | ok =>
      cases hproxy : target.proxy with
      | none => rfl
      | some proxy =>
        rw [hproxy] at hheader
        simp only [hheader]
        refine congrArg (Prog.ask _) (funext fun (answer : Except String Unit) => ?_)
        cases answer with
        | error => rfl
        | ok =>
          refine congrArg (Prog.ask _) (funext fun (answer : Except String Unit) => ?_)
          cases answer <;> rfl

theorem connectUdp_eq (names : NameCrates) (proto : AppProto) (relaxed : Bool) (target : ConnectTarget Config) :
    connectUdp target = script (netError? names proto relaxed)
      [.udpBind (bindAddr target.tcpAddr), .udpConnect target.tcpAddr] (.ok ()) := by
  unfold connectUdp
  refine congrArg (Prog.ask _) (funext fun (answer : Except String Unit) => ?_)
  cases answer with
  | error => rfl
  | ok =>
    refine congrArg (Prog.ask _) (funext fun (answer : Except String Unit) => ?_)
    cases answer <;> rfl

/-- TLS starts behind the preamble, and not at all with a name that is refused. -/
theorem connectTls_eq (htls : target.tls = some config) (hproto : target.proto = some proto)
    (hheader : target.proxyBytes .stream = .ok header) : connectTls names target =
      match serverName names target with
      | .ok name => script (netError? names proto target.alpnRelaxed)
          (preamble target header ++ [.tlsConnect config name]) (.ok ())
      | .error error => script (netError? names proto target.alpnRelaxed) (preamble target header) (.error error) := by
  simp only [connectTls, htls, hproto]
  rw [connectTcp_eq names proto target.alpnRelaxed hheader]
  cases serverName names target with
  | error error => exact Prog.script_result.symm
  | ok name =>
    refine Eq.trans ?_ (Prog.script_append (a := ())).symm
    refine congrArg (script _ _ _ >>= ·) (funext fun _ => ?_)
    refine congrArg (Prog.ask _) (funext fun (answer : Except String (Option Bytes)) => ?_)
    cases answer with
    | error => rfl
    | ok negotiated =>
      show (liftExcept (checkAlpn names negotiated proto target.alpnRelaxed) : Connecting Config WireSurgeError Unit) =
        (refusal (checkAlpn names negotiated proto target.alpnRelaxed)).elim (Prog.done (.ok ())) fun e =>
          Prog.done (.error e)
      cases checkAlpn names negotiated proto target.alpnRelaxed <;> rfl

end WireSurge.Net
