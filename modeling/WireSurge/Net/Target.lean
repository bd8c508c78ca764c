import WireSurge.Net.Proxy

/-!
# Connect targets

What a connection is made with. A target with a PROXY header has it written in front
of what the connection carries: once on a stream, before every datagram on UDP
(`proxyBytes`). Whoever reads the header there is left with what is carried
(`readHeader_proxyBytes`).
-/

namespace WireSurge.Net

open WireSurge.Core (WireSurgeError)
open Dns (Bytes)
open Str (Text)

/-- `AppProto`: what is spoken inside TLS. -/
inductive AppProto
  | dot
  | doh
  deriving DecidableEq, Repr

/-- `TlsParams`: what a TLS configuration is made for. -/
structure TlsParams where
  proto : AppProto
  insecure : Bool
  deriving DecidableEq, Repr

/-- `HttpMethod`: how a DoH query is carried. -/
inductive HttpMethod
  | get
  | post
  deriving DecidableEq, Repr

/-- `as_str`. -/
def HttpMethod.asStr : HttpMethod → String
  | get => "GET"
  | post => "POST"

/-- `HttpTemplate`: the address of a DoH request without the query's own parameter. -/
structure HttpTemplate where
  method : HttpMethod
  baseUri : Text
  query : Text
  deriving DecidableEq, Repr

/-- `Config` is the configuration of the TLS library. -/
structure ConnectTarget (Config : Type) where
  tcpAddr : SocketAddr
  sni : Option String
  proto : Option AppProto
  tls : Option Config
  alpnRelaxed : Bool
  http : Option HttpTemplate
  proxy : Option ProxyHeader
  deriving DecidableEq

namespace ConnectTarget

variable {Config : Type}

/-- A target without TLS, HTTP or PROXY header. -/
def new (tcpAddr : SocketAddr) : ConnectTarget Config where
  tcpAddr
  sni := none
  proto := none
  tls := none
  alpnRelaxed := false
  http := none
  proxy := none

/-- `with_tls`: the configuration, with the protocol and the name it is for. -/
def withTls (self : ConnectTarget Config) (config : Config) (proto : AppProto) (sni : Option String)
    (alpnRelaxed : Bool) : ConnectTarget Config :=
  { self with tls := some config, proto := some proto, sni, alpnRelaxed }

/-- `with_http`. -/
def withHttp (self : ConnectTarget Config) (template : HttpTemplate) : ConnectTarget Config :=
  { self with http := some template }

/-- `with_proxy`. -/
def withProxy (self : ConnectTarget Config) (proxy : ProxyHeader) : ConnectTarget Config :=
  { self with proxy := some proxy }

/-- What goes in front of the carried bytes: `connect_tcp` writes it before anything
else, and `udp_proxy_prefix` is what stands before each datagram. -/
def proxyBytes (self : ConnectTarget Config) (transport : ProxyTransport) : Except WireSurgeError Bytes :=
  match self.proxy with
  | some proxy => proxy.encode transport
  | none => .ok []

theorem readHeader_proxyBytes {target : ConnectTarget Config} {proxy : ProxyHeader} (hproxy : target.proxy = some proxy)
    (hsame : proxy.SameFamily) (transport : ProxyTransport) : ∃ bytes, target.proxyBytes transport = .ok bytes ∧
      ∀ carried, readHeader (bytes ++ carried) = some (transport, proxy.src.endpoint, proxy.dst.endpoint, carried) := by
  rw [proxyBytes, hproxy]
  exact readHeader_encode hsame transport

end ConnectTarget

end WireSurge.Net
