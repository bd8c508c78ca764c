import WireSurge.Core.Request
import WireSurge.Dns.Correlator

/-!
# PROXY protocol headers

`ProxyHeader::encode` writes the header of version 2 in front of what a connection
carries. `readHeader` is the other end: it follows the layout of the protocol and
takes the declared length at its word, so that a wrong one would eat of the payload,
or leave of the header. It reads every encoding back (`readHeader_encode`), and only
a pair of two families has none (`encode_eq_error_iff`).
-/

namespace WireSurge.Net

open WireSurge.Core (WireSurgeError)
open Dns (Bytes u16FromBeBytes u16FromBeBytes_split)

/-! ## Addresses -/

/-- `std::net::IpAddr`, in network order. -/
inductive IpAddr
  | v4 (octets : Vector UInt8 4)
  | v6 (octets : Vector UInt8 16)
  deriving DecidableEq, Repr

/-- `to_canonical`: an IPv4-mapped address as the IPv4 address. -/
def IpAddr.toCanonical : IpAddr → IpAddr
  | .v4 octets => .v4 octets
  | .v6 octets =>
    if octets.toList.take 12 = [0, 0, 0, 0, 0, 0, 0, 0, 0, 0, 0xff, 0xff] then
      .v4 #v[octets[12], octets[13], octets[14], octets[15]]
    else .v6 octets

/-- `std::net::SocketAddr`. -/
inductive SocketAddr
  | v4 (octets : Vector UInt8 4) (port : UInt16)
  | v6 (octets : Vector UInt8 16) (port : UInt16) (flowinfo scopeId : UInt32)
  deriving DecidableEq, Repr

namespace SocketAddr

/-- `SocketAddr::new`. -/
def new : IpAddr → UInt16 → SocketAddr
  | .v4 octets, port => v4 octets port
  | .v6 octets, port => v6 octets port 0 0

/-- The address without the port. -/
def ip : SocketAddr → IpAddr
  | v4 octets _ => .v4 octets
  | v6 octets _ _ _ => .v6 octets

/-- The port of the address. -/
def port : SocketAddr → UInt16
  | v4 _ port => port
  | v6 _ port _ _ => port

/-- `is_ipv4`. -/
def isIpv4 : SocketAddr → Bool
  | v4 _ _ => true
  | v6 _ _ _ _ => false

@[simp] theorem ip_new (ip : IpAddr) (port : UInt16) : (new ip port).ip = ip := by cases ip <;> rfl

@[simp] theorem port_new (ip : IpAddr) (port : UInt16) : (new ip port).port = port := by cases ip <;> rfl

end SocketAddr

/-! ## The header -/

/-- `to_be_bytes`. -/
def toBeBytes (n : UInt16) : Bytes := [(n >>> 8).toUInt8, (n &&& 0xff).toUInt8]

/-- `SIGNATURE`. -/
def signature : Bytes := [0x0D, 0x0A, 0x0D, 0x0A, 0x00, 0x0D, 0x0A, 0x51, 0x55, 0x49, 0x54, 0x0A]

/-- `VER_CMD`: version 2, and the command PROXY. -/
def verCmd : UInt8 := 0x21

/-- `AF_INET`. -/
def afInet : UInt8 := 0x10

/-- `AF_INET6`. -/
def afInet6 : UInt8 := 0x20

/-- `ProxyTransport`. -/
inductive ProxyTransport
  | stream
  | dgram
  deriving DecidableEq, Repr

/-- `proto_nibble`. -/
def ProxyTransport.protoNibble : ProxyTransport → UInt8
  | stream => 0x01
  | dgram => 0x02

/-- `ProxyHeader`: the addresses of the client and of the server. -/
structure ProxyHeader where
  src : SocketAddr
  dst : SocketAddr
  deriving DecidableEq, Repr

/-- `encode`: a header of version 2, of addresses of one family. -/
def ProxyHeader.encode (self : ProxyHeader) (transport : ProxyTransport) : Except WireSurgeError Bytes := do
  let proto := transport.protoNibble
  let out := signature ++ [verCmd]
  let out ← match self.src, self.dst with
    | .v4 src _, .v4 dst _ => .ok (out ++ [afInet ||| proto] ++ toBeBytes 12 ++ src.toList ++ dst.toList)
    | .v6 src _ _ _, .v6 dst _ _ _ => .ok (out ++ [afInet6 ||| proto] ++ toBeBytes 36 ++ src.toList ++ dst.toList)
    | _, _ => .error ((WireSurgeError.new "proxy_family_mismatch"
        "PROXY protocol source and destination must be the same IP family").atPath "proxy")
  return out ++ toBeBytes self.src.port ++ toBeBytes self.dst.port

/-! ## The layout of the protocol -/

/-- The next `n` items, and what is behind them. -/
def take? {α : Type} (n : Nat) (xs : List α) : Option (Vector α n × List α) :=
  if h : n ≤ xs.length then some (⟨(xs.take n).toArray, by simp [h]⟩, xs.drop n) else none

/-- A port, in network order. -/
def readPort : Bytes → Option (UInt16 × Bytes)
  | hi :: lo :: rest => some (u16FromBeBytes hi lo, rest)
  | _ => none

/-- An address block: source and destination, then their ports. What is behind
them in the block are extensions. -/
def readBlock (n : Nat) (block : Bytes) : Option (Vector UInt8 n × UInt16 × Vector UInt8 n × UInt16) := do
  let (src, block) ← take? n block
  let (dst, block) ← take? n block
  let (srcPort, block) ← readPort block
  let (dstPort, _) ← readPort block
  return (src, srcPort, dst, dstPort)

/-- The source and the destination, of the family in the upper nibble. -/
def readAddresses (family : UInt8) (block : Bytes) : Option (SocketAddr × SocketAddr) :=
  if family >>> 4 = 1 then
    (readBlock 4 block).map fun (src, srcPort, dst, dstPort) => (.v4 src srcPort, .v4 dst dstPort)
  else if family >>> 4 = 2 then
    (readBlock 16 block).map fun (src, srcPort, dst, dstPort) => (.v6 src srcPort 0 0, .v6 dst dstPort 0 0)
  else none

/-- The carried transport, in the lower nibble. -/
def readTransport (family : UInt8) : Option ProxyTransport :=
  if family &&& 0x0F = 1 then some .stream else if family &&& 0x0F = 2 then some .dgram else none

/-- What is behind the signature: version 2 with the command PROXY, the family and
the transport, and the payload behind as many bytes as are declared. -/
def readBody (version family : UInt8) (len : Nat) (rest : Bytes) :
    Option (ProxyTransport × SocketAddr × SocketAddr × Bytes) := do
  guard (version >>> 4 = 2 ∧ version &&& 0x0F = 1)
  let transport ← readTransport family
  let (block, payload) ← take? len rest
  let (src, dst) ← readAddresses family block.toList
  return (transport, src, dst, payload)

/-- The carried transport, the source, the destination and the payload. -/
def readHeader (input : Bytes) : Option (ProxyTransport × SocketAddr × SocketAddr × Bytes) :=
  match take? 12 input with
  | some (sig, version :: family :: hi :: lo :: rest) =>
    if sig.toList = signature then readBody version family (u16FromBeBytes hi lo).toNat rest else none
  | _ => none

variable {n : Nat}

theorem take?_append {α : Type} (v : Vector α n) (rest : List α) : take? n (v.toList ++ rest) = some (v, rest) := by
  have hle : n ≤ (v.toList ++ rest).length := by simp
  rw [take?, dif_pos hle]
  congr 2
  · apply Vector.toList_inj.mp
    simp
  · simp

theorem readPort_append (port : UInt16) (rest : Bytes) : readPort (toBeBytes port ++ rest) = some (port, rest) := by
  show some (u16FromBeBytes _ _, rest) = _
  rw [u16FromBeBytes_split]

theorem readBlock_append (src dst : Vector UInt8 n) (srcPort dstPort : UInt16) :
    readBlock n (src.toList ++ dst.toList ++ toBeBytes srcPort ++ toBeBytes dstPort) =
      some (src, srcPort, dst, dstPort) := by
  have hlast := readPort_append dstPort []
  rw [List.append_nil] at hlast
  simp only [readBlock, List.append_assoc, take?_append, readPort_append, hlast, bind, Option.bind, pure]

theorem readBody_append {family : UInt8} {transport : ProxyTransport} {block : Vector UInt8 n} {src dst : SocketAddr}
    (htransport : readTransport family = some transport) (haddr : readAddresses family block.toList = some (src, dst))
    (payload : Bytes) : readBody verCmd family n (block.toList ++ payload) = some (transport, src, dst, payload) := by
  have hversion : verCmd >>> 4 = 2 ∧ verCmd &&& 0x0F = 1 := by decide
  rw [readBody, guard, if_pos hversion, htransport]
  simp only [bind, Option.bind, pure, take?_append, haddr]

/-- The signature in front, and the length of the block. -/
theorem readHeader_append {family : UInt8} {transport : ProxyTransport} {len : UInt16} {block : Bytes}
    {src dst : SocketAddr} (htransport : readTransport family = some transport) (hlen : block.length = len.toNat)
    (haddr : readAddresses family block = some (src, dst)) (payload : Bytes) :
    readHeader (signature ++ [verCmd] ++ [family] ++ toBeBytes len ++ block ++ payload) =
      some (transport, src, dst, payload) := by
  have hsig := take?_append (⟨signature.toArray, rfl⟩ : Vector UInt8 12)
    (verCmd :: family :: (len >>> 8).toUInt8 :: (len &&& 0xff).toUInt8 :: (block ++ payload))
  simp only [List.append_assoc, toBeBytes, List.cons_append, List.nil_append]
  rw [readHeader, show signature = (⟨signature.toArray, rfl⟩ : Vector UInt8 12).toList from rfl, hsig]
  simp only [if_true, u16FromBeBytes_split]
  have hblock : readAddresses family (⟨block.toArray, hlen⟩ : Vector UInt8 len.toNat).toList = some (src, dst) := haddr
  exact readBody_append htransport hblock payload

/-- An address block of one family. -/
theorem readHeader_block {family : UInt8} {transport : ProxyTransport} (len : UInt16)
    (addr : Vector UInt8 n → UInt16 → SocketAddr) (htransport : readTransport family = some transport)
    (hlen : n + (n + 4) = len.toNat)
    (haddr : ∀ block, readAddresses family block =
      (readBlock n block).map fun (src, srcPort, dst, dstPort) => (addr src srcPort, addr dst dstPort))
    (src dst : Vector UInt8 n) (srcPort dstPort : UInt16) (payload : Bytes) :
    readHeader (signature ++ [verCmd] ++ [family] ++ toBeBytes len ++ src.toList ++ dst.toList ++
        toBeBytes srcPort ++ toBeBytes dstPort ++ payload) =
      some (transport, addr src srcPort, addr dst dstPort, payload) := by
  have hblock : readAddresses family (src.toList ++ dst.toList ++ toBeBytes srcPort ++ toBeBytes dstPort) =
      some (addr src srcPort, addr dst dstPort) := by
    rw [haddr, readBlock_append]
    rfl
  have hread := readHeader_append htransport (by simpa [toBeBytes] using hlen) hblock payload
  simp only [List.append_assoc] at hread ⊢
  exact hread

theorem readTransport_nibble (transport : ProxyTransport) :
    readTransport (afInet ||| transport.protoNibble) = some transport ∧
      readTransport (afInet6 ||| transport.protoNibble) = some transport := by
  cases transport <;> decide

theorem family_nibble (transport : ProxyTransport) :
    (afInet ||| transport.protoNibble) >>> 4 = 1 ∧ (afInet6 ||| transport.protoNibble) >>> 4 = 2 := by
  cases transport <;> decide

/-- The two ends of a header are of one family. -/
def ProxyHeader.SameFamily (header : ProxyHeader) : Prop := header.src.isIpv4 = header.dst.isIpv4

/-- What is read of an end: the address and the port. -/
def SocketAddr.endpoint (addr : SocketAddr) : SocketAddr := .new addr.ip addr.port

theorem SocketAddr.endpoint_new (ip : IpAddr) (port : UInt16) : (SocketAddr.new ip port).endpoint = .new ip port := by
  rw [endpoint, ip_new, port_new]

/-- The encoding of a header, read back in front of any payload. -/
theorem readHeader_encode {header : ProxyHeader} (hsame : header.SameFamily) (transport : ProxyTransport) :
    ∃ bytes, header.encode transport = .ok bytes ∧ ∀ payload,
      readHeader (bytes ++ payload) = some (transport, header.src.endpoint, header.dst.endpoint, payload) := by
  obtain ⟨htransport, htransport6⟩ := readTransport_nibble transport
  obtain ⟨hfamily, hfamily6⟩ := family_nibble transport
  obtain ⟨src, dst⟩ := header
  rcases src with ⟨src, srcPort⟩ | ⟨src, srcPort, _, _⟩ <;> rcases dst with ⟨dst, dstPort⟩ | ⟨dst, dstPort, _, _⟩
  · have haddr (block : Bytes) : readAddresses (afInet ||| transport.protoNibble) block =
        (readBlock 4 block).map fun (src, srcPort, dst, dstPort) => (.v4 src srcPort, .v4 dst dstPort) :=
      if_pos hfamily
    have hread := readHeader_block 12 .v4 htransport rfl haddr src dst srcPort dstPort
    exact ⟨_, rfl, hread⟩
  · cases hsame
  · cases hsame
  · have haddr (block : Bytes) : readAddresses (afInet6 ||| transport.protoNibble) block =
        (readBlock 16 block).map fun (src, srcPort, dst, dstPort) => (.v6 src srcPort 0 0, .v6 dst dstPort 0 0) :=
      (if_neg (by rw [hfamily6]; decide)).trans (if_pos hfamily6)
    have hread := readHeader_block 36 (.v6 · · 0 0) htransport6 rfl haddr src dst srcPort dstPort
    exact ⟨_, rfl, hread⟩

/-- Only a pair of two families has no encoding. -/
theorem encode_eq_error_iff (header : ProxyHeader) (transport : ProxyTransport) :
    (∃ error, header.encode transport = .error error) ↔ ¬ header.SameFamily := by
  constructor
  · rintro ⟨error, herror⟩ hsame
    obtain ⟨bytes, hbytes, -⟩ := readHeader_encode hsame transport
    cases herror.symm.trans hbytes
  · intro hne
    obtain ⟨src, dst⟩ := header
    rcases src with _ | _ <;> rcases dst with _ | _
    · exact absurd rfl hne
    · exact ⟨_, rfl⟩
    · exact ⟨_, rfl⟩
    · exact absurd rfl hne

end WireSurge.Net
