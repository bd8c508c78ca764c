import WireSurge.Dns.Framed

/-!
# Transports

What the load engine sees of a connection (`Transport`), and the four of them:
Do53 over UDP, the framed TCP and DoT, and DoH. `start` is the first poll of an
exchange, `resume` what a later poll of it finds, `react` what the tasks behind
the connection and the peer do. Only DoH says that it is closed (`isClosed`);
the others keep the default.
-/

namespace WireSurge.Dns

open Function (update)
open Checked (Checked)

/-- A kind of connection. -/
structure Transport where
  Conn : Type
  Resume : Type
  Event : Type
  /-- `caps().max_in_flight`. -/
  maxInFlight : Nat
  connect : Conn
  isClosed : Conn → Bool
  /-- The connection will answer no query any more. -/
  unusable : Conn → Bool
  start : Instant → Duration → Conn → Token → Bytes → Option Conn
  resume : Instant → Conn → Token → Resume → Option Conn
  react : Instant → Conn → Event → Option Conn
  /-- What the exchange has returned. -/
  result : Conn → Token → Option Outcome

/-- What a connection is made with: the header decoder, the PROXY prefix of its
datagrams, and the DoH request template with the URI parser behind it. -/
structure Target where
  decode : HeaderDecoder
  proxyPrefix : Bytes
  assemble : Bytes → Except String Unit

/-- `Connection::is_closed`, unless a transport has its own. -/
def defaultIsClosed : Bool := false

/-- What a waiter does when it is polled. -/
inductive Waiter
  | poll
  | wake
  | expire
  | check

/-- The waiter of the query `q` as a step of the session. -/
def Waiter.act (q : Token) : Waiter → Session.Act
  | .poll => .poll q
  | .wake => .wake q
  | .expire => .expire q
  | .check => .check q

/-- What the reader task does, and the notifications it has in hand. -/
inductive Reader
  | complete (buf : Bytes)
  | close
  | notifyOne (k : Nat)

/-- The reader as a step of the session. -/
def Reader.act : Reader → Session.Act
  | .complete buf => .complete buf
  | .close => .close
  | .notifyOne k => .notifyOne k

/-! ## Do53 over UDP -/

/-- `UDP_IN_FLIGHT`. -/
def udpInFlight : Nat := 1024

/-- `UdpConn`: the session on its socket, and the calls of `exchange` on it. -/
structure UdpConn where
  session : Session
  calls : Token → Option Call

/-- What a poll of an exchange finds: its datagram is sent, or the send has failed, or
its waiter goes on. -/
inductive UdpResume
  | sent
  | sendFailed (message : String)
  | waiter (w : Waiter)

namespace UdpConn

/-- A socket with no exchange. -/
def connect : UdpConn where
  session := .new
  calls _ := none

/-- The call of the query `q` becomes `call`. -/
def setCall (c : UdpConn) (q : Token) (call : Call) : UdpConn :=
  { c with calls := update c.calls q (some call) }

/-- `exchange` up to `socket.send`, whose datagram carries the PROXY prefix. -/
def start (target : Target) (now : Instant) (timeout : Duration) (c : UdpConn) (q : Token) (wire : Bytes) :
    Option UdpConn :=
  match c.calls q with
  | some _ => none
  | none =>
    if wire.length < 2 then
      some (c.setCall q ⟨now, timeout, .failed (.protocol "query shorter than header")⟩)
    else
      (c.session.register q wire).map fun session =>
        { c with session }.setCall q ⟨now, timeout, .sending (target.proxyPrefix ++ (session.queries q).wire)⟩

/-- The send is awaited before the timer is armed; a send that fails cancels the query's
slot. -/
def resume (target : Target) (now : Instant) (c : UdpConn) (q : Token) (r : UdpResume) : Option UdpConn :=
  match c.calls q, r with
  | some ⟨begun, timeout, .sending _⟩, .sent =>
    (c.session.awaitResponse now q timeout).map fun session =>
      { c with session }.setCall q ⟨begun, timeout, .awaiting⟩
  | some ⟨begun, timeout, .sending _⟩, .sendFailed message =>
    (c.session.cancel q).map fun session =>
      { c with session }.setCall q ⟨begun, timeout, .failed (.io message)⟩
  | some ⟨_, _, .awaiting⟩, .waiter w =>
    (c.session.step target.decode now (w.act q)).map fun session => { c with session }
  | _, _ => none

/-- The reader acts on the session alone. -/
def react (target : Target) (now : Instant) (c : UdpConn) (e : Reader) : Option UdpConn :=
  (c.session.step target.decode now e.act).map fun session => { c with session }

/-- What `exchange` has returned for the query `q`, if it has. -/
def result (c : UdpConn) (q : Token) : Option Outcome :=
  (c.calls q).bind fun call => call.result (c.session.queries q).phase

end UdpConn

/-- Do53 over UDP as the engine sees it. -/
def udpTransport (target : Target) : Transport where
  Conn := UdpConn
  Resume := UdpResume
  Event := Reader
  maxInFlight := udpInFlight
  connect := .connect
  isClosed _ := defaultIsClosed
  unusable c := c.session.corr.closed
  start := UdpConn.start target
  resume := UdpConn.resume target
  react := UdpConn.react target
  result := UdpConn.result

/-! ## TCP and DoT -/

/-- What a poll of an exchange finds. -/
inductive FramedResume
  /-- A place in the channel, or the channel is closed. -/
  | send
  | waiter (w : Waiter)

/-- What the reader and the writer do: the writer takes a frame, writes it, flushes or
shuts down. -/
inductive FramedEvent
  | reader (e : Reader)
  | recv
  | wrote (ok : Bool)
  | flushed (ok : Bool)
  | shutdown

/-- The event as a step of the connection. -/
def FramedEvent.act : FramedEvent → Framed.Act
  | .reader e => .session e.act
  | .recv => .recv
  | .wrote ok => .wrote ok
  | .flushed ok => .flushed ok
  | .shutdown => .shutdown

/-- DNS over a stream as the engine sees it; TCP and DoT differ in how many queries they
have in flight. -/
def framedTransport (target : Target) (maxInFlight : Nat) : Transport where
  Conn := Framed
  Resume := FramedResume
  Event := FramedEvent
  maxInFlight
  connect := .spawn maxInFlight
  isClosed _ := defaultIsClosed
  unusable c := c.session.corr.closed
  start now timeout c q wire := c.exchange now q wire timeout
  resume now c q r :=
    match r with
    | .send => c.resume now q
    | .waiter w => c.step target.decode now (.session (w.act q))
  react now c e := c.step target.decode now e.act
  result := Framed.result

/-! ## DoH -/

/-- `DOH_IN_FLIGHT`. -/
def dohInFlight : Nat := 256

/-- How a request of the HTTP/2 driver fails. -/
inductive H2Error
  | closed
  | io (message : String)
  | tooLarge
  | request (message : String)
  deriving DecidableEq, Repr

/-- `map_h2`. -/
def mapH2 : H2Error → TransportError
  | .closed => .connectionClosed
  | .tooLarge => .protocol "DoH response body too large"
  | .request message => .protocol message
  | .io message => .io message

/-- An exchange whose request is with the HTTP/2 driver, and the status and body of
the response the driver has for it. -/
structure DohCall where
  wire : Bytes
  deadline : Instant
  response : Option (Nat × Bytes)
  result : Option Outcome

/-- `DohConn`: the requests that are with the driver. -/
structure DohConn where
  /-- `SendRequest::is_closed`: a GOAWAY was received, or the driver is gone. -/
  closed : Bool
  calls : Token → Option DohCall

/-- What a poll of an exchange finds: a response, a failed request, or the end of its
timeout. -/
inductive DohResume
  | answered
  | failed (error : H2Error)
  | timedOut

/-- What the driver hears of the peer. -/
inductive DohEvent
  | closed
  | responds (q : Token) (status : Nat) (body : Bytes)

/-- What `exchange` makes of an HTTP response. -/
def dohOutcome (decode : HeaderDecoder) (wire : Bytes) (status : Nat) (body : Bytes) : Checked Outcome :=
  if ¬ (200 ≤ status ∧ status < 300) then
    return .error (.protocol ("DoH responder returned HTTP " ++ toString status))
  else do
    let hi ← Checked.index wire 0
    let lo ← Checked.index wire 1
    match ← parseResponseHeader decode body none with
    | .error error => return .error (.protocol error.message)
    | .ok header =>
      if ← responseQuestionMatches body wire then
        return .ok { correlation := u16FromBeBytes hi lo, rcode := header.rcode, truncated := header.truncated,
                     bytesIn := body.length }
      else return .error (.protocol "response question does not match the query")

namespace DohConn

/-- A connection with no request. -/
def connect : DohConn where
  closed := false
  calls _ := none

/-- The call of the query `q` becomes `call`. -/
def setCall (c : DohConn) (q : Token) (call : DohCall) : DohConn :=
  { c with calls := update c.calls q (some call) }

/-- `exchange` up to its request: the timeout counts from here, unlike over UDP. -/
def start (target : Target) (now : Instant) (timeout : Duration) (c : DohConn) (q : Token) (wire : Bytes) :
    Option DohConn :=
  match c.calls q with
  | some _ => none
  | none =>
    if wire.length < 2 then
      some (c.setCall q ⟨wire, now, none, some (.error (.protocol "query shorter than header"))⟩)
    else
      match target.assemble wire with
      | .error message => some (c.setCall q ⟨wire, now, none, some (.error (.protocol message))⟩)
      | .ok () => some (c.setCall q ⟨wire, now + timeout, none, none⟩)

/-- A poll of the exchange: a response that is there goes before the timeout. -/
def resume (target : Target) (now : Instant) (c : DohConn) (q : Token) (r : DohResume) : Option DohConn :=
  match c.calls q, r with
  | some ⟨wire, deadline, some (status, body), none⟩, .answered =>
    match dohOutcome target.decode wire status body with
    | .ok outcome => some (c.setCall q ⟨wire, deadline, some (status, body), some outcome⟩)
    | .error _ => none
  | some ⟨wire, deadline, none, none⟩, .failed error =>
    some (c.setCall q ⟨wire, deadline, none, some (.error (mapH2 error))⟩)
  | some ⟨wire, deadline, none, none⟩, .timedOut =>
    if deadline ≤ now then some (c.setCall q ⟨wire, deadline, none, some (.error .timeout)⟩) else none
  | _, _ => none

/-- What the driver hears; a response to a request that has ended is not kept. -/
def react (c : DohConn) : DohEvent → Option DohConn
  | .closed => some { c with closed := true }
  | .responds q status body =>
    match c.calls q with
    | some ⟨wire, deadline, none, none⟩ => some (c.setCall q ⟨wire, deadline, some (status, body), none⟩)
    | _ => none

/-- What `exchange` has returned for the query `q`, if it has. -/
def result (c : DohConn) (q : Token) : Option Outcome := (c.calls q).bind DohCall.result

end DohConn

/-- DoH as the engine sees it; a connection that the driver has closed is closed. -/
def dohTransport (target : Target) : Transport where
  Conn := DohConn
  Resume := DohResume
  Event := DohEvent
  maxInFlight := dohInFlight
  connect := .connect
  isClosed c := c.closed
  unusable c := c.closed
  start := DohConn.start target
  resume := DohConn.resume target
  react _ := DohConn.react
  result := DohConn.result

/-! ## The choice -/

/-- `LoadProto`: how the queries of a load run travel. -/
inductive LoadProto
  | do53Udp
  | do53Tcp
  | dot
  | doh
  deriving DecidableEq, Repr

/-- The transport of a protocol. -/
def LoadProto.transport (target : Target) : LoadProto → Transport
  | .do53Udp => udpTransport target
  | .do53Tcp => framedTransport target tcpInFlight
  | .dot => framedTransport target dotInFlight
  | .doh => dohTransport target

/-- A fresh connection is open. -/
theorem isClosed_connect (target : Target) (proto : LoadProto) :
    (proto.transport target).isClosed (proto.transport target).connect = false := by
  cases proto <;> rfl

/-- Every transport carries more than one query. -/
theorem two_le_maxInFlight (target : Target) (proto : LoadProto) : 2 ≤ (proto.transport target).maxInFlight := by
  cases proto with
  | do53Udp => exact (by decide : 2 ≤ udpInFlight)
  | do53Tcp | dot => exact (by decide : 2 ≤ tcpInFlight)
  | doh => exact (by decide : 2 ≤ dohInFlight)

/-- DoH says so when its connection is unusable. -/
theorem isClosed_eq_unusable (target : Target) {proto : LoadProto} (h : proto = .doh)
    (c : (proto.transport target).Conn) :
    (proto.transport target).isClosed c = (proto.transport target).unusable c := by
  subst h
  rfl

/-- The others do not: the reader closes the correlator of a fresh connection,
and `isClosed` stays false. -/
theorem exists_unusable_open (target : Target) {proto : LoadProto} (h : proto ≠ .doh) (now : Instant) :
    ∃ e c, (proto.transport target).react now (proto.transport target).connect e = some c ∧
      (proto.transport target).unusable c = true ∧ (proto.transport target).isClosed c = false := by
  cases proto with
  | do53Udp => exact ⟨Reader.close, _, rfl, rfl, rfl⟩
  | do53Tcp | dot => exact ⟨FramedEvent.reader .close, _, rfl, rfl, rfl⟩
  | doh => exact absurd rfl h

end WireSurge.Dns
