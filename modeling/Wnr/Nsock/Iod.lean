import Wnr.Foundation.SocketAddr

/-! # Events and I/O descriptors

The kinds and outcomes of asynchronous events, and the descriptors that wrap one
TCP or UDP socket with its bookkeeping. A socket is what the pool can observe of
it: where a stream comes from and its peer, and the remote address that a datagram
socket is associated with.
-/

namespace Wnr.Nsock

open Net

/-- An event id, unique within a pool. -/
abbrev EventId := Nat

/-- The kinds of asynchronous events. -/
inductive EventType where
  | connect
  | read
  | write
  | timer
  | pcapRead
deriving DecidableEq, Repr

/-- The outcome of an asynchronous event. -/
inductive EventStatus where
  | success
  | error
  | timeout
  | cancelled
  | kill
  | eof
deriving DecidableEq, Repr

/-- Loop exit status returned by `run`. -/
inductive LoopStatus where
  /-- No events are left undelivered. -/
  | noEvents
  /-- A timeout value was supplied and elapsed before completion. -/
  | timeout
  /-- A fatal error occurred. -/
  | error
  /-- `loop_quit` was called. -/
  | quit
deriving DecidableEq, Repr

/-- Who opened a stream: the connection attempt of an event, or the caller. -/
inductive Origin where
  | attempt (event : EventId)
  | caller (number : Nat)
deriving DecidableEq, Repr

/-- A connected stream and the answer of its `peer_addr`. -/
structure TcpStream where
  origin : Origin
  peerAddr : Option SocketAddr
deriving DecidableEq

/-- A datagram socket and the remote address it is associated with. -/
structure UdpSocket where
  broadcast : Bool
  association : Option SocketAddr
deriving DecidableEq

/-- `UdpSocket::connect`: an association that fails leaves the former one. -/
def UdpSocket.connect (self : UdpSocket) (addr : SocketAddr) (succeeds : Bool) : UdpSocket :=
  if succeeds then { self with association := some addr } else self

/-- What kind of socket a given IOD wraps. -/
inductive IodKind where
  | tcp
  | udp
deriving DecidableEq, Repr

/-- An I/O descriptor. -/
structure Iod where
  id : Nat
  /-- The underlying TCP stream (none until connected). -/
  tcp : Option TcpStream
  /-- The underlying UDP socket, if any. -/
  udp : Option UdpSocket
  kind : IodKind
  /-- Connected / peer address (communication info). -/
  peer : Option SocketAddr
  /-- Bytes read through this IOD. -/
  readCount : Nat
  /-- Bytes written through this IOD. -/
  writeCount : Nat
  /-- Whether this IOD has its socket connected. -/
  connected : Bool
deriving DecidableEq

namespace Iod

/-- Create a TCP IOD with no socket yet (assigned on connect). -/
def newTcp : Iod :=
  { id := 0
    tcp := none
    udp := none
    kind := .tcp
    peer := none
    readCount := 0
    writeCount := 0
    connected := false }

/-- Create a UDP IOD bound to an ephemeral port, where the bind succeeds. -/
def newUdp (broadcast binds : Bool) : Option Iod :=
  if binds then
    some
      { id := 0
        tcp := none
        udp := some ⟨broadcast, none⟩
        kind := .udp
        peer := none
        readCount := 0
        writeCount := 0
        connected := false }
  else none

/-- Build an IOD wrapping an already-connected TCP stream. -/
def fromTcpStream (stream : TcpStream) (id : Nat) : Iod :=
  { id
    tcp := some stream
    udp := none
    kind := .tcp
    peer := stream.peerAddr
    readCount := 0
    writeCount := 0
    connected := stream.peerAddr.isSome }

/-- Build a UDP IOD wrapping an existing socket. -/
def fromUdpSocket (sock : UdpSocket) (id : Nat) : Iod :=
  { id
    tcp := none
    udp := some sock
    kind := .udp
    peer := none
    readCount := 0
    writeCount := 0
    connected := false }

/-- What a finished connect does to the descriptor. -/
def install (self : Iod) (stream : TcpStream) : Iod :=
  { self with
    tcp := some stream
    kind := .tcp
    peer := stream.peerAddr
    connected := true }

/-- What `connect_udp` does to the descriptor. -/
def associate (self : Iod) (addr : SocketAddr) (succeeds : Bool) : Iod :=
  { self with
    udp := self.udp.map (·.connect addr succeeds)
    peer := some addr
    connected := true
    kind := .udp }

/-- The remote address of the descriptor's datagram socket. -/
def association (self : Iod) : Option SocketAddr := self.udp.bind (·.association)

end Iod

end Wnr.Nsock
