import Wnr.Foundation.Table
import Wnr.Nsock.Iod

/-! # The event pool and its loop

What the caller does with a pool, and the loop that drives its events. The outside
world enters as arguments: clock readings, results of socket calls, results of the
threads that connect, and the orders in which the hash maps are iterated over.
Handlers cannot reach the pool; a call of one is an entry of the pool's log. The log
and the tags that name the connection attempt behind a result are for the observer
only: no operation reads them.
-/

namespace Wnr.Nsock

open Net

/-! ## The data of a pool -/

/-- A reading of the monotonic clock, in nanoseconds. -/
abbrev Instant := Nat

/-- `Duration::from_millis`. -/
def millis (count : Nat) : Nat := count * 1000000

/-- `Duration::from_secs`. -/
def secs (count : Nat) : Nat := count * 1000000000

/-- The closure held for an event: the one its caller passed in, or the empty one
that is left in its place. -/
inductive Handler where
  | caller (event : EventId)
  | noop
deriving DecidableEq, Repr

/-- A pending asynchronous operation. -/
structure Pending where
  id : EventId
  iod : Option Nat
  kind : EventType
  handler : Handler
  deadline : Option Instant
  /-- Bytes accumulated for reads. -/
  buf : List UInt8
  /-- Remaining bytes to send for writes. -/
  wbuf : Option (List UInt8)
  /-- Requested quantity for readbytes. -/
  target : Nat
  /-- When true, a read completes as soon as a newline appears (readlines). -/
  lineRead : Bool
  cancelled : Bool
  done : Bool
deriving DecidableEq

/-- A helper thread that is connecting for an event. -/
structure Attempt where
  event : EventId
  iod : Nat
  addr : SocketAddr
deriving DecidableEq

/-- What a helper thread sends when it ends: the peer of the stream it opened, or
that it opened none. The pool sees the descriptor's id and the stream only. -/
structure ConnectResult where
  attempt : EventId
  iod : Nat
  outcome : Except Unit (Option SocketAddr)
deriving DecidableEq

/-- The stream that an attempt opened. -/
def ConnectResult.stream (self : ConnectResult) : Option TcpStream :=
  match self.outcome with
  | .ok peerAddr => some ⟨.attempt self.attempt, peerAddr⟩
  | .error _ => none

/-- The status that a result stands for. -/
def ConnectResult.status (self : ConnectResult) : EventStatus :=
  match self.outcome with
  | .ok _ => .success
  | .error _ => .error

inductive Cmd where
  | connectResult (result : ConnectResult)
  | quit
deriving DecidableEq

/-- What became of a result that the loop took from the channel. -/
structure Receipt where
  result : ConnectResult
  /-- The event of the attempt itself was undelivered. -/
  own : Bool
  /-- The event that the result completed. -/
  completed : Option EventId
  /-- The stream that went into the descriptor named by the result. -/
  installed : Option TcpStream
deriving DecidableEq

/-- What an observer of the pool sees. -/
inductive Effect where
  | requested (event : EventId) (kind : EventType) (iod : Option Nat)
      (wbuf : Option (List UInt8))
  | addressed (event : EventId) (addr : SocketAddr)
  | called (owner id : EventId) (status : EventStatus)
  | silenced (event : EventId)
  | result (receipt : Receipt)
  | received (event : EventId) (iod : Nat) (bytes : List UInt8)
  | accepted (event : EventId) (iod : Nat) (bytes : List UInt8)
  | sent (event : EventId) (iod : Nat) (peer : SocketAddr) (data : List UInt8)
deriving DecidableEq

/-- The event pool. -/
structure Pool where
  iodCounter : Nat
  eventCounter : Nat
  iods : Table Iod
  pending : Table Pending
  /-- Read buffers retained after a read event is delivered. -/
  readBufs : Table (List UInt8)
  /-- Commands sent to the loop and not taken yet. -/
  channel : List Cmd
  quit : Bool
  broadcast : Bool
  /-- The helper threads that have not sent their result. -/
  connecting : List Attempt
  log : List Effect

namespace Pool

/-- Create a new event pool. -/
def new : Pool :=
  { iodCounter := 0
    eventCounter := 0
    iods := ∅
    pending := ∅
    readBufs := ∅
    channel := []
    quit := false
    broadcast := false
    connecting := []
    log := [] }

variable (self : Pool)

def note (effect : Effect) : Pool := { self with log := self.log ++ [effect] }

/-- The event is held and not done. -/
def isUndelivered (id : EventId) : Bool :=
  match self.pending.lookup id with
  | some e => !e.done
  | none => false

/-- Call a closure with an event's id and final status. -/
def call (handler : Handler) (id : EventId) (status : EventStatus) : Pool :=
  match handler with
  | .caller owner => self.note (.called owner id status)
  | .noop => self

/-- Replace what is held for an event. -/
def put (id : EventId) (e : Pending) : Pool :=
  { self with pending := self.pending.insert id e }

/-- Drop what is held for an event. -/
def drop (id : EventId) : Pool :=
  { self with pending := self.pending.erase id }

/-! ## I/O descriptors -/

/-- Enable broadcast on UDP sockets created going forward. -/
def setBroadcast (on : Bool) : Pool := { self with broadcast := on }

/-- Hold a descriptor under the next id. -/
def addIod (iod : Iod) : Nat × Pool :=
  let id := self.iodCounter + 1
  (id, { self with iodCounter := id, iods := self.iods.insert id { iod with id } })

/-- Create a TCP IOD (no socket until connected). -/
def createIodTcp : Nat × Pool := self.addIod .newTcp

/-- Create a bound UDP IOD. -/
def createIodUdp (binds : Bool) : Nat × Pool :=
  match Iod.newUdp self.broadcast binds with
  | some iod => self.addIod iod
  -- fallback: an empty half-backed IOD so callers don't panic
  | none => self.addIod { Iod.newTcp with kind := .udp }

/-- Create a TCP IOD wrapping an already-connected stream. -/
def createIodTcpFrom (stream : TcpStream) : Nat × Pool :=
  self.addIod (.fromTcpStream stream (self.iodCounter + 1))

/-- Create a UDP IOD wrapping an existing socket. -/
def createIodUdpFrom (sock : UdpSocket) : Nat × Pool :=
  self.addIod (.fromUdpSocket sock (self.iodCounter + 1))

/-- Associate a UDP IOD with a remote peer; `succeeds` is what the socket's
`connect` does. -/
def connectUdp (iodId : Nat) (addr : SocketAddr) (succeeds : Bool) : Pool :=
  { self with iods := Table.modify self.iods iodId (·.associate addr succeeds) }

/-! ## Requests -/

/-- Hold a new event. -/
def schedule (kind : EventType) (iod : Option Nat) (deadline : Option Instant)
    (wbuf : Option (List UInt8)) (target : Nat) (lineRead : Bool) : EventId × Pool :=
  let id := self.eventCounter + 1
  let e : Pending :=
    { id
      iod
      kind
      handler := .caller id
      deadline
      buf := []
      wbuf
      target
      lineRead
      cancelled := false
      done := false }
  (id, ({ self with eventCounter := id }.put id e).note (.requested id kind iod wbuf))

/-- The deadline of a request: none for a negative timeout. -/
def deadlineIn (now : Instant) (timeoutMs : Int) : Option Instant :=
  if timeoutMs < 0 then none else some (now + millis timeoutMs.toNat)

/-- Request an asynchronous TCP connect. The helper thread is on its way as soon
as the event is held. -/
def connectTcp (iodId : Nat) (addr : SocketAddr) (timeoutMs : Int) (now : Instant) :
    EventId × Pool :=
  let timeout := if timeoutMs < 0 then secs 3600 else millis timeoutMs.toNat
  let (id, pool) := self.schedule .connect (some iodId) (some (now + timeout)) none 0 false
  (id, { pool with connecting := pool.connecting ++ [⟨id, iodId, addr⟩] })

/-- Request an async read; completes on the first received byte. -/
def read (iodId : Nat) (timeoutMs : Int) (now : Instant) : EventId × Pool :=
  self.schedule .read (some iodId) (deadlineIn now timeoutMs) none 1 false

/-- Request an async read of at least `nbytes`. -/
def readBytes (iodId : Nat) (timeoutMs : Int) (nbytes : Nat) (now : Instant) : EventId × Pool :=
  self.schedule .read (some iodId) (deadlineIn now timeoutMs) none (max nbytes 1) false

/-- Request an asynchronous read of one line. -/
def readlines (iodId : Nat) (timeoutMs : Int) (maxline : Nat) (now : Instant) : EventId × Pool :=
  self.schedule .read (some iodId) (deadlineIn now timeoutMs) none (max maxline 1) true

/-- Request an async write. -/
def write (iodId : Nat) (data : List UInt8) (timeoutMs : Int) (now : Instant) : EventId × Pool :=
  self.schedule .write (some iodId) (deadlineIn now timeoutMs) (some data) data.length false

/-- Async write of a formatted string; `formatted` is what its arguments format to. -/
def writeFmt (iodId : Nat) (formatted : String) (timeoutMs : Int) (now : Instant) :
    EventId × Pool :=
  self.write iodId formatted.toUTF8.toList timeoutMs now

/-- Async write of a literal string. -/
def printf (iodId : Nat) (text : String) (timeoutMs : Int) (now : Instant) : EventId × Pool :=
  self.write iodId text.toUTF8.toList timeoutMs now

/-- Send a UDP datagram to `addr`: the IOD is (re)associated with `addr` and a write
event is scheduled. -/
def sendUdp (iodId : Nat) (addr : SocketAddr) (data : List UInt8) (timeoutMs : Int)
    (succeeds : Bool) (now : Instant) : EventId × Pool :=
  let (id, pool) := (self.connectUdp iodId addr succeeds).write iodId data timeoutMs now
  (id, pool.note (.addressed id addr))

/-- Create a timer event. -/
def timerCreate (timeoutMs : Nat) (now : Instant) : EventId × Pool :=
  self.schedule .timer none (some (now + millis timeoutMs)) none 0 false

/-! ## Ending events from outside the loop -/

/-- Cancel an event. Returns true if found. -/
def cancel (id : EventId) (notify : Bool) : Bool × Pool :=
  match self.pending.lookup id with
  | none => (false, self)
  | some e =>
      let ended := { e with cancelled := true, done := true }
      let pool :=
        if notify then
          let pool := self.put id { ended with handler := .noop }
          if e.done then pool else pool.call e.handler id .cancelled
        else
          let pool := self.put id ended
          if e.done then pool else pool.note (.silenced id)
      (true, pool)

/-- What `delete_iod` and `delete` do to one event. -/
def killEvent (id : EventId) : Pool :=
  let pool :=
    match self.pending.lookup id with
    | none => self
    | some e =>
        if !e.done && !e.cancelled then
          (self.put id { e with done := true, handler := .noop }).call e.handler id .kill
        else self
  { pool with readBufs := pool.readBufs.erase id }.drop id

def killEvents : List EventId → Pool → Pool
  | [], pool => pool
  | id :: rest, pool => killEvents rest (pool.killEvent id)

/-- Delete an IOD and kill any of its pending events. Returns whether an IOD with
that id existed. -/
def deleteIod (order : List Nat) (id : Nat) : Bool × Pool :=
  let evIds := (Table.walk order self.pending).filter fun k =>
    ((self.pending.lookup k).bind (·.iod)) = some id
  let pool := killEvents evIds self
  ((pool.iods.lookup id).isSome, { pool with iods := pool.iods.erase id })

def deleteIods : List Nat → List (List Nat) → Pool → Pool
  | [], _, pool => pool
  | id :: rest, orders, pool => deleteIods rest orders.tail (pool.deleteIod (orders.headD []) id).2

/-- Destroy the pool, killing every pending event and clearing all IODs. -/
def delete (iodOrder : List Nat) (orders : List (List Nat)) (order : List Nat) : Pool :=
  let pool := deleteIods (Table.walk iodOrder self.iods) orders self
  { killEvents (Table.walk order pool.pending) pool with quit := true }

/-- Request the loop to stop. -/
def loopQuit : Pool := { self with quit := true, channel := self.channel ++ [.quit] }

/-! ## Looking at a pool -/

/-- The data accumulated by a completed read event. -/
def takeReadBuf (id : EventId) : List UInt8 × Pool :=
  match self.readBufs.lookup id with
  | some b => (b, { self with readBufs := self.readBufs.erase id })
  | none => (((self.pending.lookup id).map (·.buf)).getD [], self)

/-- Whether any events remain undelivered. -/
def hasPending : Bool := self.pending.entries.any fun entry => !entry.2.done

/-- The number of events that remain undelivered. -/
def pendingCount : Nat := self.pending.entries.countP fun entry => !entry.2.done

/-! ## Results of connection attempts -/

/-- A helper thread ends and sends its result. -/
def arrive (attempt : EventId) (outcome : Except Unit (Option SocketAddr)) : Pool :=
  match self.connecting.find? (·.event = attempt) with
  | none => self
  | some thread =>
      { self with
        connecting := self.connecting.erase thread
        channel := self.channel ++ [.connectResult ⟨attempt, thread.iod, outcome⟩] }

/-- The event that a result for a descriptor completes: the first undelivered
connect event of the descriptor that the iteration meets. -/
def connectTarget (order : List Nat) (iodId : Nat) : Option EventId :=
  (Table.walk order self.pending).find? fun k =>
    match self.pending.lookup k with
    | some e => e.kind = .connect && !e.done && e.iod = some iodId
    | none => false

/-- Put the stream of a result into its descriptor. -/
def install (result : ConnectResult) : Pool :=
  match result.stream with
  | some stream => { self with iods := Table.modify self.iods result.iod (·.install stream) }
  | none => self

/-- End a connect event with the status of a result. -/
def finishConnect (evid : EventId) (status : EventStatus) : Pool :=
  match self.pending.lookup evid with
  | none => self
  | some p => if p.cancelled then self.drop evid else (self.drop evid).call p.handler evid status

/-- Handle one command. -/
def receive (order : List Nat) : Cmd → Pool
  | .quit => { self with quit := true }
  | .connectResult result =>
      let own := self.isUndelivered result.attempt
      match self.connectTarget order result.iod with
      | none => self.note (.result ⟨result, own, none, none⟩)
      | some evid =>
          let installed := result.stream.filter fun _ => (self.iods.lookup result.iod).isSome
          ((self.install result).note (.result ⟨result, own, some evid, installed⟩)).finishConnect
            evid result.status

def receiveAll : List (List Nat) → List Cmd → Pool → Pool
  | _, [], pool => pool
  | orders, cmd :: rest, pool =>
      receiveAll orders.tail rest (pool.receive (orders.headD []) cmd)

/-- Handle every command sent so far. -/
def drainCommands (orders : List (List Nat)) : Pool :=
  receiveAll orders self.channel { self with channel := [] }

/-! ## Socket I/O -/

/-- What a nonblocking socket call comes to. -/
inductive SocketResult (α : Type) where
  | ok (value : α)
  | wouldBlock
  | failed

/-- The condition under which a read on a stream is complete. -/
def readComplete (e : Pending) : Bool :=
  if e.lineRead then e.buf.contains 10 || e.target ≤ e.buf.length else e.target ≤ e.buf.length

/-- Attempt the read of an event; `outcome` is what the socket has for it. -/
def tryRead (id : EventId) (outcome : SocketResult (List UInt8)) : Option EventStatus × Pool :=
  match self.pending.lookup id with
  | none => (none, self)
  | some e =>
      match e.iod with
      | none => (none, self)
      | some iodId =>
          match self.iods.lookup iodId with
          | none => (none, self)
          | some iod =>
              match iod.kind with
              | .tcp =>
                  match iod.tcp with
                  | none => (none, self)
                  | some _ =>
                      match outcome with
                      | .ok offered =>
                          let b := offered.take 4096
                          if b = [] then (some .eof, self)
                          else
                            let e := { e with buf := e.buf ++ b }
                            let iods := self.iods.insert iodId
                              { iod with readCount := iod.readCount + b.length }
                            (if readComplete e then some .success else none,
                              ({ self with iods }.put id e).note (.received id iodId b))
                      | .wouldBlock => (none, self)
                      | .failed => (some .error, self)
              | .udp =>
                  match iod.udp with
                  | none => (none, self)
                  | some _ =>
                      match outcome with
                      | .ok datagram =>
                          let b := datagram.take 65535
                          let iods := self.iods.insert iodId
                            { iod with readCount := iod.readCount + b.length }
                          (some .success,
                            ({ self with iods }.put id { e with buf := b }).note
                              (.received id iodId b))
                      | .wouldBlock => (none, self)
                      | .failed => (some .error, self)

/-- Attempt the write of an event; `outcome` is how many bytes the socket takes of
what it is offered. A datagram socket without an association sends nothing. -/
def tryWrite (id : EventId) (outcome : SocketResult Nat) : Option EventStatus × Pool :=
  match self.pending.lookup id with
  | none => (none, self)
  | some e =>
      match e.iod with
      | none => (none, self)
      | some iodId =>
          match self.iods.lookup iodId with
          | none => (none, self)
          | some iod =>
              match e.wbuf with
              | none => (none, self)
              | some data =>
                  match iod.kind with
                  | .tcp =>
                      match iod.tcp with
                      | none => (none, self)
                      | some _ =>
                          match outcome with
                          | .ok count =>
                              let n := min count data.length
                              if n = 0 then (some .eof, self)
                              else
                                let rem := data.drop n
                                let iods := self.iods.insert iodId
                                  { iod with writeCount := iod.writeCount + n }
                                (if rem = [] then some .success else none,
                                  ({ self with iods }.put id
                                    { e with wbuf := if rem = [] then none else some rem }).note
                                      (.accepted id iodId (data.take n)))
                          | .wouldBlock => (none, self)
                          | .failed => (some .error, self)
                  | .udp =>
                      match iod.udp with
                      | none => (none, self)
                      | some sock =>
                          match sock.association, outcome with
                          | none, _ => (some .error, self)
                          | some peer, .ok _ =>
                              let iods := self.iods.insert iodId
                                { iod with writeCount := iod.writeCount + data.length }
                              (some .success,
                                ({ self with iods }.put id { e with wbuf := none }).note
                                  (.sent id iodId peer data))
                          | some _, .wouldBlock => (none, self)
                          | some _, .failed => (some .error, self)

/-! ## The loop -/

/-- What the world does during one pass of the loop. -/
structure Pass where
  /-- The helper threads that end before the pass. -/
  arrivals : List (EventId × Except Unit (Option SocketAddr))
  /-- The iteration order of the search for each command's event. -/
  searches : List (List Nat)
  /-- The clock, read after the commands are handled. -/
  now : Instant
  /-- The iteration order in which the undelivered events are collected. -/
  order : List Nat
  reads : EventId → SocketResult (List UInt8)
  writes : EventId → SocketResult Nat
  /-- The clock, read at the end of the pass. -/
  later : Instant

def arriveAll : List (EventId × Except Unit (Option SocketAddr)) → Pool → Pool
  | [], pool => pool
  | (attempt, outcome) :: rest, pool => arriveAll rest (pool.arrive attempt outcome)

/-- The status of an event whose deadline has come. -/
def dueStatus (now : Instant) (e : Pending) : Option EventStatus :=
  match e.deadline with
  | some d => if d ≤ now then some (if e.kind = .timer then .success else .timeout) else none
  | none => none

/-- The deadline of a held event has come. -/
def due (now : Instant) (id : EventId) : Option (EventId × EventStatus) :=
  ((self.pending.lookup id).bind (dueStatus now)).map fun status => (id, status)

/-- Attempt the I/O of one event. -/
def tryIo (pass : Pass) (id : EventId) : Option EventStatus × Pool :=
  match self.pending.lookup id with
  | none => (none, self)
  | some e =>
      match e.kind with
      | .read => self.tryRead id (pass.reads id)
      | .write => self.tryWrite id (pass.writes id)
      | .connect | .timer | .pcapRead => (none, self)

/-- Attempt the I/O of the events that are not yet to be delivered. -/
def tryAll (pass : Pass) : List EventId → List (EventId × EventStatus) → Pool →
    List (EventId × EventStatus) × Pool
  | [], toDeliver, pool => (toDeliver, pool)
  | id :: rest, toDeliver, pool =>
      if toDeliver.any (·.1 = id) then tryAll pass rest toDeliver pool
      else
        match pool.tryIo pass id with
        | (some status, pool) => tryAll pass rest (toDeliver ++ [(id, status)]) pool
        | (none, pool) => tryAll pass rest toDeliver pool

/-- Deliver one event. -/
def deliver (id : EventId) (status : EventStatus) : Pool :=
  match self.pending.lookup id with
  | none => self.drop id
  | some e =>
      if e.done || e.cancelled then self
      else
        -- retain the accumulated read buffer for `take_read_buf`
        let pool :=
          if e.kind = .read then { self with readBufs := self.readBufs.insert id e.buf } else self
        (pool.drop id).call e.handler id status

def deliverAll : List (EventId × EventStatus) → Pool → Pool
  | [], pool => pool
  | (id, status) :: rest, pool => deliverAll rest (pool.deliver id status)

/-- The events that a pass looks at. -/
def undelivered (order : List Nat) : List EventId :=
  (Table.walk order self.pending).filter self.isUndelivered

/-- One pass of the loop, up to its decision whether to go on. -/
def runPass (pass : Pass) : Pool :=
  let pool := (arriveAll pass.arrivals self).drainCommands pass.searches
  let ids := pool.undelivered pass.order
  let (toDeliver, pool) := tryAll pass ids (ids.filterMap (pool.due pass.now)) pool
  deliverAll toDeliver pool

/-- The passes of the loop; none when it is still going after all of them. -/
def runPasses (start : Instant) (max : Option Nat) : List Pass → Pool → Option LoopStatus × Pool
  | [], pool => (none, pool)
  | pass :: rest, pool =>
      let pool := pool.runPass pass
      if !pool.hasPending then (some .noEvents, pool)
      else if pool.quit then (some .quit, { pool with quit := false })
      else if max.any (· ≤ pass.later - start) then (some .timeout, pool)
      else runPasses start max rest pool

/-- Run the event loop. Returns when there are no undelivered events, `loop_quit` is
called, or the timeout elapses. -/
def run (msecTimeout : Int) (start : Instant) (passes : List Pass) : Option LoopStatus × Pool :=
  let max := if msecTimeout < 0 then none else some (millis msecTimeout.toNat)
  runPasses start max passes { self with quit := false }

end Pool

/-! ## Whole histories -/

/-- What can happen to a pool between two passes of its loop: the operations of its
caller, and the end of a helper thread. -/
inductive Op where
  | setBroadcast (on : Bool)
  | createIodTcp
  | createIodUdp (binds : Bool)
  | createIodTcpFrom (stream : TcpStream)
  | createIodUdpFrom (sock : UdpSocket)
  | connectTcp (iodId : Nat) (addr : SocketAddr) (timeoutMs : Int) (now : Instant)
  | connectUdp (iodId : Nat) (addr : SocketAddr) (succeeds : Bool)
  | read (iodId : Nat) (timeoutMs : Int) (now : Instant)
  | readBytes (iodId : Nat) (timeoutMs : Int) (nbytes : Nat) (now : Instant)
  | readlines (iodId : Nat) (timeoutMs : Int) (maxline : Nat) (now : Instant)
  | write (iodId : Nat) (data : List UInt8) (timeoutMs : Int) (now : Instant)
  | writeFmt (iodId : Nat) (formatted : String) (timeoutMs : Int) (now : Instant)
  | printf (iodId : Nat) (text : String) (timeoutMs : Int) (now : Instant)
  | sendUdp (iodId : Nat) (addr : SocketAddr) (data : List UInt8) (timeoutMs : Int)
      (succeeds : Bool) (now : Instant)
  | timerCreate (timeoutMs : Nat) (now : Instant)
  | cancel (id : EventId) (notify : Bool)
  | deleteIod (order : List Nat) (id : Nat)
  | delete (iodOrder : List Nat) (orders : List (List Nat)) (order : List Nat)
  | loopQuit
  | takeReadBuf (id : EventId)
  | arrive (attempt : EventId) (outcome : Except Unit (Option SocketAddr))
  | run (msecTimeout : Int) (start : Instant) (passes : List Pool.Pass)

/-- What an operation returns. -/
inductive Answer where
  | done
  | id (value : Nat)
  | found (value : Bool)
  | bytes (value : List UInt8)
  | status (value : LoopStatus)
  /-- The loop is still going. -/
  | running
deriving DecidableEq

namespace Pool

/-- Perform one operation. -/
def perform : Op → Pool → Answer × Pool
  | .setBroadcast on, pool => (.done, pool.setBroadcast on)
  | .createIodTcp, pool => pool.createIodTcp.map .id id
  | .createIodUdp binds, pool => (pool.createIodUdp binds).map .id id
  | .createIodTcpFrom stream, pool => (pool.createIodTcpFrom stream).map .id id
  | .createIodUdpFrom sock, pool => (pool.createIodUdpFrom sock).map .id id
  | .connectTcp iodId addr timeoutMs now, pool =>
      (pool.connectTcp iodId addr timeoutMs now).map .id id
  | .connectUdp iodId addr succeeds, pool => (.done, pool.connectUdp iodId addr succeeds)
  | .read iodId timeoutMs now, pool => (pool.read iodId timeoutMs now).map .id id
  | .readBytes iodId timeoutMs nbytes now, pool =>
      (pool.readBytes iodId timeoutMs nbytes now).map .id id
  | .readlines iodId timeoutMs maxline now, pool =>
      (pool.readlines iodId timeoutMs maxline now).map .id id
  | .write iodId data timeoutMs now, pool => (pool.write iodId data timeoutMs now).map .id id
  | .writeFmt iodId formatted timeoutMs now, pool =>
      (pool.writeFmt iodId formatted timeoutMs now).map .id id
  | .printf iodId text timeoutMs now, pool => (pool.printf iodId text timeoutMs now).map .id id
  | .sendUdp iodId addr data timeoutMs succeeds now, pool =>
      (pool.sendUdp iodId addr data timeoutMs succeeds now).map .id id
  | .timerCreate timeoutMs now, pool => (pool.timerCreate timeoutMs now).map .id id
  | .cancel event notify, pool => (pool.cancel event notify).map .found id
  | .deleteIod order iodId, pool => (pool.deleteIod order iodId).map .found id
  | .delete iodOrder orders order, pool => (.done, pool.delete iodOrder orders order)
  | .loopQuit, pool => (.done, pool.loopQuit)
  | .takeReadBuf event, pool => (pool.takeReadBuf event).map .bytes id
  | .arrive attempt outcome, pool => (.done, pool.arrive attempt outcome)
  | .run msecTimeout start passes, pool =>
      (pool.run msecTimeout start passes).map (fun status => status.elim .running .status) id

/-- Perform operations one after the other; a loop that is still going comes last. -/
def execute : List Op → Pool → Pool
  | [], pool => pool
  | op :: rest, pool =>
      match perform op pool with
      | (.running, pool) => pool
      | (_, pool) => execute rest pool

/-- A pass in which nothing arrives and no socket is ready. -/
def idlePass : Pass :=
  { arrivals := []
    searches := []
    now := 0
    order := []
    reads := fun _ => .wouldBlock
    writes := fun _ => .wouldBlock
    later := 0 }

def localhost (port : UInt16) : SocketAddr := .v4 ⟨127, 0, 0, 1⟩ port

end Pool

end Wnr.Nsock
