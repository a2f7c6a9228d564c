import Wnr.Foundation.Duplex
import Wnr.Nsock.ReadLedger
import Wnr.Nsock.WriteOrder

/-! # A stream and its two ends

A pool holds one end of a stream: it moves by its actions, what its descriptor receives
comes from the stream and what the descriptor hands over goes into it. Where the end is
used as the accounting of its reads and the order of its writes ask for
(`Pool.Undisturbed`, `Pool.WritesInTurn`), the bytes that one end requests to be written
are those that the read events of the other end have, with those on the way and those
not yet accepted behind them (`Pool.streams_conserved`). With a peer that gives back what
it takes they come back to the read events of the same descriptor
(`Pool.echo_roundtrip`).
-/

namespace Wnr.Nsock

/-- The bytes requested to be written on a descriptor, in request order. -/
def requestedBytes (iodId : Nat) (log : List Effect) : List UInt8 :=
  (requestedOn iodId log).map Prod.snd

/-- The bytes that the stream of a descriptor accepted, in order. -/
def acceptedBytes (iodId : Nat) (log : List Effect) : List UInt8 :=
  (acceptedOn iodId log).map Prod.snd

/-- What is requested on a descriptor and not accepted yet. -/
def unsent (iodId : Nat) (log : List Effect) : List UInt8 :=
  (requestedBytes iodId log).drop (acceptedBytes iodId log).length

/-- What the read events of a descriptor have received, in the order of their requests. -/
def readShares (iodId : Nat) (log : List Effect) : List UInt8 :=
  (readEvents iodId log).flatMap (receivedBy · log)

theorem acceptedBytes_append (iodId : Nat) (log added : List Effect) :
    acceptedBytes iodId (log ++ added) = acceptedBytes iodId log ++ acceptedBytes iodId added := by
  rw [acceptedBytes, acceptedOn, List.flatMap_append, List.map_append]
  rfl

namespace Pool

variable {pool : Pool} {op : Op} {iodId iodId' : Nat}

/-- A pool moves at its end of a stream, by one action. -/
inductive StreamMove (iodId : Nat) (before : Pool) : List UInt8 → List UInt8 → Pool → Prop
  | act {op : Op} {action : Action} {added : List Effect}
      (allowed : Allowed (WritesInTurn iodId) (fun _ _ => True) op before action)
      (spares : action.Spares iodId before)
      (log : (before.act action).log = before.log ++ added) :
      StreamMove iodId before (intake iodId added) (acceptedBytes iodId added)
        (before.act action)

/-- A call is a move. -/
theorem StreamMove.call {added : List Effect} (single : op.IsCall)
    (turn : WritesInTurn iodId pool op) (undisturbed : Undisturbed iodId pool op)
    (log : (perform op pool).2.log = pool.log ++ added) :
    StreamMove iodId pool (intake iodId added) (acceptedBytes iodId added) (perform op pool).2 :=
  .act ⟨.call single, turn⟩ undisturbed log

/-- A read of the loop is a move. -/
theorem StreamMove.tryRead {added : List Effect} {id : EventId}
    {outcome : SocketResult (List UInt8)} (held : pool.shape id = some (.read, false))
    (log : (pool.tryRead id outcome).2.log = pool.log ++ added) :
    StreamMove iodId pool (intake iodId added) (acceptedBytes iodId added)
      (pool.tryRead id outcome).2 :=
  .act ⟨(.tryRead held : Takes (.run 0 0 []) _ (.tryRead id outcome)), trivial⟩ trivial log

/-- A write of the loop is a move. -/
theorem StreamMove.tryWrite {added : List Effect} {id : EventId} {outcome : SocketResult Nat}
    (held : pool.shape id = some (.write, false))
    (log : (pool.tryWrite id outcome).2.log = pool.log ++ added) :
    StreamMove iodId pool (intake iodId added) (acceptedBytes iodId added)
      (pool.tryWrite id outcome).2 :=
  .act ⟨(.tryWrite held : Takes (.run 0 0 []) _ (.tryWrite id outcome)), trivial⟩ trivial log

/-- Every action under the conditions is a move. -/
theorem exists_streamMove (sound : pool.Sound) {action : Action}
    (allowed : Allowed (WritesInTurn iodId) (fun _ _ => True) op pool action)
    (spares : action.Spares iodId pool) :
    ∃ got new, StreamMove iodId pool got new (pool.act action) := by
  obtain ⟨added, log, -⟩ := (allowed.1.change sound).grown
  exact ⟨_, _, .act allowed spares log⟩

/-- The end of a stream that a descriptor of a pool is. -/
def streamEnd (iodId : Nat) : Duplex.Party Pool UInt8 where
  moves := StreamMove iodId
  taken pool := intake iodId pool.log
  given pool := acceptedBytes iodId pool.log
  taken_moves moved := by
    cases moved with
    | act allowed spares log => rw [log, intake_append]
  given_moves moved := by
    cases moved with
    | act allowed spares log => rw [log, acceptedBytes_append]

/-- What the moves at an end of a stream keep. -/
structure Streaming (iodId : Nat) (pool : Pool) : Prop extends Ledger iodId pool where
  queued : ∃ rest, pool.Queued iodId rest

theorem streaming_new (iodId : Nat) : Streaming iodId new where
  toLedger := ledger_new iodId
  queued := by
    refine ⟨[], sound_new, ⟨?_, rfl⟩, fun id e data held => nomatch held.1⟩
    intro moment early
    rw [List.prefix_nil.mp early]
    exact List.prefix_rfl

namespace Streaming

variable (streaming : Streaming iodId pool)

include streaming

theorem move {got new : List UInt8} {after : Pool} (moved : StreamMove iodId pool got new after) :
    Streaming iodId after := by
  cases moved with
  | act allowed spares log =>
      obtain ⟨rest, queued⟩ := streaming.queued
      exact ⟨streaming.toLedger.act allowed.1 spares, queued.act allowed⟩

theorem accepted_append_unsent :
    acceptedBytes iodId pool.log ++ unsent iodId pool.log = requestedBytes iodId pool.log := by
  obtain ⟨rest, queued⟩ := streaming.queued
  rw [unsent, requestedBytes, queued.written.total, List.map_append, ← acceptedBytes,
    List.drop_left]

/-- What is left to write is what the open write holds. -/
theorem unsent_eq {id : EventId} {e : Pending} {data : List UInt8} (held : pool.Open id e)
    (named : e.iod = some iodId) (left : e.wbuf = some data) (some' : data ≠ []) :
    unsent iodId pool.log = data := by
  obtain ⟨rest, queued⟩ := streaming.queued
  rw [unsent, requestedBytes, queued.written.total, List.map_append, ← acceptedBytes,
    List.drop_left, queued.held id e data held named left some', mark, List.map_map]
  exact List.map_id data

theorem readShares_eq : readShares iodId pool.log = intake iodId pool.log :=
  streaming.toLedger.intake_eq

end Streaming

/-! ## Two pools -/

/-- The bytes that the one end requests to be written are those that the reads of the
other end have, those on the way, and those that the stream has not accepted. -/
def EndToEnd (iodId iodId' : Nat) (writer reader : Pool) (onTheWay : List UInt8) : Prop :=
  requestedBytes iodId writer.log =
    readShares iodId' reader.log ++ onTheWay ++ unsent iodId writer.log

theorem endToEnd_of_carried {writer reader : Pool} {onTheWay : List UInt8}
    (writing : Streaming iodId writer) (reading : Streaming iodId' reader)
    (carried : acceptedBytes iodId writer.log = intake iodId' reader.log ++ onTheWay) :
    EndToEnd iodId iodId' writer reader onTheWay := by
  rw [EndToEnd, ← writing.accepted_append_unsent, reading.readShares_eq, carried]

/-- **Nothing is lost, duplicated or reordered between two pools**, in either direction and
however their actions interleave. -/
theorem streams_conserved {link : Duplex.Link Pool Pool UInt8}
    (run : Duplex.Run (streamEnd iodId) (streamEnd iodId') ⟨new, new, [], []⟩ link) :
    EndToEnd iodId iodId' link.near link.far link.outward ∧
      EndToEnd iodId' iodId link.far link.near link.inward := by
  have near : Streaming iodId link.near :=
    Duplex.near_invariant run (streaming_new iodId) fun kept moved => kept.move moved
  have far : Streaming iodId' link.far :=
    Duplex.far_invariant run (streaming_new iodId') fun kept moved => kept.move moved
  obtain ⟨outward, inward⟩ := Duplex.conserved run rfl rfl
  exact ⟨endToEnd_of_carried near far outward, endToEnd_of_carried far near inward⟩

/-- A descriptor that wraps a stream. -/
def wrapped : Pool := (perform (.createIodTcpFrom ⟨.caller 7, none⟩) new).2

/-- A write of two bytes on it. -/
def writing : Pool := (perform (.write 1 [104, 105] (-1) 0) wrapped).2

/-- The stream takes one of them. -/
def halfWritten : Pool := (writing.tryWrite 1 (.ok 1)).2

/-- A read on it. -/
def reading : Pool := (perform (.read 1 (-1) 0) wrapped).2

/-- The read gets one byte. -/
def halfRead : Pool := (reading.tryRead 1 (.ok [104])).2

theorem wrapped_moves : (streamEnd 1).moves new [] [] wrapped := by
  have single : Op.IsCall (.createIodTcpFrom ⟨.caller 7, none⟩) := trivial
  have log : wrapped.log = new.log ++ [] := rfl
  exact .call single (by decide) (by decide) log

/-- One byte of two is on the way. -/
theorem halfWritten_run {Far : Type} (q : Duplex.Party Far UInt8) (far : Far) :
    Duplex.Run (streamEnd 1) q ⟨new, far, [], []⟩ ⟨halfWritten, far, [104], []⟩ := by
  have asked : (streamEnd 1).moves wrapped [] [] writing := by
    have single : Op.IsCall (.write 1 [104, 105] (-1) 0) := trivial
    have log : writing.log = wrapped.log ++ [.requested 1 .write (some 1) (some [104, 105])] :=
      rfl
    exact .call single (by decide) (by decide) log
  have taken : (streamEnd 1).moves writing [] [104] halfWritten := by
    have log : halfWritten.log = writing.log ++ [.accepted 1 1 [104]] := rfl
    exact .tryWrite (by decide) log
  exact ((Relation.ReflTransGen.single (.near wrapped_moves)).tail (.near asked)).tail
    (.near taken)

theorem streams_conserved_half :
    EndToEnd 1 1 halfWritten halfRead [] ∧ EndToEnd 1 1 halfRead halfWritten [] := by
  have asked : (streamEnd 1).moves wrapped [] [] reading := by
    have single : Op.IsCall (.read 1 (-1) 0) := trivial
    have log : reading.log = wrapped.log ++ [.requested 1 .read (some 1) none] := rfl
    exact .call single (by decide) (by decide) log
  have got : (streamEnd 1).moves reading [104] [] halfRead := by
    have log : halfRead.log = reading.log ++ [.received 1 1 [104]] := rfl
    exact .tryRead (by decide) log
  exact streams_conserved ((((halfWritten_run (streamEnd 1) new).tail (.far wrapped_moves)).tail
    (.far asked)).tail (.far got))

/-! ## A peer that echoes -/

/-- A peer that gives back what it takes. -/
structure Echo where
  taken : List UInt8
  given : List UInt8
  returned : given <+: taken

/-- What the peer has still to give back. -/
def Echo.held (self : Echo) : List UInt8 := self.taken.drop self.given.length

theorem Echo.given_append_held (self : Echo) : self.given ++ self.held = self.taken := by
  obtain ⟨rest, whole⟩ := self.returned
  rw [held, ← whole, List.drop_left]

/-- Any taking and any giving back. -/
def echo : Duplex.Party Echo UInt8 where
  moves before got new after :=
    after.taken = before.taken ++ got ∧ after.given = before.given ++ new
  taken := Echo.taken
  given := Echo.given
  taken_moves moved := moved.1
  given_moves moved := moved.2

def Echo.idle : Echo := ⟨[], [], List.prefix_rfl⟩

/-- **What is written comes back**, in order: the requested bytes are those that the reads
of the same descriptor have, then those on the way back, those that the peer holds, those
on the way to it and those not accepted yet. -/
theorem echo_roundtrip {link : Duplex.Link Pool Echo UInt8}
    (run : Duplex.Run (streamEnd iodId) echo ⟨new, .idle, [], []⟩ link) :
    requestedBytes iodId link.near.log =
      readShares iodId link.near.log ++ link.inward ++ link.far.held ++ link.outward ++
        unsent iodId link.near.log := by
  have near : Streaming iodId link.near :=
    Duplex.near_invariant run (streaming_new iodId) fun kept moved => kept.move moved
  obtain ⟨outward, inward⟩ := Duplex.conserved run rfl rfl
  have accepted : acceptedBytes iodId link.near.log = link.far.taken ++ link.outward := outward
  have returned : link.far.given = intake iodId link.near.log ++ link.inward := inward
  calc requestedBytes iodId link.near.log
    _ = acceptedBytes iodId link.near.log ++ unsent iodId link.near.log :=
        near.accepted_append_unsent.symm
    _ = link.far.given ++ link.far.held ++ link.outward ++ unsent iodId link.near.log := by
        rw [accepted, link.far.given_append_held]
    _ = _ := by rw [returned, near.readShares_eq]

/-- The peer holds the byte that is written. -/
theorem echo_roundtrip_half :
    requestedBytes 1 halfWritten.log =
      readShares 1 halfWritten.log ++ [] ++ [104] ++ [] ++ unsent 1 halfWritten.log := by
  let holding : Echo := ⟨[104], [], List.nil_prefix⟩
  have takes : echo.moves .idle [104] [] holding := ⟨rfl, rfl⟩
  exact echo_roundtrip ((halfWritten_run echo .idle).tail (.far takes))

end Pool

end Wnr.Nsock
