import Wnr.Nsock.PassFrame

/-! # Pools that are alike

Two pools are alike when they tell each event and each descriptor the same, the byte counts
of descriptors apart (`Pool.Alike`). What a caller does to pools that are alike leaves them
alike, with the same answer (`Pool.Alike.perform_same`).
-/

namespace Wnr.Nsock

open Net

namespace Pool

/-- Two pools that tell each event and each descriptor the same, its byte counts apart. -/
structure Alike (pool pool' : Pool) : Prop extends Frame pool pool' where
  events : ∀ id, SameEvent id pool pool'

/-- The same answer, and pools that are alike after it. -/
def Agree {α : Type} (result result' : α × Pool) : Prop :=
  result'.1 = result.1 ∧ Alike result.2 result'.2

theorem Agree.map {α β : Type} {result result' : α × Pool} (agree : Agree result result')
    (answer : α → β) : Agree (result.map answer id) (result'.map answer id) :=
  ⟨congrArg answer agree.1, agree.2⟩

variable {pool pool' after after' : Pool} {id : EventId} {e : Pending}

theorem SameEvent.symm (same : SameEvent id pool after) : SameEvent id after pool :=
  ⟨same.held.symm, same.readBuf.symm, same.log.symm⟩

/-! ## Small steps of pools that are alike -/

theorem lookup_insert_congr {α : Type} {table table' : Table α}
    (same : ∀ id, table'.lookup id = table.lookup id) (key : Nat) (value : α) (id : Nat) :
    (table'.insert key value).lookup id = (table.insert key value).lookup id := by
  by_cases here : id = key
  · rw [here, AList.lookup_insert, AList.lookup_insert]
  · rw [AList.lookup_insert_ne here, AList.lookup_insert_ne here, same]

theorem lookup_erase_congr {α : Type} {table table' : Table α}
    (same : ∀ id, table'.lookup id = table.lookup id) (key : Nat) (id : Nat) :
    (table'.erase key).lookup id = (table.erase key).lookup id := by
  by_cases here : id = key
  · rw [here, AList.lookup_erase, AList.lookup_erase]
  · rw [AList.lookup_erase_ne here, AList.lookup_erase_ne here, same]

section Congruence

variable (alike : Alike pool pool')

include alike

theorem Alike.note (effect : Effect) : Alike (pool.note effect) (pool'.note effect) where
  connecting := alike.connecting
  channel := alike.channel
  quit := alike.quit
  broadcast := alike.broadcast
  iodCounter := alike.iodCounter
  eventCounter := alike.eventCounter
  receipts := by
    rw [note_log, note_log, receipts_append, receipts_append, alike.receipts]
  iods := alike.iods
  events id := by
    refine ⟨(alike.events id).held, (alike.events id).readBuf, ?_⟩
    rw [note_log, note_log, about_append, about_append, (alike.events id).log]

theorem Alike.note_of_eq {effect effect' : Effect} (same : effect' = effect) :
    Alike (pool.note effect) (pool'.note effect') :=
  same ▸ alike.note effect

/-- The tables of events change alike. -/
theorem Alike.tables {pending pending' : Table Pending} {readBufs readBufs' : Table (List UInt8)}
    (held : ∀ id, pending'.lookup id = pending.lookup id)
    (readBuf : ∀ id, readBufs'.lookup id = readBufs.lookup id) :
    Alike { pool with pending, readBufs } { pool' with pending := pending', readBufs := readBufs' } where
  toFrame := ⟨⟨alike.connecting, alike.channel, alike.quit⟩, alike.broadcast, alike.iodCounter,
    alike.eventCounter, alike.receipts, alike.iods⟩
  events id := ⟨held id, readBuf id, (alike.events id).log⟩

theorem Alike.put (id : EventId) (e : Pending) : Alike (pool.put id e) (pool'.put id e) :=
  alike.tables (lookup_insert_congr (fun id => (alike.events id).held) id e)
    fun id => (alike.events id).readBuf

theorem Alike.drop (id : EventId) : Alike (pool.drop id) (pool'.drop id) :=
  alike.tables (lookup_erase_congr (fun id => (alike.events id).held) id)
    fun id => (alike.events id).readBuf

theorem Alike.call (handler : Handler) (id : EventId) (status : EventStatus) :
    Alike (pool.call handler id status) (pool'.call handler id status) := by
  cases handler with
  | caller owner => exact alike.note _
  | noop => exact alike

theorem Alike.open_iff (id : EventId) (e : Pending) : pool'.Open id e ↔ pool.Open id e :=
  (alike.events id).open_iff e

theorem Alike.setQuit (quit : Bool) : Alike { pool with quit } { pool' with quit } where
  toFrame := ⟨⟨alike.connecting, alike.channel, rfl⟩, alike.broadcast, alike.iodCounter,
    alike.eventCounter, alike.receipts, alike.iods⟩
  events id := ⟨(alike.events id).held, (alike.events id).readBuf, (alike.events id).log⟩

/-- A table of descriptors changes alike. -/
theorem Alike.descriptors {iods iods' : Table Iod}
    (same : ∀ iodId, (iods'.lookup iodId).map Iod.uncounted = (iods.lookup iodId).map Iod.uncounted) :
    Alike { pool with iods } { pool' with iods := iods' } where
  toFrame := ⟨⟨alike.connecting, alike.channel, alike.quit⟩, alike.broadcast, alike.iodCounter,
    alike.eventCounter, alike.receipts, same⟩
  events id := ⟨(alike.events id).held, (alike.events id).readBuf, (alike.events id).log⟩

/-- A change that does not look at the byte counts of a descriptor. -/
theorem Alike.modify (iodId : Nat) {change : Iod → Iod}
    (blind : ∀ iod, (change iod).uncounted = change iod.uncounted) :
    Alike { pool with iods := Table.modify pool.iods iodId change }
      { pool' with iods := Table.modify pool'.iods iodId change } := by
  apply alike.descriptors
  intro key
  by_cases here : key = iodId
  · have uncounted (iod : Option Iod) :
        (iod.map change).map Iod.uncounted = (iod.map Iod.uncounted).map change := by
      cases iod with
      | none => rfl
      | some iod => exact congrArg some (blind iod)
    rw [here, Table.lookup_modify, Table.lookup_modify, uncounted, uncounted, alike.iods]
  · rw [Table.lookup_modify_ne _ here, Table.lookup_modify_ne _ here, alike.iods]

theorem Alike.addIod (iod : Iod) :
    (pool'.addIod iod).1 = (pool.addIod iod).1 ∧ Alike (pool.addIod iod).2 (pool'.addIod iod).2 := by
  have counter := alike.iodCounter
  refine ⟨congrArg (· + 1) counter, ?_⟩
  have iods (key : Nat) :
      (((pool'.addIod iod).2.iods).lookup key).map Iod.uncounted =
        (((pool.addIod iod).2.iods).lookup key).map Iod.uncounted := by
    change ((pool'.iods.insert (pool'.iodCounter + 1) { iod with id := pool'.iodCounter + 1 }).lookup
      key).map _ = ((pool.iods.insert (pool.iodCounter + 1) _).lookup key).map _
    rw [counter]
    by_cases here : key = pool.iodCounter + 1
    · rw [here, AList.lookup_insert, AList.lookup_insert]
    · rw [AList.lookup_insert_ne here, AList.lookup_insert_ne here, alike.iods]
  exact
    { connecting := alike.connecting
      channel := alike.channel
      quit := alike.quit
      broadcast := alike.broadcast
      iodCounter := congrArg (· + 1) counter
      eventCounter := alike.eventCounter
      receipts := alike.receipts
      iods := iods
      events := fun id =>
        ⟨(alike.events id).held, (alike.events id).readBuf, (alike.events id).log⟩ }

theorem Alike.schedule (kind : EventType) (iod : Option Nat) (deadline : Option Instant)
    (wbuf : Option (List UInt8)) (target : Nat) (lineRead : Bool) :
    (pool'.schedule kind iod deadline wbuf target lineRead).1 =
        (pool.schedule kind iod deadline wbuf target lineRead).1 ∧
      Alike (pool.schedule kind iod deadline wbuf target lineRead).2
        (pool'.schedule kind iod deadline wbuf target lineRead).2 := by
  have counter := alike.eventCounter
  refine ⟨congrArg (· + 1) counter, ?_⟩
  have counted : Alike { pool with eventCounter := pool.eventCounter + 1 }
      { pool' with eventCounter := pool.eventCounter + 1 } :=
    { toFrame := ⟨⟨alike.connecting, alike.channel, alike.quit⟩, alike.broadcast, alike.iodCounter,
        rfl, alike.receipts, alike.iods⟩
      events := fun id =>
        ⟨(alike.events id).held, (alike.events id).readBuf, (alike.events id).log⟩ }
  simp only [Pool.schedule, counter]
  exact (counted.put _ _).note _

theorem Alike.cancel (id : EventId) (notify : Bool) :
    (pool'.cancel id notify).1 = (pool.cancel id notify).1 ∧
      Alike (pool.cancel id notify).2 (pool'.cancel id notify).2 := by
  have held := (alike.events id).held
  cases found : pool.pending.lookup id with
  | none =>
      simp only [Pool.cancel, held, found]
      exact ⟨trivial, alike⟩
  | some e =>
      simp only [Pool.cancel, held, found]
      refine ⟨trivial, ?_⟩
      cases notify with
      | true =>
          cases e.done with
          | true => exact alike.put id _
          | false => exact (alike.put id _).call _ _ _
      | false =>
          cases e.done with
          | true => exact alike.put id _
          | false => exact (alike.put id _).note _

theorem Alike.takeReadBuf (id : EventId) :
    (pool'.takeReadBuf id).1 = (pool.takeReadBuf id).1 ∧
      Alike (pool.takeReadBuf id).2 (pool'.takeReadBuf id).2 := by
  have held := (alike.events id).held
  have kept := (alike.events id).readBuf
  cases found : pool.readBufs.lookup id with
  | none =>
      simp only [Pool.takeReadBuf, kept, held, found]
      exact ⟨trivial, alike⟩
  | some b =>
      simp only [Pool.takeReadBuf, kept, found]
      exact ⟨trivial, alike.tables (fun id => (alike.events id).held)
        (lookup_erase_congr (fun id => (alike.events id).readBuf) id)⟩

theorem Alike.arrive (attempt : EventId) (outcome : Except Unit (Option SocketAddr)) :
    Alike (pool.arrive attempt outcome) (pool'.arrive attempt outcome) := by
  rw [Pool.arrive, Pool.arrive, alike.connecting]
  cases pool.connecting.find? (·.event = attempt) with
  | none => exact alike
  | some thread =>
      exact
        { connecting := rfl
          channel := congrArg (· ++ _) alike.channel
          quit := alike.quit
          broadcast := alike.broadcast
          iodCounter := alike.iodCounter
          eventCounter := alike.eventCounter
          receipts := alike.receipts
          iods := alike.iods
          events := fun id =>
            ⟨(alike.events id).held, (alike.events id).readBuf, (alike.events id).log⟩ }

theorem Alike.arriveAll (arrivals : List (EventId × Except Unit (Option SocketAddr))) :
    Alike (arriveAll arrivals pool) (arriveAll arrivals pool') := by
  induction arrivals generalizing pool pool' with
  | nil => exact alike
  | cons arrival rest ih => exact ih (alike.arrive arrival.1 arrival.2)

theorem Alike.connectTcp (iodId : Nat) (addr : SocketAddr) (timeoutMs : Int) (now : Instant) :
    (pool'.connectTcp iodId addr timeoutMs now).1 = (pool.connectTcp iodId addr timeoutMs now).1 ∧
      Alike (pool.connectTcp iodId addr timeoutMs now).2
        (pool'.connectTcp iodId addr timeoutMs now).2 := by
  obtain ⟨same, asked⟩ := alike.schedule .connect (some iodId)
    (some (now + if timeoutMs < 0 then secs 3600 else millis timeoutMs.toNat)) none 0 false
  refine ⟨same, ?_⟩
  exact
    { connecting := congrArg₂ (fun threads id => threads ++ [(⟨id, iodId, addr⟩ : Attempt)])
        alike.connecting same
      channel := asked.channel
      quit := asked.quit
      broadcast := asked.broadcast
      iodCounter := asked.iodCounter
      eventCounter := asked.eventCounter
      receipts := asked.receipts
      iods := asked.iods
      events := fun id =>
        ⟨(asked.events id).held, (asked.events id).readBuf, (asked.events id).log⟩ }

theorem Alike.connectUdp (iodId : Nat) (addr : SocketAddr) (succeeds : Bool) :
    Alike (pool.connectUdp iodId addr succeeds) (pool'.connectUdp iodId addr succeeds) :=
  alike.modify iodId fun _ => rfl

theorem Alike.sendUdp (iodId : Nat) (addr : SocketAddr) (data : List UInt8) (timeoutMs : Int)
    (succeeds : Bool) (now : Instant) :
    Agree (pool.sendUdp iodId addr data timeoutMs succeeds now)
      (pool'.sendUdp iodId addr data timeoutMs succeeds now) := by
  obtain ⟨same, asked⟩ := (alike.connectUdp iodId addr succeeds).schedule .write (some iodId)
    (deadlineIn now timeoutMs) (some data) data.length false
  exact ⟨same, asked.note_of_eq (congrArg (Effect.addressed · addr) same)⟩

end Congruence

/-- An operation without an iteration order. -/
theorem Alike.perform_same (alike : Alike pool pool') {op : Op} (single : op.IsCall) :
    Agree (perform op pool) (perform op pool') := by
  cases op with
  | setBroadcast on =>
      exact ⟨rfl,
        { connecting := alike.connecting
          channel := alike.channel
          quit := alike.quit
          broadcast := rfl
          iodCounter := alike.iodCounter
          eventCounter := alike.eventCounter
          receipts := alike.receipts
          iods := alike.iods
          events := fun id =>
            ⟨(alike.events id).held, (alike.events id).readBuf, (alike.events id).log⟩ }⟩
  | createIodTcp => exact Agree.map (alike.addIod _) _
  | createIodUdp binds =>
      cases binds with
      | true =>
          have agree := alike.addIod
            { Iod.newTcp with udp := some ⟨pool.broadcast, none⟩, kind := .udp }
          refine Agree.map ?_ _
          rw [Pool.createIodUdp, Pool.createIodUdp, alike.broadcast]
          exact agree
      | false => exact Agree.map (alike.addIod _) _
  | createIodTcpFrom stream =>
      refine Agree.map ?_ _
      rw [Pool.createIodTcpFrom, Pool.createIodTcpFrom, alike.iodCounter]
      exact alike.addIod _
  | createIodUdpFrom sock =>
      refine Agree.map ?_ _
      rw [Pool.createIodUdpFrom, Pool.createIodUdpFrom, alike.iodCounter]
      exact alike.addIod _
  | connectTcp iodId addr timeoutMs now =>
      exact Agree.map (alike.connectTcp iodId addr timeoutMs now) _
  | connectUdp iodId addr succeeds => exact ⟨rfl, alike.connectUdp iodId addr succeeds⟩
  | read | readBytes | readlines | write | writeFmt | printf | timerCreate =>
      exact Agree.map (alike.schedule _ _ _ _ _ _) _
  | sendUdp iodId addr data timeoutMs succeeds now =>
      exact Agree.map (alike.sendUdp iodId addr data timeoutMs succeeds now) _
  | cancel event notify => exact Agree.map (alike.cancel event notify) _
  | loopQuit =>
      exact ⟨rfl,
        { connecting := alike.connecting
          channel := congrArg (· ++ [Cmd.quit]) alike.channel
          quit := rfl
          broadcast := alike.broadcast
          iodCounter := alike.iodCounter
          eventCounter := alike.eventCounter
          receipts := alike.receipts
          iods := alike.iods
          events := fun id =>
            ⟨(alike.events id).held, (alike.events id).readBuf, (alike.events id).log⟩ }⟩
  | takeReadBuf event => exact Agree.map (alike.takeReadBuf event) _
  | deleteIod order id => exact single.elim
  | delete iodOrder orders order => exact single.elim
  | arrive attempt outcome => exact single.elim
  | run timeout start passes => exact single.elim

end Pool

end Wnr.Nsock
