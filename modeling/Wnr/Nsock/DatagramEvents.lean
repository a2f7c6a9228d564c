import Wnr.Foundation.Grouping
import Wnr.Nsock.ReadLedger
import Wnr.Nsock.StreamWrites

/-! # One datagram for each event

A read from a datagram socket and a write to one end with success in the pass that moves
their datagram, and no other pass moves one for them. So the datagrams that went through a
descriptor are those of its events that succeeded, one each
(`Wnr.Nsock.Pool.datagrams_exact`).
-/

namespace Wnr.Nsock

open Grouping

/-! ## The datagrams of a log -/

/-- The event that an effect moves a datagram for through a descriptor, and the datagram. -/
def Effect.datagram (iodId : Nat) : Effect → Option (EventId × List UInt8)
  | .received event key bytes => if key = iodId then some (event, bytes) else none
  | .sent event key _ data => if key = iodId then some (event, data) else none
  | _ => none

/-- The datagrams that went through a descriptor, in order, each with its event. -/
def datagrams (iodId : Nat) (log : List Effect) : List (EventId × List UInt8) :=
  log.filterMap (·.datagram iodId)

/-- The datagrams of one event. -/
def datagramsOf (iodId : Nat) (id : EventId) (log : List Effect) : List (List UInt8) :=
  valuesOf id (datagrams iodId log)

/-- The event is a read from the descriptor or a write to it. -/
def Serves (iodId : Nat) (id : EventId) (log : List Effect) : Prop :=
  ∃ kind wbuf, (kind = .read ∨ kind = .write) ∧ .requested id kind (some iodId) wbuf ∈ log

section Logs

variable {iodId : Nat} {id : EventId} {log added : List Effect} {effect : Effect}

theorem datagramsOf_append (iodId : Nat) (id : EventId) (log added : List Effect) :
    datagramsOf iodId id (log ++ added) = datagramsOf iodId id log ++ datagramsOf iodId id added := by
  rw [datagramsOf, datagrams, List.filterMap_append, valuesOf_append]
  rfl

theorem datagrams_singleton (iodId : Nat) (effect : Effect) :
    datagrams iodId [effect] = (effect.datagram iodId).toList := by
  rw [datagrams, List.filterMap_cons]
  cases effect.datagram iodId <;> rfl

theorem datagramsOf_of_datagram {datagram : List UInt8}
    (moves : effect.datagram iodId = some (id, datagram)) :
    datagramsOf iodId id [effect] = [datagram] := by
  rw [datagramsOf, datagrams_singleton, moves]
  exact (valuesOf_cons id (id, datagram) []).trans (if_pos rfl)

theorem Effect.event_of_datagram {row : EventId × List UInt8}
    (moves : effect.datagram iodId = some row) : effect.event = some row.1 := by
  cases effect with
  | received event key bytes | sent event key peer bytes =>
      rw [Effect.datagram, Option.ite_none_right_eq_some, Option.some.injEq] at moves
      rw [← moves.2]
      rfl
  | requested | addressed | called | silenced | result | accepted => cases moves

theorem datagramsOf_of_foreign (foreign : effect.event ≠ some id) :
    datagramsOf iodId id [effect] = [] := by
  rw [datagramsOf, datagrams_singleton]
  refine valuesOf_eq_nil fun row member own => foreign ?_
  rw [← own]
  exact Effect.event_of_datagram (Option.mem_toList.mp member)

theorem datagramsOf_about (iodId : Nat) (id : EventId) (log : List Effect) :
    datagramsOf iodId id (about id log) = datagramsOf iodId id log := by
  induction log with
  | nil => rfl
  | cons effect log ih =>
      rw [← List.singleton_append, about_append, datagramsOf_append, datagramsOf_append, ih]
      by_cases own : effect.event = some id
      · rw [about_of_event own]
      · rw [about_of_event_ne own, datagramsOf_of_foreign own]
        rfl

theorem datagramsOf_of_still (still : ∀ effect ∈ added, effect.datagram iodId = none) :
    datagramsOf iodId id (log ++ added) = datagramsOf iodId id log := by
  have none' : datagrams iodId added = [] := List.filterMap_eq_nil_iff.mpr still
  rw [datagramsOf_append, datagramsOf, datagramsOf, none']
  exact List.append_nil _

/-- The handler of the event was called with success. -/
def Succeeded (id : EventId) (log : List Effect) : Prop := EventStatus.success ∈ calls id log

instance (id : EventId) (log : List Effect) : Decidable (Succeeded id log) :=
  inferInstanceAs (Decidable (_ ∈ _))

theorem succeeded_append :
    Succeeded id (log ++ added) ↔ Succeeded id log ∨ Succeeded id added := by
  rw [Succeeded, Pool.calls_append, List.mem_append]
  rfl

theorem succeeded_about : Succeeded id (about id log) ↔ Succeeded id log := by
  rw [Succeeded, Pool.calls_about]
  rfl

theorem succeeded_called {status : EventStatus} :
    Succeeded id [.called id id status] ↔ status = .success := by
  have one : calls id [.called id id status] = [status] := by
    simp only [calls, List.filterMap_cons, ↓reduceIte, List.filterMap_nil]
  rw [Succeeded, one, List.mem_singleton]
  exact eq_comm

theorem not_succeeded (failed : ∀ effect ∈ added, ∀ event key, effect ≠ .called event key .success) :
    ¬ Succeeded id added := by
  intro succeeded
  obtain ⟨effect, member, called⟩ := List.mem_filterMap.mp succeeded
  cases effect with
  | called event key status =>
      rw [Option.ite_none_right_eq_some, Option.some.injEq] at called
      rw [called.2] at member
      exact failed _ member event key rfl
  | requested | addressed | silenced | result | received | accepted | sent => cases called

end Logs

/-! ## Sockets for datagrams -/

theorem Iod.arrival_of_udp {iod : Iod} (kind : iod.kind = .udp)
    (outcome : Pool.SocketResult (List UInt8)) :
    (∃ datagram, iod.arrival outcome = .datagram datagram) ∨
      iod.arrival outcome = .failed ∨ iod.arrival outcome = .nothing := by
  unfold arrival
  rw [kind]
  rcases iod.udp with _ | sock
  · exact .inr (.inr rfl)
  · rcases outcome with bytes | _ | _
    · exact .inl ⟨_, rfl⟩
    · exact .inr (.inr rfl)
    · exact .inr (.inl rfl)

theorem Iod.departure_of_udp {iod : Iod} (kind : iod.kind = .udp) (data : List UInt8)
    (outcome : Pool.SocketResult Nat) :
    (∃ peer, iod.departure data outcome = .sent peer) ∨
      iod.departure data outcome = .failed ∨ iod.departure data outcome = .nothing := by
  unfold departure
  rw [kind]
  rcases iod.udp with _ | ⟨broadcast, association⟩
  · exact .inr (.inr rfl)
  · rcases association with _ | peer
    · exact .inr (.inl rfl)
    · rcases outcome with count | _ | _
      · exact .inl ⟨peer, rfl⟩
      · exact .inr (.inr rfl)
      · exact .inr (.inl rfl)

namespace Pool

variable {pool after : Pool} {pass : Pass} {op : Op} {id iodId : Nat} {e : Pending}

/-- The descriptor, if there is one, wraps a datagram socket in a pass. -/
def OnDatagrams (iodId : Nat) (pool : Pool) (pass : Pass) : Prop :=
  ∀ iod, (pool.drained pass).iods.lookup iodId = some iod → iod.kind = .udp

instance (iodId : Nat) (pool : Pool) (pass : Pass) : Decidable (OnDatagrams iodId pool pass) :=
  decidable_of_iff (((pool.drained pass).iods.lookup iodId).all fun iod => iod.kind = .udp)
    (by rw [OnDatagrams, Option.all_eq_true]; simp only [decide_eq_true_eq])

/-- What a pass makes of an open event that reads or writes datagrams. -/
inductive DatagramPassed (pool after : Pool) (id iodId : Nat) (e : Pending) : Prop
  | still (goes : GoesOn pool after id [] e)
  | failed (status : EventStatus) (other : status ≠ .success)
      (ends : EndsWith pool after id [] status)
      (kept : e.kind = .read → after.readBufs.lookup id = some e.buf)
  | moved (effect : Effect) (datagram : List UInt8)
      (moves : effect.datagram iodId = some (id, datagram))
      (ends : EndsWith pool after id [effect] .success)
      (kept : e.kind = .read → after.readBufs.lookup id = some datagram)
      (own : e.kind = .write → e.wbuf = some datagram)

theorem timeout_ne_success : EventStatus.timeout ≠ .success := by
  simp only [ne_eq, reduceCtorEq, not_false_eq_true]

theorem error_ne_success : EventStatus.error ≠ .success := by
  simp only [ne_eq, reduceCtorEq, not_false_eq_true]

theorem runPass_datagram (sound : pool.Sound) (held : pool.Open id e)
    (serves : e.kind = .read ∨ e.kind = .write) (named : e.iod = some iodId)
    (datagrams : OnDatagrams iodId pool pass) :
    DatagramPassed pool (pool.runPass pass) id iodId e := by
  have kind : e.kind ≠ .connect := by
    intro connect
    rw [connect] at serves
    rcases serves with wrong | wrong <;> cases wrong
  cases due : dueStatus pass.now e with
  | some status =>
      have ends := runPass_of_due sound held kind due
      obtain ⟨-, ⟨timer, -⟩ | ⟨-, rfl⟩⟩ := dueStatus_eq_some due
      · rw [timer] at serves
        rcases serves with wrong | wrong <;> cases wrong
      · exact .failed .timeout timeout_ne_success ends.1 ends.2
  | none =>
      rcases serves with read | write
      · have passed := runPass_read sound held read named due
        rw [arrivalIn] at passed
        cases described : (pool.drained pass).iods.lookup iodId with
        | none =>
            rw [described] at passed
            exact .still passed
        | some iod =>
            rw [described] at passed
            simp only at passed
            rcases Iod.arrival_of_udp (datagrams iod described) (pass.reads id) with
              ⟨datagram, found⟩ | found | found
            · rw [found] at passed
              refine .moved (.received id iodId datagram) datagram (if_pos rfl) passed.1
                (fun _ => passed.2) fun write => ?_
              rw [read] at write
              cases write
            · rw [found] at passed
              exact .failed .error error_ne_success passed.1 fun _ => passed.2
            · rw [found] at passed
              exact .still passed
      · have notRead {P : Prop} : e.kind = .read → P := by
          intro read
          rw [write] at read
          cases read
        cases left : e.wbuf with
        | none =>
            have held' := ((drained_same sound pass held kind).open_iff e).mpr held
            have attempt := (tryIo_of_write pass held'.1 write).trans
              (tryWrite_of_no_data held'.1 left (pass.writes id))
            exact .still (runPass_of_still sound held kind due attempt)
        | some data =>
            have passed := runPass_write sound held write named left due
            rw [departureIn] at passed
            cases described : (pool.drained pass).iods.lookup iodId with
            | none =>
                rw [described] at passed
                exact .still passed
            | some iod =>
                rw [described] at passed
                simp only at passed
                rcases Iod.departure_of_udp (datagrams iod described) data (pass.writes id) with
                  ⟨peer, found⟩ | found | found
                · rw [found] at passed
                  exact .moved (.sent id iodId peer data) data (if_pos rfl) passed notRead fun _ => left
                · rw [found] at passed
                  exact .failed .error error_ne_success passed notRead
                · rw [found] at passed
                  exact .still passed

/-! ## Outside the loop -/

/-- No action outside the loop moves a datagram or calls a handler with success. -/
theorem Takes.still (sound : pool.Sound) (outside : ¬ op.IsRun) {action : Action}
    (taken : Takes op pool action) (iodId : Nat) (id : EventId) :
    datagramsOf iodId id (pool.act action).log = datagramsOf iodId id pool.log ∧
      (Succeeded id (pool.act action).log ↔ Succeeded id pool.log) := by
  obtain ⟨added, log, emitted⟩ := (taken.change sound).grown
  have still : ∀ effect ∈ added, effect.datagram iodId = none := by
    intro effect member
    cases emitted effect member with
    | read | wrote =>
        cases taken
        exact absurd trivial outside
    | _ => rfl
  have failed : ∀ effect ∈ added, ∀ event key, effect ≠ .called event key .success := by
    intro effect member event key called
    cases emitted effect member with
    | read | wrote | delivered | connected =>
        cases taken
        exact absurd trivial outside
    | _ => cases called
  rw [log, datagramsOf_of_still still, succeeded_append, or_iff_left (not_succeeded failed)]
  exact ⟨rfl, Iff.rfl⟩

theorem stable_requests (before : Pool) (op : Op) (pool : Pool) (action : Action)
    (same : pool.Sound ∧ pool.Created id ∧ ∀ kind iod wbuf,
      .requested id kind iod wbuf ∈ pool.log ↔ .requested id kind iod wbuf ∈ before.log)
    (taken : Takes op pool action) :
    (pool.act action).Sound ∧ (pool.act action).Created id ∧ ∀ kind iod wbuf,
      .requested id kind iod wbuf ∈ (pool.act action).log ↔
        .requested id kind iod wbuf ∈ before.log := by
  obtain ⟨sound, created, same⟩ := same
  have change := taken.change sound
  refine ⟨change.sound sound, change.created_of created, fun kind iod wbuf => ?_⟩
  exact (change.requested_iff created).trans (same kind iod wbuf)

theorem runPass_requested (sound : pool.Sound) (created : pool.Created id) (pass : Pass)
    {kind : EventType} {iod : Option Nat} {wbuf : Option (List UInt8)} :
    .requested id kind iod wbuf ∈ (pool.runPass pass).log ↔
      .requested id kind iod wbuf ∈ pool.log :=
  (runPass_invariant (stable_requests pool) pass ⟨sound, created, fun _ _ _ => Iff.rfl⟩).2.2 _ _ _

/-- A pass creates no event. -/
theorem runPass_created (sound : pool.Sound) (pass : Pass) :
    (pool.runPass pass).Created id ↔ pool.Created id := by
  have step (state : Pool) (action : Action)
      (kept : state.Sound ∧ state.eventCounter = pool.eventCounter)
      (taken : Takes (.run 0 0 []) state action) :
      (state.act action).Sound ∧ (state.act action).eventCounter = pool.eventCounter := by
    have change := taken.change kept.1
    refine ⟨change.sound kept.1, ?_⟩
    cases change with
    | quiet _ counter | moved _ _ _ _ _ _ _ _ counter | ended _ _ _ _ _ counter
    | forgotten _ _ _ _ counter => exact counter.trans kept.2
    | created _ _ _ _ _ emitted =>
        obtain ⟨-, rfl, -⟩ := emitted.requested_cases
        cases taken with
        | call single => exact single.elim
  have kept := (runPass_invariant_of step pass ⟨sound, rfl⟩).2.2
  rw [Created, Created, kept]

/-- The open reads and writes of a descriptor are as they were requested. -/
structure Untouched (iodId : Nat) (pool : Pool) : Prop extends Retained pool where
  untouched : ∀ id e, pool.Open id e → Serves iodId id pool.log →
    e.buf = [] ∧
      ∀ data, .requested id .write (some iodId) (some data) ∈ pool.log → e.wbuf = some data

/-- An event that a request has just created waits as it was requested. -/
theorem Takes.wbuf_of_fresh (sound : pool.Sound) {action : Action} (taken : Takes op pool action)
    (fresh : id = pool.eventCounter + 1) (held : (pool.act action).Open id e) {data : List UInt8}
    (asked : .requested id .write (some iodId) (some data) ∈ (pool.act action).log) :
    e.wbuf = some data := by
  have change := taken.change sound
  obtain ⟨added, log, emitted⟩ := change.grown
  have notCreated : ¬ pool.Created id := fresh ▸ not_created_succ pool
  have new {effect : Effect} (member : effect ∈ (pool.act action).log)
      (own : effect.event = some id) : effect ∈ added := by
    rw [log] at member
    exact (List.mem_append.mp member).resolve_left fun old =>
      notCreated (sound.mentioned effect old id own)
  have request : .requested id e.kind e.iod e.wbuf ∈ (pool.act action).log := by
    rcases change.open_cases held with before | ⟨e', _, _, _, before, -⟩ | ⟨-, -, -, -, rest, log'⟩
    · exact absurd (sound.created id e before.1) notCreated
    · exact absurd (sound.created id e' before.1) notCreated
    · rw [log']
      exact List.mem_append_right _ List.mem_cons_self
  -- both entries of the log tell the data of the one operation
  rcases (emitted _ (new asked rfl)).requested_cases.2.2 with ⟨-, wrong, -⟩ | ⟨_, _, told, -, -, same⟩
  · exact absurd rfl wrong
  obtain rfl := Option.some.inj same
  rcases (emitted _ (new request rfl)).requested_cases.2.2 with ⟨none', -⟩ | ⟨_, _, told', -, -, same'⟩
  · rw [told] at none'
    cases none'
  · rw [told] at told'
    obtain ⟨-, rfl⟩ := Prod.mk.inj (Option.some.inj told')
    exact same'

namespace Untouched

variable (valid : Untouched iodId pool)

include valid

theorem act {action : Action} (outside : ¬ op.IsRun) (taken : Takes op pool action) :
    Untouched iodId (pool.act action) := by
  have change := taken.change valid.toSound
  refine { valid.toRetained.act taken with untouched := fun id e held serves => ?_ }
  have before (same : pool.Open id e) :
      e.buf = [] ∧ ∀ data, .requested id .write (some iodId) (some data) ∈ (pool.act action).log →
        e.wbuf = some data := by
    have created := valid.created id e same.1
    obtain ⟨kind, wbuf, io, asked⟩ := serves
    obtain ⟨empty, left⟩ := valid.untouched id e same
      ⟨kind, wbuf, io, (change.requested_iff created).mp asked⟩
    exact ⟨empty, fun data asked => left data ((change.requested_iff created).mp asked)⟩
  cases taken.entry id with
  | kept same | taken asked same =>
      rw [Open, same] at held
      exact before held
  | created fresh e' held' empty =>
      have buf : e.buf = [] := by
        obtain rfl := Option.some.inj (held.1.symm.trans held')
        exact empty.1
      exact ⟨buf, fun data asked => taken.wbuf_of_fresh valid.toSound fresh held asked⟩
  | moved attempts =>
      cases taken with
      | tryRead | tryWrite => exact absurd trivial outside
      | _ => exact attempts.elim
  | cancelled notify asked e' handler found held' =>
      obtain rfl := Option.some.inj (held.1.symm.trans held')
      cases held.2
  | delivered _ _ gone | killed _ gone =>
      rw [Open, gone] at held
      cases held.1

end Untouched

/-! ## The events of a descriptor -/

/-- What the log tells of a read from a datagram socket or a write to it. -/
inductive Told (iodId : Nat) (id : EventId) (pool : Pool) : Prop
  | without (none : datagramsOf iodId id pool.log = []) (failed : ¬ Succeeded id pool.log)
  | with (datagram : List UInt8) (one : datagramsOf iodId id pool.log = [datagram])
      (succeeded : Succeeded id pool.log) (closed : ∀ e, ¬ pool.Open id e)
      (own : ∀ data, .requested id .write (some iodId) (some data) ∈ pool.log → datagram = data)

/-- Each event of the descriptor has a datagram exactly if it has succeeded. -/
structure Framed (iodId : Nat) (pool : Pool) : Prop extends Untouched iodId pool where
  told : ∀ id, Serves iodId id pool.log → Told iodId id pool
  kept : ∀ id wbuf bytes, .requested id .read (some iodId) wbuf ∈ pool.log →
    pool.readBufs.lookup id = some bytes → bytes = (datagramsOf iodId id pool.log).flatten

theorem framed_new (iodId : Nat) : Framed iodId new where
  toRetained := retained_new
  untouched _ _ held := nomatch held.1
  told _ serves := by
    obtain ⟨_, _, _, member⟩ := serves
    cases member
  kept _ _ _ asked := nomatch asked

theorem Told.of_same (told : Told iodId id pool)
    (datagrams : datagramsOf iodId id after.log = datagramsOf iodId id pool.log)
    (succeeded : Succeeded id after.log ↔ Succeeded id pool.log)
    (closed : (∀ e, ¬ pool.Open id e) → ∀ e, ¬ after.Open id e)
    (asked : ∀ data, .requested id .write (some iodId) (some data) ∈ after.log →
      .requested id .write (some iodId) (some data) ∈ pool.log) : Told iodId id after := by
  cases told with
  | without none failed => exact .without (datagrams.trans none) (mt succeeded.mp failed)
  | «with» datagram one success closed' own =>
      exact .with datagram (datagrams.trans one) (succeeded.mpr success) (closed closed')
        fun data request => own data (asked data request)

theorem EndsWith.datagramsOf {moved : List Effect} {status : EventStatus}
    (ends : EndsWith pool after id moved status) :
    datagramsOf iodId id after.log =
      datagramsOf iodId id pool.log ++ datagramsOf iodId id moved := by
  have silent : Nsock.datagramsOf iodId id [.called id id status] = [] := rfl
  rw [← datagramsOf_about, ends.log, datagramsOf_append, datagramsOf_append, silent,
    List.append_nil, datagramsOf_about]

theorem EndsWith.succeeded_iff {moved : List Effect} {status : EventStatus}
    (ends : EndsWith pool after id moved status) :
    Succeeded id after.log ↔
      Succeeded id pool.log ∨ Succeeded id moved ∨ status = .success := by
  rw [← succeeded_about, ends.log, succeeded_append, succeeded_append, succeeded_about,
    succeeded_called, or_assoc]

theorem EndsWith.closed_after {moved : List Effect} {status : EventStatus}
    (ends : EndsWith pool after id moved status) (e : Pending) : ¬ after.Open id e := by
  intro held
  rw [Open, ends.closed] at held
  cases held.1

theorem GoesOn.same {e : Pending} (goes : GoesOn pool after id [] e) (held : pool.Open id e) :
    SameEvent id pool after where
  held := goes.held.trans held.1.symm
  readBuf := goes.readBuf
  log := goes.log.trans (List.append_nil _)

theorem SameEvent.datagramsOf (same : SameEvent id pool after) :
    datagramsOf iodId id after.log = datagramsOf iodId id pool.log := by
  rw [← datagramsOf_about, same.log, datagramsOf_about]

theorem SameEvent.succeeded_iff (same : SameEvent id pool after) :
    Succeeded id after.log ↔ Succeeded id pool.log := by
  rw [← succeeded_about, same.log, succeeded_about]

namespace Framed

variable (framed : Framed iodId pool)

include framed

theorem datagramsOf_open (held : pool.Open id e) (serves : Serves iodId id pool.log) :
    datagramsOf iodId id pool.log = [] ∧ ¬ Succeeded id pool.log := by
  cases framed.told id serves with
  | without none failed => exact ⟨none, failed⟩
  | «with» _ _ _ closed => exact absurd held (closed e)

/-- An action outside the loop. -/
theorem act {action : Action} (outside : ¬ op.IsRun) (taken : Takes op pool action) :
    Framed iodId (pool.act action) := by
  have sound := framed.toSound
  have change := taken.change sound
  refine { framed.toUntouched.act outside taken with
    told := fun id serves => ?_
    kept := fun id wbuf bytes asked kept => ?_ }
  · obtain ⟨datagrams, succeeded⟩ := taken.still sound outside iodId id
    by_cases created : pool.Created id
    · obtain ⟨kind, wbuf, io, asked⟩ := serves
      refine (framed.told id ⟨kind, wbuf, io, (change.requested_iff created).mp asked⟩).of_same
        datagrams succeeded ?_ fun _ => (change.requested_iff created).mp
      intro closed e held
      obtain ⟨e', before⟩ := taken.open_before sound created held
      exact closed e' before
    · have nothing : about id pool.log = [] := about_of_not_created sound created
      refine .without ?_ (mt succeeded.mp ?_)
      · rw [datagrams, ← datagramsOf_about, nothing]
        rfl
      · rw [← succeeded_about, nothing]
        exact List.not_mem_nil
  · rw [(taken.still sound outside iodId id).1]
    have before (same : (pool.act action).readBufs.lookup id = pool.readBufs.lookup id) :
        bytes = (datagramsOf iodId id pool.log).flatten := by
      rw [same] at kept
      have created := (framed.retained id bytes kept).1
      exact framed.kept id wbuf bytes ((change.requested_iff created).mp asked) kept
    cases taken.entry id with
    | kept _ same | created _ _ _ _ same | moved _ _ _ _ _ _ same
    | cancelled _ _ _ _ _ _ same => exact before same
    | delivered e live gone readBuf =>
        have asked' := (change.requested_iff (framed.created id e live.1)).mp asked
        have serves : Serves iodId id pool.log := ⟨_, wbuf, .inl rfl, asked'⟩
        rw [readBuf, if_pos (framed.asked id e live _ _ _ asked').1.symm] at kept
        rw [(framed.datagramsOf_open live serves).1, ← Option.some.inj kept]
        exact (framed.untouched id e live serves).1
    | killed _ _ gone | taken _ _ gone =>
        rw [gone] at kept
        cases kept

theorem perform (outside : ¬ op.IsRun) : Framed iodId (Pool.perform op pool).2 := by
  have along : OpAlong (fun _ _ => True) (fun _ _ => True) op pool :=
    opAlong_of_forall (fun _ _ => trivial) (fun _ _ => trivial) op pool
  exact (perform_steps along).invariant (Framed iodId) framed
    fun _ _ framed allowed => framed.act outside allowed.1

theorem quit (value : Bool) : Framed iodId { pool with quit := value } :=
  ⟨⟨framed.toRetained.act (Takes.quitRun : Takes (.run 0 0 []) pool (.setQuit value)),
    framed.untouched⟩, fun id serves => by cases framed.told id serves with
      | without none failed => exact .without none failed
      | «with» datagram one succeeded closed own => exact .with datagram one succeeded closed own,
    framed.kept⟩

/-- **One pass.** -/
theorem runPass (pass : Pass) (onDatagrams : OnDatagrams iodId pool pass) :
    Framed iodId (pool.runPass pass) := by
  have sound := framed.toSound
  have valid : (pool.runPass pass).Retained :=
    runPass_invariant (fun _ _ _ valid taken => valid.act taken) pass framed.toRetained
  -- what is said of an event in the log was said of it before the pass
  have known {kind : EventType} {iod : Option Nat} {wbuf : Option (List UInt8)} {id : EventId}
      (asked : .requested id kind iod wbuf ∈ (pool.runPass pass).log) :
      .requested id kind iod wbuf ∈ pool.log := by
    have created := (runPass_created sound pass).mp (valid.mentioned _ asked id rfl)
    exact (runPass_requested sound created pass).mp asked
  have served {id : EventId} (serves : Serves iodId id (pool.runPass pass).log) :
      Serves iodId id pool.log := by
    obtain ⟨kind, wbuf, io, asked⟩ := serves
    exact ⟨kind, wbuf, io, known asked⟩
  have passed {id : EventId} {e : Pending} (held : pool.Open id e)
      (serves : Serves iodId id pool.log) :
      DatagramPassed pool (pool.runPass pass) id iodId e := by
    obtain ⟨kind, wbuf, io, asked⟩ := serves
    obtain ⟨rfl, named⟩ := framed.asked id e held _ _ _ asked
    exact runPass_datagram sound held io named.symm onDatagrams
  have of_same {id : EventId} (same : SameEvent id pool (pool.runPass pass))
      (serves : Serves iodId id (pool.runPass pass).log) : Told iodId id (pool.runPass pass) :=
    (framed.told id (served serves)).of_same same.datagramsOf same.succeeded_iff
      (fun closed e held => closed e ((same.open_iff e).mp held)) fun _ => known
  refine { valid with
    untouched := fun id e held serves => ?_
    told := fun id serves => ?_
    kept := fun id wbuf bytes asked kept => ?_ }
  · obtain ⟨e', before, -⟩ := open_of_runPass sound pass held
    cases passed before (served serves) with
    | still goes =>
        obtain rfl := Option.some.inj (held.1.symm.trans goes.held)
        obtain ⟨empty, left⟩ := framed.untouched id e before (served serves)
        exact ⟨empty, fun data asked => left data (known asked)⟩
    | failed _ _ ends | moved _ _ _ ends => exact absurd held (ends.closed_after e)
  · by_cases opened : ∃ e, pool.Open id e
    · obtain ⟨e, held⟩ := opened
      obtain ⟨none, failed⟩ := framed.datagramsOf_open held (served serves)
      cases passed held (served serves) with
      | still goes => exact of_same (goes.same held) serves
      | failed status other ends =>
          refine .without ?_ ?_
          · rw [ends.datagramsOf, none]
            rfl
          · rw [ends.succeeded_iff]
            exact not_or.mpr ⟨failed, not_or.mpr ⟨List.not_mem_nil, other⟩⟩
      | moved effect datagram moves ends kept own =>
          refine .with datagram ?_ ?_ ends.closed_after fun data asked => ?_
          · rw [ends.datagramsOf, none, datagramsOf_of_datagram moves, List.nil_append]
          · exact ends.succeeded_iff.mpr (.inr (.inr rfl))
          · have before := known asked
            have write := (framed.asked id e held _ _ _ before).1.symm
            have left := (framed.untouched id e held (served serves)).2 data before
            exact Option.some.inj ((own write).symm.trans left)
    · exact of_same (runPass_same sound pass fun e held => opened ⟨e, held⟩) serves
  · have reads : Serves iodId id pool.log := ⟨_, wbuf, .inl rfl, known asked⟩
    have of_same (same : SameEvent id pool (pool.runPass pass)) :
        bytes = (datagramsOf iodId id (pool.runPass pass).log).flatten := by
      rw [same.datagramsOf]
      exact framed.kept id wbuf bytes (known asked) (same.readBuf ▸ kept)
    by_cases opened : ∃ e, pool.Open id e
    · obtain ⟨e, held⟩ := opened
      have read := (framed.asked id e held _ _ _ (known asked)).1.symm
      obtain ⟨none, -⟩ := framed.datagramsOf_open held reads
      cases passed held reads with
      | still goes => exact of_same (goes.same held)
      | failed status other ends kept' =>
          obtain rfl := Option.some.inj ((kept' read).symm.trans kept)
          rw [ends.datagramsOf, none]
          exact (framed.untouched id e held reads).1
      | moved effect datagram moves ends kept' =>
          obtain rfl := Option.some.inj ((kept' read).symm.trans kept)
          rw [ends.datagramsOf, none, datagramsOf_of_datagram moves]
          exact (List.append_nil _).symm
    · exact of_same (runPass_same sound pass fun e held => opened ⟨e, held⟩)

end Framed

/-! ## Whole histories -/

/-- Every datagram went through its descriptor for a read or a write of it. -/
theorem serves_of_datagram (ops : List Op) (iodId : Nat) :
    ∀ row ∈ datagrams iodId (execute ops new).log, Serves iodId row.1 (execute ops new).log := by
  have step (op : Op) (pool : Pool) (action : Action)
      (valid : pool.Traced ∧ ∀ row ∈ datagrams iodId pool.log, Serves iodId row.1 pool.log)
      (taken : Takes op pool action) :
      (pool.act action).Traced ∧
        ∀ row ∈ datagrams iodId (pool.act action).log, Serves iodId row.1 (pool.act action).log := by
    obtain ⟨traced, served⟩ := valid
    refine ⟨traced.act taken, fun row member => ?_⟩
    obtain ⟨added, log, emitted⟩ := (taken.change traced.toSound).grown
    have later {id : EventId} (serves : Serves iodId id pool.log) :
        Serves iodId id (pool.act action).log := by
      obtain ⟨kind, wbuf, io, asked⟩ := serves
      exact ⟨kind, wbuf, io, log ▸ List.mem_append_left added asked⟩
    have moved {id : EventId} {e : Pending} (held : pool.Open id e)
        (io : e.kind = .read ∨ e.kind = .write) (named : e.iod = some iodId) :
        Serves iodId id pool.log := by
      obtain ⟨wbuf, asked⟩ := (traced.traced id e held.1 e.kind (some iodId)).mpr ⟨rfl, named.symm⟩
      exact ⟨e.kind, wbuf, io, asked⟩
    have kindOf {id : EventId} {e : Pending} {kind : EventType} (held : pool.Open id e)
        (shaped : pool.shape id = some (kind, false)) : e.kind = kind := by
      rw [shape_of_held held.1, Option.some.injEq, Prod.mk.injEq] at shaped
      exact shaped.1
    rw [log, datagrams, List.filterMap_append, List.mem_append] at member
    rcases member with old | new
    · exact later (served row old)
    · obtain ⟨effect, member, moves⟩ := List.mem_filterMap.mp new
      apply later
      cases emitted effect member with
      | read held io =>
          cases taken with
          | tryRead shaped =>
              cases io with
              | received key _ _ named | sent key _ _ _ named =>
                  rw [Effect.datagram, Option.ite_none_right_eq_some, Option.some.injEq] at moves
                  rw [← moves.2]
                  exact moved held (.inl (kindOf held shaped)) (moves.1 ▸ named)
              | accepted => cases moves
      | wrote held io =>
          cases taken with
          | tryWrite shaped =>
              cases io with
              | received key _ _ named | sent key _ _ _ named =>
                  rw [Effect.datagram, Option.ite_none_right_eq_some, Option.some.injEq] at moves
                  rw [← moves.2]
                  exact moved held (.inr (kindOf held shaped)) (moves.1 ▸ named)
              | accepted => cases moves
      | _ => cases moves
  refine (execute_invariant step ops ⟨traced_new, ?_⟩).2
  exact fun row member => nomatch member

theorem Framed.execute {ops : List Op} (framed : Framed iodId pool)
    (along : Throughout (fun _ _ => True) (OnDatagrams iodId) ops pool) :
    Framed iodId (Pool.execute ops pool) := by
  have kept : Throughout (fun _ _ => True) (fun _ _ => True) ops pool ∧
      Framed iodId (Pool.execute ops pool) := by
    refine Throughout.invariant ?_ ?_ ?_ along framed
    · exact fun pool value framed => framed.quit value
    · exact fun pool pass framed onDatagrams => ⟨trivial, framed.runPass pass onDatagrams⟩
    · exact fun pool op outside framed _ => ⟨trivial, framed.perform outside⟩
  exact kept.2

/-- **A datagram for each success.** While a descriptor wraps a datagram socket, the events
that datagrams went through it for are its reads and writes that were called with success,
each once. A write sends its data, and a read's buffer is what came in for it. -/
theorem datagrams_exact (ops : List Op)
    (along : Throughout (fun _ _ => True) (OnDatagrams iodId) ops new) :
    let pool := execute ops new
    let events := (datagrams iodId pool.log).map Prod.fst
    events.Nodup ∧
      (∀ id, id ∈ events ↔ Serves iodId id pool.log ∧ Succeeded id pool.log) ∧
      (∀ id data datagram, .requested id .write (some iodId) (some data) ∈ pool.log →
        (id, datagram) ∈ datagrams iodId pool.log → datagram = data) ∧
      (∀ id wbuf bytes, .requested id .read (some iodId) wbuf ∈ pool.log →
        pool.readBufs.lookup id = some bytes →
          bytes = (datagramsOf iodId id pool.log).flatten) := by
  intro pool events
  have framed : Framed iodId pool := (framed_new iodId).execute along
  have member (id : EventId) : id ∈ events ↔ datagramsOf iodId id pool.log ≠ [] := by
    rw [← List.count_pos_iff, count_keys, List.length_pos_iff]
    rfl
  have serves {id : EventId} (listed : id ∈ events) : Serves iodId id pool.log := by
    obtain ⟨row, member, rfl⟩ := List.mem_map.mp listed
    exact serves_of_datagram ops iodId row member
  refine ⟨List.nodup_iff_count_le_one.mpr fun id => ?_, fun id => ?_, ?_, framed.kept⟩
  · rw [count_keys]
    change (datagramsOf iodId id pool.log).length ≤ 1
    by_cases listed : id ∈ events
    · cases framed.told id (serves listed) with
      | without none => exact absurd none ((member id).mp listed)
      | «with» datagram one => rw [one, List.length_singleton]
    · rw [member, not_not] at listed
      rw [listed]
      exact Nat.zero_le 1
  · constructor
    · intro listed
      refine ⟨serves listed, ?_⟩
      cases framed.told id (serves listed) with
      | without none => exact absurd none ((member id).mp listed)
      | «with» _ _ succeeded => exact succeeded
    · intro both
      rw [member]
      cases framed.told id both.1 with
      | without _ failed => exact absurd both.2 failed
      | «with» datagram one =>
          rw [one]
          exact List.cons_ne_nil _ _
  · intro id data datagram asked moved
    have listed : datagram ∈ datagramsOf iodId id pool.log := mem_valuesOf.mpr moved
    cases framed.told id ⟨_, _, .inr rfl, asked⟩ with
    | without none =>
        rw [none] at listed
        cases listed
    | «with» datagram' one _ _ own =>
        rw [one, List.mem_singleton] at listed
        rw [listed]
        exact own data asked

/-- A pass in which a datagram comes in and one goes out. -/
def exchangingPass : Pass :=
  { idlePass with reads := fun _ => .ok [7, 8], writes := fun _ => .ok 1 }

/-- A query and its answer, with a second read that finds nothing. -/
def queryOnce : List Op :=
  [.createIodUdp true, .sendUdp 1 (localhost 53) [1] (-1) true 0, .read 1 (-1) 0,
    .run (-1) 0 [exchangingPass], .read 1 5 0, .run 0 0 [idlePass]]

theorem datagrams_exact_query :
    let events := (datagrams 1 (execute queryOnce new).log).map Prod.fst
    events.Nodup ∧ ∀ id, id ∈ events ↔
      Serves 1 id (execute queryOnce new).log ∧ Succeeded id (execute queryOnce new).log := by
  have along : Throughout (fun _ _ => True) (OnDatagrams 1) queryOnce new := by decide
  obtain ⟨distinct, exact', -⟩ := datagrams_exact queryOnce along
  exact ⟨distinct, exact'⟩

end Pool

end Wnr.Nsock
