import Wnr.Nsock.PoolActions

/-! # What an action does to the events

Handlers are called, silenced and dropped in several places, each with its own use of
the two flags and of the table. All of them come down to five kinds of change
(`Pool.EventChange`), once the flags of the events that are held make sense
(`Pool.Sound`), and every entry of the log has its action (`Pool.Emission`).
-/

namespace Wnr.Nsock

open Net

/-! ## The outcome of an event -/

/-- How an event ended: its handler was called, or it was cancelled silently. -/
inductive Outcome where
  | called (status : EventStatus)
  | silenced
deriving DecidableEq

/-- The outcome that an effect gives to an event. -/
def Effect.outcome (event : EventId) : Effect → Option Outcome
  | .called owner _ status => if owner = event then some (.called status) else none
  | .silenced ended => if ended = event then some .silenced else none
  | _ => none

/-- An effect that ends no event. -/
def Effect.Silent (effect : Effect) : Prop := ∀ event, effect.outcome event = none

/-- The event that an effect is about; a receipt is about a result. -/
def Effect.event : Effect → Option EventId
  | .requested event _ _ _ | .addressed event _ | .called event _ _ | .silenced event
  | .received event _ _ | .accepted event _ _ | .sent event _ _ _ => some event
  | .result _ => none

/-- The outcomes of an event in a log. -/
def outcomes (event : EventId) (log : List Effect) : List Outcome :=
  log.filterMap (·.outcome event)

theorem outcomes_append (event : EventId) (log added : List Effect) :
    outcomes event (log ++ added) = outcomes event log ++ outcomes event added :=
  List.filterMap_append

theorem silent_of_receipts {added : List Effect} {emits : Effect → Prop}
    (receipts : ∀ effect ∈ added, (∃ receipt, effect = .result receipt) ∧ emits effect) :
    ∀ effect ∈ added, effect.Silent := by
  intro effect member
  obtain ⟨⟨receipt, rfl⟩, -⟩ := receipts effect member
  exact fun _ => rfl

theorem outcomes_of_silent {added : List Effect} (silent : ∀ effect ∈ added, effect.Silent)
    (event : EventId) : outcomes event added = [] :=
  List.filterMap_eq_nil_iff.mpr fun effect member => silent effect member event

namespace Pool

/-! ## Changes -/

/-- The id was given to an event. -/
def Created (pool : Pool) (id : Nat) : Prop := 1 ≤ id ∧ id ≤ pool.eventCounter

instance (pool : Pool) (id : Nat) : Decidable (pool.Created id) :=
  inferInstanceAs (Decidable (1 ≤ id ∧ id ≤ pool.eventCounter))

/-- The events that are held and those that the log mentions were created. The open
ones hold their caller's handler, are not cancelled and are as they were requested. -/
structure Sound (pool : Pool) : Prop where
  created : ∀ id e, pool.pending.lookup id = some e → pool.Created id
  mentioned : ∀ effect ∈ pool.log, ∀ id, effect.event = some id → pool.Created id
  live : ∀ id e, pool.Open id e → e.handler = .caller id ∧ e.cancelled = false
  asked : ∀ id e, pool.Open id e → ∀ kind iod wbuf,
    .requested id kind iod wbuf ∈ pool.log → kind = e.kind ∧ iod = e.iod

/-- The ways in which an action changes the events and the log. -/
inductive EventChange (emits : Effect → Prop) (pool after : Pool) : Prop
  | quiet (pending : after.pending = pool.pending)
      (eventCounter : after.eventCounter = pool.eventCounter)
      (added : List Effect)
      (receipts : ∀ effect ∈ added, (∃ receipt, effect = .result receipt) ∧ emits effect)
      (log : after.log = pool.log ++ added)
  /-- A new event under the next id. -/
  | created (e : Pending) (handler : e.handler = .caller (pool.eventCounter + 1))
      (live : e.cancelled = false ∧ e.done = false)
      (pending : after.pending = pool.pending.insert (pool.eventCounter + 1) e)
      (eventCounter : after.eventCounter = pool.eventCounter + 1)
      (emitted : emits (.requested (pool.eventCounter + 1) e.kind e.iod e.wbuf))
      (added : List Effect)
      (addresses : ∀ effect ∈ added,
        (∃ addr, effect = .addressed (pool.eventCounter + 1) addr) ∧ emits effect)
      (log : after.log =
        pool.log ++ .requested (pool.eventCounter + 1) e.kind e.iod e.wbuf :: added)
  /-- The buffers of a held event change. -/
  | moved (id : EventId) (e : Pending) (buf : List UInt8) (wbuf : Option (List UInt8))
      (effect : Effect) (io : IoChange pool id e buf wbuf effect)
      (held : pool.pending.lookup id = some e)
      (pending : after.pending = pool.pending.insert id { e with buf, wbuf })
      (eventCounter : after.eventCounter = pool.eventCounter)
      (emitted : emits effect) (log : after.log = pool.log ++ [effect])
  /-- An open event ends with its one outcome. -/
  | ended (id : EventId) (e : Pending) (held : pool.Open id e)
      (others : ∀ other, other ≠ id → after.pending.lookup other = pool.pending.lookup other)
      (closed : ∀ e', ¬ after.Open id e')
      (eventCounter : after.eventCounter = pool.eventCounter)
      (added : List Effect)
      (receipts : ∀ effect ∈ added, (∃ receipt, effect = .result receipt) ∧ emits effect)
      (last : Effect) (outcome : last = .silenced id ∨ ∃ status, last = .called id id status)
      (emitted : emits last) (log : after.log = pool.log ++ (added ++ [last]))
  /-- An event that is not open is dropped or cancelled once more. -/
  | forgotten (id : EventId) (held : ∀ e, ¬ pool.Open id e)
      (others : ∀ other, other ≠ id → after.pending.lookup other = pool.pending.lookup other)
      (closed : ∀ e, after.pending.lookup id = some e → pool.Created id ∧ e.done = true)
      (eventCounter : after.eventCounter = pool.eventCounter) (log : after.log = pool.log)

theorem IoChange.silent {pool : Pool} {id : EventId} {e : Pending} {buf : List UInt8}
    {wbuf : Option (List UInt8)} {effect : Effect} (io : IoChange pool id e buf wbuf effect) :
    effect.Silent := by
  intro event
  cases io <;> rfl

theorem IoChange.event {pool : Pool} {id : EventId} {e : Pending} {buf : List UInt8}
    {wbuf : Option (List UInt8)} {effect : Effect} (io : IoChange pool id e buf wbuf effect) :
    effect.event = some id := by
  cases io <;> rfl

namespace EventChange

variable {pool after : Pool} {emits : Effect → Prop}

theorem of_same (pending : after.pending = pool.pending)
    (eventCounter : after.eventCounter = pool.eventCounter) (log : after.log = pool.log) :
    EventChange emits pool after :=
  .quiet pending eventCounter [] (List.forall_mem_nil _) (by rw [log, List.append_nil])

theorem of_view (same : SameView pool after) : EventChange emits pool after :=
  .of_same same.pending same.eventCounter same.log

/-- The change of a pool that only looks different. -/
theorem trans_view {last : Pool} (change : EventChange emits pool after)
    (same : SameView after last) : EventChange emits pool last := by
  have looks (id : EventId) : last.pending.lookup id = after.pending.lookup id := by
    rw [same.pending]
  cases change with
  | quiet pending counter added silent log =>
      exact .quiet (same.pending.trans pending) (same.eventCounter.trans counter) added silent
        (same.log.trans log)
  | created e handler live pending counter emitted added silent log =>
      exact .created e handler live (same.pending.trans pending)
        (same.eventCounter.trans counter) emitted added silent (same.log.trans log)
  | moved id e buf wbuf effect io held pending counter emitted log =>
      exact .moved id e buf wbuf effect io held (same.pending.trans pending)
        (same.eventCounter.trans counter) emitted (same.log.trans log)
  | ended id e held others closed counter added silent effect outcome emitted log =>
      refine .ended id e held (fun other ne => (looks other).trans (others other ne)) ?_
        (same.eventCounter.trans counter) added silent effect outcome emitted (same.log.trans log)
      rintro e' ⟨found, live⟩
      exact closed e' ⟨(looks id).symm.trans found, live⟩
  | forgotten id held others closed counter log =>
      refine .forgotten id held (fun other ne => (looks other).trans (others other ne)) ?_
        (same.eventCounter.trans counter) (same.log.trans log)
      intro e found
      exact closed e ((looks id).symm.trans found)

/-- An event that is dropped with a call of its handler has ended. -/
theorem call_drop (sound : pool.Sound) {id : EventId} {e : Pending}
    (held : pool.Open id e) {middle : Pool} (pending : middle.pending = pool.pending)
    (eventCounter : middle.eventCounter = pool.eventCounter) {added : List Effect}
    (receipts : ∀ effect ∈ added, (∃ receipt, effect = .result receipt) ∧ emits effect)
    (log : middle.log = pool.log ++ added) {status : EventStatus}
    (emitted : emits (.called id id status)) :
    EventChange emits pool ((middle.drop id).call e.handler id status) := by
  have handler := (sound.live id e held).1
  refine .ended id e held ?_ ?_ ((call_eventCounter ..).trans eventCounter) added receipts
    (.called id id status) (.inr ⟨status, rfl⟩) emitted ?_
  · intro other ne
    rw [call_pending, lookup_drop_ne middle ne, pending]
  · apply not_open_of_gone
    rw [call_pending, lookup_drop]
  · rw [call_log, handler, drop_log, log, List.append_assoc]
    rfl

/-- Dropping an event that is not open. -/
theorem drop {id : EventId} (held : ∀ e, ¬ pool.Open id e) :
    EventChange emits pool (pool.drop id) := by
  refine .forgotten id held (fun other ne => lookup_drop_ne pool ne) ?_ rfl rfl
  intro e found
  rw [lookup_drop] at found
  cases found

theorem cancel (sound : pool.Sound) (id : EventId) (notify : Bool)
    (notified : ∀ e, pool.Open id e → notify = true → emits (.called id id .cancelled))
    (silenced : ∀ e, pool.Open id e → notify = false → emits (.silenced id)) :
    EventChange emits pool (pool.cancel id notify).2 := by
  rcases cancel_cases pool id notify with ⟨missed, -⟩ | ⟨e, ended, found, done, cases⟩
  · rw [missed]
    exact .of_view .rfl
  have others (other : EventId) (ne : other ≠ id) :
      (pool.put id ended).pending.lookup other = pool.pending.lookup other :=
    lookup_put_ne pool ne ended
  have closed (e' : Pending) (found' : (pool.put id ended).pending.lookup id = some e') :
      e'.done = true := by
    rw [lookup_put] at found'
    rw [← Option.some.inj found']
    exact done
  have notOpen (e' : Pending) : ¬ (pool.put id ended).Open id e' := by
    rintro ⟨found', live⟩
    rw [closed e' found'] at live
    cases live
  rcases cases with ⟨again, was⟩ | ⟨live, ⟨calls, notify⟩ | ⟨quietly, notify⟩⟩
  · rw [again]
    refine .forgotten id ?_ others (fun e' found' => ⟨sound.created id e found, closed e' found'⟩)
      rfl rfl
    rintro e' ⟨found', live⟩
    obtain rfl := Option.some.inj (found.symm.trans found')
    rw [was] at live
    cases live
  · rw [calls]
    have handler := (sound.live id e ⟨found, live⟩).1
    refine .ended id e ⟨found, live⟩ (fun other ne => ?_) (fun e' => ?_) (call_eventCounter ..) []
      (List.forall_mem_nil _) (.called id id .cancelled) (.inr ⟨_, rfl⟩)
      (notified e ⟨found, live⟩ notify) ?_
    · rw [call_pending, others other ne]
    · rintro ⟨found', live'⟩
      rw [call_pending] at found'
      exact notOpen e' ⟨found', live'⟩
    · rw [call_log, handler]
      rfl
  · rw [quietly]
    exact .ended id e ⟨found, live⟩ others notOpen rfl [] (List.forall_mem_nil _)
      (.silenced id) (.inl rfl) (silenced e ⟨found, live⟩ notify) rfl

theorem killEvent (sound : pool.Sound) (id : EventId)
    (emitted : ∀ e, pool.Open id e → emits (.called id id .kill)) :
    EventChange emits pool (pool.killEvent id) := by
  rcases killEvent_cases pool id with ⟨same, cancelled⟩ | ⟨e, held, same⟩
  · refine (EventChange.drop ?_).trans_view same
    intro e held
    have live := (sound.live id e held).2
    rw [cancelled e held] at live
    cases live
  · exact (call_drop sound held rfl rfl (List.forall_mem_nil _) (List.append_nil _).symm
      (emitted e held)).trans_view same

theorem deliver (sound : pool.Sound) (id : EventId) {status : EventStatus}
    (emitted : ∀ e, pool.Open id e → emits (.called id id status)) :
    EventChange emits pool (pool.deliver id status) := by
  rcases deliver_cases pool id status with same | ⟨e, held, -, same⟩
  · exact .of_view same
  · exact (call_drop sound held rfl rfl (List.forall_mem_nil _) (List.append_nil _).symm
      (emitted e held)).trans_view same

end EventChange

/-! ## The entries of the log -/

/-- The entries that an action of an operation may add to the log of a pool. -/
inductive Emission (pool : Pool) (op : Op) : Action → Effect → Prop
  | requested {kind : EventType} {iod : Option Nat} {wbuf : Option (List UInt8)}
      (asked : op.writeRequest = none ∧ kind ≠ .write ∧ wbuf = none ∨
        ∃ iodId data, op.writeRequest = some (iodId, data) ∧ kind = .write ∧ iod = some iodId ∧
          wbuf = some data) :
      Emission pool op (.call op) (.requested (pool.eventCounter + 1) kind iod wbuf)
  | addressed {iodId : Nat} {addr : SocketAddr} {data : List UInt8} {timeoutMs : Int}
      {succeeds : Bool} {now : Instant}
      (asked : op = .sendUdp iodId addr data timeoutMs succeeds now) :
      Emission pool op (.call op) (.addressed (pool.eventCounter + 1) addr)
  | cancelled {id : EventId} {e : Pending} (asked : op = .cancel id true) (held : pool.Open id e) :
      Emission pool op (.call op) (.called id id .cancelled)
  | silenced {id : EventId} {e : Pending} (asked : op = .cancel id false) (held : pool.Open id e) :
      Emission pool op (.call op) (.silenced id)
  | refused {order : List Nat} {result : ConnectResult}
      (target : pool.connectTarget order result.iod = none) :
      Emission pool op (.receive order (.connectResult result))
        (.result ⟨result, pool.isUndelivered result.attempt, none, none⟩)
  | taken {order : List Nat} {result : ConnectResult} {evid : EventId}
      (target : pool.connectTarget order result.iod = some evid) :
      Emission pool op (.receive order (.connectResult result))
        (.result ⟨result, pool.isUndelivered result.attempt, some evid,
          result.stream.filter fun _ => (pool.iods.lookup result.iod).isSome⟩)
  | connected {order : List Nat} {result : ConnectResult} {evid : EventId}
      (target : pool.connectTarget order result.iod = some evid) :
      Emission pool op (.receive order (.connectResult result)) (.called evid evid result.status)
  | read {id : EventId} {outcome : SocketResult (List UInt8)} {e : Pending} {buf : List UInt8}
      {wbuf : Option (List UInt8)} {effect : Effect} (held : pool.Open id e)
      (io : IoChange pool id e buf wbuf effect) : Emission pool op (.tryRead id outcome) effect
  | wrote {id : EventId} {outcome : SocketResult Nat} {e : Pending} {buf : List UInt8}
      {wbuf : Option (List UInt8)} {effect : Effect} (held : pool.Open id e)
      (io : IoChange pool id e buf wbuf effect) : Emission pool op (.tryWrite id outcome) effect
  | delivered {id : EventId} {status : EventStatus} {e : Pending} (held : pool.Open id e)
      (fits : Deliverable e.kind status) :
      Emission pool op (.deliver id status) (.called id id status)
  | killed {id : EventId} {e : Pending} (held : pool.Open id e) :
      Emission pool op (.kill id) (.called id id .kill)

variable {pool after : Pool} {emits : Effect → Prop} {op : Op}

/-- Only the next event is requested. -/
theorem Emission.requested_cases {action : Action} {id : EventId} {kind : EventType}
    {iod : Option Nat} {wbuf : Option (List UInt8)}
    (emission : Emission pool op action (.requested id kind iod wbuf)) :
    id = pool.eventCounter + 1 ∧ action = .call op ∧
      (op.writeRequest = none ∧ kind ≠ .write ∧ wbuf = none ∨
        ∃ iodId data, op.writeRequest = some (iodId, data) ∧ kind = .write ∧ iod = some iodId ∧
          wbuf = some data) := by
  cases emission with
  | requested asked => exact ⟨rfl, rfl, asked⟩
  | read held io => cases io
  | wrote held io => cases io

/-- Only the datagram of the next event is addressed. -/
theorem Emission.addressed_cases {action : Action} {id : EventId} {addr : SocketAddr}
    (emission : Emission pool op action (.addressed id addr)) :
    id = pool.eventCounter + 1 ∧ action = .call op ∧ ∃ iodId data timeoutMs succeeds now,
      op = .sendUdp iodId addr data timeoutMs succeeds now := by
  cases emission with
  | addressed asked => exact ⟨rfl, rfl, _, _, _, _, _, asked⟩
  | read held io => cases io
  | wrote held io => cases io

/-- Only bytes of an open event are accepted. -/
theorem Emission.open_of_accepted {action : Action} {id : EventId} {iodId : Nat}
    {bytes : List UInt8} (emission : Emission pool op action (.accepted id iodId bytes)) :
    ∃ e, pool.Open id e := by
  cases emission with
  | read held io | wrote held io =>
      cases io
      exact ⟨_, held⟩

theorem EventChange.receive (sound : pool.Sound) (order : List Nat) (cmd : Cmd) :
    EventChange (Emission pool op (.receive order cmd)) pool (pool.receive order cmd) := by
  cases cmd with
  | quit => exact .of_view ⟨rfl, rfl, rfl, rfl⟩
  | connectResult result =>
      have only {receipt : Receipt}
          (emitted : Emission pool op (.receive order (.connectResult result)) (.result receipt)) :
          ∀ effect ∈ [Effect.result receipt], (∃ receipt, effect = .result receipt) ∧
            Emission pool op (.receive order (.connectResult result)) effect :=
        List.forall_mem_singleton.mpr ⟨⟨receipt, rfl⟩, emitted⟩
      cases target : pool.connectTarget order result.iod with
      | none =>
          rw [receive_result_of_none target]
          exact .quiet rfl rfl [_] (only (.refused target)) rfl
      | some evid =>
          obtain ⟨e, held, -, -, received⟩ := receive_result_of_some target
          rw [received, if_neg (by rw [(sound.live evid e held).2]; exact Bool.false_ne_true)]
          have log (effect : Effect) :
              ((pool.install result).note effect).log = pool.log ++ [effect] := by
            rw [note_log, install_log]
          refine .call_drop sound held ?_ ?_ (only (.taken target)) (log _) (.connected target)
          · rw [note_pending, install_pending]
          · rw [note_eventCounter, install_eventCounter]

theorem Progress.change {id : EventId} (progress : Progress pool id after)
    (emitted : ∀ e buf wbuf effect, pool.pending.lookup id = some e →
      IoChange pool id e buf wbuf effect → emits effect) : EventChange emits pool after := by
  cases progress with
  | still same =>
      rw [same]
      exact .of_view .rfl
  | moved e buf wbuf effect io held pending eventCounter log =>
      exact .moved id e buf wbuf effect io held pending eventCounter
        (emitted e buf wbuf effect held io) log

theorem CallChange.change (sound : pool.Sound) (change : CallChange op pool after) :
    EventChange (Emission pool op (.call op)) pool after := by
  cases change with
  | quiet same => exact .of_view same
  | descriptor iod adopted same => exact .of_same same.pending same.eventCounter same.log
  | request kind iod deadline wbuf target lineRead asked same =>
      exact (EventChange.created _ rfl ⟨rfl, rfl⟩ rfl rfl (.requested asked) []
        (List.forall_mem_nil _) rfl).trans_view same
  | associate iodId addr succeeds asked same =>
      exact .of_same same.pending same.eventCounter same.log
  | datagram iodId addr data timeoutMs succeeds now asked same =>
      have request : op.writeRequest = some (iodId, data) := by rw [asked]; rfl
      refine (EventChange.created _ rfl ⟨rfl, rfl⟩ rfl rfl
        (.requested (.inr ⟨iodId, data, request, rfl, rfl, rfl⟩)) [_] ?_
        (List.append_assoc _ [_] [_])).trans_view same
      exact List.forall_mem_singleton.mpr ⟨⟨addr, rfl⟩, .addressed asked⟩
  | cancel id notify asked same =>
      refine (EventChange.cancel sound id notify ?_ ?_).trans_view same
      · rintro e held rfl
        exact .cancelled asked held
      · rintro e held rfl
        exact .silenced asked held

/-- **Every action of an operation is one of the changes.** -/
theorem Takes.change (sound : pool.Sound) {action : Action} (taken : Takes op pool action) :
    EventChange (Emission pool op action) pool (pool.act action) := by
  cases taken with
  | call single => exact (perform_change single pool).change sound
  | arrive | arriveRun => exact .of_view (arrive_view pool _ _)
  | takeChannel | quitRun | quitDelete => exact .of_view ⟨rfl, rfl, rfl, rfl⟩
  | dropIod | dropIods => exact .of_same rfl rfl rfl
  | receive => exact .receive sound _ _
  | tryRead held =>
      exact (tryRead_progress pool _ _).change fun _ _ _ _ found io =>
        .read ⟨found, done_of_shape held found⟩ io
  | tryWrite held =>
      exact (tryWrite_progress pool _ _).change fun _ _ _ _ found io =>
        .wrote ⟨found, done_of_shape held found⟩ io
  | deliver deliverable =>
      exact .deliver sound _ fun e held => .delivered held (deliverable e held.1)
  | killOfIod | kill => exact .killEvent sound _ fun _ held => .killed held

/-! ## What a change keeps -/

theorem sound_new : new.Sound where
  created _ _ held := nomatch held
  mentioned _ member := nomatch member
  live _ _ held := nomatch held.1
  asked _ _ held := nomatch held.1

theorem created_congr (same : after.eventCounter = pool.eventCounter) {id : EventId} :
    after.Created id ↔ pool.Created id := by
  rw [Created, Created, same]

theorem created_succ (counter : after.eventCounter = pool.eventCounter + 1) {id : Nat} :
    after.Created id ↔ id = pool.eventCounter + 1 ∨ pool.Created id := by
  rw [Created, Created, counter]
  omega

theorem not_created_succ (pool : Pool) : ¬ pool.Created (pool.eventCounter + 1) :=
  fun created => Nat.not_succ_le_self _ created.2

namespace EventChange

/-- An event that is open after a change was open before, or had its buffers changed, or
is the new one. -/
theorem open_cases (change : EventChange emits pool after) {id : EventId} {e : Pending}
    (held : after.Open id e) :
    pool.Open id e ∨
      (∃ e' buf wbuf effect, pool.Open id e' ∧ IoChange pool id e' buf wbuf effect ∧
        e = { e' with buf, wbuf } ∧ after.eventCounter = pool.eventCounter ∧
        after.log = pool.log ++ [effect]) ∨
      id = pool.eventCounter + 1 ∧ after.eventCounter = pool.eventCounter + 1 ∧
        e.handler = .caller id ∧ e.cancelled = false ∧
        ∃ added, after.log = pool.log ++ .requested id e.kind e.iod e.wbuf :: added := by
  cases change with
  | quiet pending counter added silent log =>
      rw [Open, pending] at held
      exact .inl held
  | created e' handler live pending counter emitted added addresses log =>
      by_cases same : id = pool.eventCounter + 1
      · subst same
        rw [Open, pending, AList.lookup_insert] at held
        obtain rfl := Option.some.inj held.1
        exact .inr (.inr ⟨rfl, counter, handler, live.1, added, log⟩)
      · rw [Open, pending, AList.lookup_insert_ne same] at held
        exact .inl held
  | moved other e' buf wbuf effect io held' pending counter emitted log =>
      rw [Open, pending] at held
      by_cases same : id = other
      · subst same
        rw [AList.lookup_insert] at held
        obtain ⟨found, live⟩ := held
        obtain rfl := Option.some.inj found
        exact .inr (.inl ⟨e', buf, wbuf, effect, ⟨held', live⟩, io, rfl, counter, log⟩)
      · rw [AList.lookup_insert_ne same] at held
        exact .inl held
  | ended other e' held' others closed counter added silent last outcome emitted log =>
      by_cases same : id = other
      · exact absurd (same ▸ held) (closed e)
      · rw [Open, others id same] at held
        exact .inl held
  | forgotten other held' others closed counter log =>
      by_cases same : id = other
      · have done := (closed e (same ▸ held.1)).2
        rw [held.2] at done
        cases done
      · rw [Open, others id same] at held
        exact .inl held

/-- A change creates at most the next event. -/
theorem created_of (change : EventChange emits pool after) {id : Nat} (created : pool.Created id) :
    after.Created id := by
  cases change with
  | quiet _ counter | moved _ _ _ _ _ _ _ _ counter | ended _ _ _ _ _ counter
  | forgotten _ _ _ _ counter => exact (created_congr counter).mpr created
  | created _ _ _ _ counter => exact (created_succ counter).mpr (.inr created)

theorem created_held (change : EventChange emits pool after) (sound : pool.Sound) (id : EventId)
    (e : Pending) (held : after.pending.lookup id = some e) : after.Created id := by
  cases change with
  | quiet pending counter added receipts log =>
      rw [pending] at held
      exact (created_congr counter).mpr (sound.created id e held)
  | created e' handler live pending counter emitted added addresses log =>
      rw [pending] at held
      rw [created_succ counter]
      by_cases same : id = pool.eventCounter + 1
      · exact .inl same
      · rw [AList.lookup_insert_ne same] at held
        exact .inr (sound.created id e held)
  | moved other e' buf wbuf effect io held' pending counter emitted log =>
      rw [pending] at held
      rw [created_congr counter]
      by_cases same : id = other
      · exact same ▸ sound.created other e' held'
      · rw [AList.lookup_insert_ne same] at held
        exact sound.created id e held
  | ended other e' held' others closed counter added receipts last outcome emitted log =>
      rw [created_congr counter]
      by_cases same : id = other
      · exact same ▸ sound.created other e' held'.1
      · rw [others id same] at held
        exact sound.created id e held
  | forgotten other held' others closed counter log =>
      rw [created_congr counter]
      by_cases same : id = other
      · rw [same] at held ⊢
        exact (closed e held).1
      · rw [others id same] at held
        exact sound.created id e held

/-- An entry that a change adds to the log is about no event, about the new one, or
about one that was held. -/
theorem mentioned_cases (change : EventChange emits pool after) {effect : Effect}
    (member : effect ∈ after.log) :
    effect ∈ pool.log ∨ effect.event = none ∨
      (∃ id e, effect.event = some id ∧ pool.pending.lookup id = some e ∧
        (∀ kind iod wbuf, effect ≠ .requested id kind iod wbuf)) ∨
      effect.event = some (pool.eventCounter + 1) ∧ after.eventCounter = pool.eventCounter + 1 ∧
        ∃ e, after.pending.lookup (pool.eventCounter + 1) = some e ∧ ∀ kind iod wbuf,
          effect = .requested (pool.eventCounter + 1) kind iod wbuf → kind = e.kind ∧ iod = e.iod := by
  cases change with
  | quiet pending counter added receipts log =>
      rw [log, List.mem_append] at member
      refine member.imp_right fun new => .inl ?_
      obtain ⟨⟨receipt, rfl⟩, -⟩ := receipts effect new
      rfl
  | created e handler live pending counter emitted added addresses log =>
      rw [log, List.mem_append, List.mem_cons] at member
      have held : after.pending.lookup (pool.eventCounter + 1) = some e := by
        rw [pending, AList.lookup_insert]
      rcases member with old | rfl | new
      · exact .inl old
      · refine .inr (.inr (.inr ⟨rfl, counter, e, held, ?_⟩))
        rintro kind iod wbuf same
        cases same
        exact ⟨rfl, rfl⟩
      · obtain ⟨⟨addr, rfl⟩, -⟩ := addresses effect new
        exact .inr (.inr (.inr ⟨rfl, counter, e, held, nofun⟩))
  | moved id e buf wbuf effect' io held pending counter emitted log =>
      rw [log, List.mem_append, List.mem_singleton] at member
      rcases member with old | rfl
      · exact .inl old
      · refine .inr (.inr (.inl ⟨id, e, io.event, held, ?_⟩))
        rintro kind iod wbuf rfl
        cases io
  | ended id e held others closed counter added receipts last outcome emitted log =>
      rw [log, List.mem_append, List.mem_append, List.mem_singleton] at member
      rcases member with old | new | rfl
      · exact .inl old
      · obtain ⟨⟨receipt, rfl⟩, -⟩ := receipts effect new
        exact .inr (.inl rfl)
      · rcases outcome with rfl | ⟨status, rfl⟩
        · exact .inr (.inr (.inl ⟨id, e, rfl, held.1, nofun⟩))
        · exact .inr (.inr (.inl ⟨id, e, rfl, held.1, nofun⟩))
  | forgotten id held others closed counter log =>
      rw [log] at member
      exact .inl member

/-- **Every change keeps a pool sound.** -/
theorem sound (change : EventChange emits pool after) (sound : pool.Sound) : after.Sound := by
  refine ⟨change.created_held sound, ?_, ?_, ?_⟩
  · intro effect member id about
    rcases change.mentioned_cases member with old | none | ⟨id', e, about', held, -⟩ |
        ⟨about', counter, -⟩
    · exact change.created_of (sound.mentioned effect old id about)
    · rw [none] at about
      cases about
    · obtain rfl := Option.some.inj (about.symm.trans about')
      exact change.created_of (sound.created id e held)
    · obtain rfl := Option.some.inj (about.symm.trans about')
      exact (created_succ counter).mpr (.inl rfl)
  · intro id e held
    rcases change.open_cases held with before | ⟨e', _, _, _, before, -, rfl, -⟩ |
        ⟨-, -, handler, live, -⟩
    · exact sound.live id e before
    · exact sound.live id e' before
    · exact ⟨handler, live⟩
  · intro id e held kind iod wbuf member
    rcases change.mentioned_cases member with old | none | ⟨id', e', about, -, other⟩ |
        ⟨about, -, e', held', same⟩
    · rcases change.open_cases held with before | ⟨e', _, _, _, before, -, rfl, -⟩ | ⟨rfl, -⟩
      · exact sound.asked id e before kind iod wbuf old
      · exact sound.asked id e' before kind iod wbuf old
      · exact absurd (sound.mentioned _ old _ rfl) (not_created_succ pool)
    · cases none
    · obtain rfl := Option.some.inj about
      exact absurd rfl (other kind iod wbuf)
    · obtain rfl := Option.some.inj about
      obtain rfl := Option.some.inj (held'.symm.trans held.1)
      exact same kind iod wbuf rfl

/-- A change adds to the log what its action emits. -/
theorem grown (change : EventChange emits pool after) :
    ∃ added, after.log = pool.log ++ added ∧ ∀ effect ∈ added, emits effect := by
  cases change with
  | quiet _ _ added receipts log =>
      exact ⟨added, log, fun effect member => (receipts effect member).2⟩
  | created e _ _ _ _ emitted added addresses log =>
      refine ⟨_, log, ?_⟩
      rw [List.forall_mem_cons]
      exact ⟨emitted, fun effect member => (addresses effect member).2⟩
  | moved _ _ _ _ effect _ _ _ _ emitted log =>
      exact ⟨[effect], log, List.forall_mem_singleton.mpr emitted⟩
  | ended _ _ _ _ _ _ added receipts last _ emitted log =>
      refine ⟨added ++ [last], log, fun effect member => ?_⟩
      rcases List.mem_append.mp member with early | only
      · exact (receipts effect early).2
      · exact List.mem_singleton.mp only ▸ emitted
  | forgotten _ _ _ _ _ log => exact ⟨[], log.trans (List.append_nil _).symm, List.forall_mem_nil _⟩

end EventChange

/-! ## What operations add to the log -/

/-- An operation adds to the log what its actions emit. -/
theorem perform_emitted (sound : pool.Sound) (op : Op) :
    ∃ added, (perform op pool).2.log = pool.log ++ added ∧ ∀ effect ∈ added,
      ∃ state action, state.Sound ∧ Takes op state action ∧ Emission state op action effect := by
  have along : OpAlong (fun _ _ => True) (fun _ _ => True) op pool :=
    opAlong_of_forall (fun _ _ => trivial) (fun _ _ => trivial) op pool
  refine ((perform_steps along).invariant (fun reached => reached.Sound ∧
    ∃ added, reached.log = pool.log ++ added ∧ ∀ effect ∈ added,
      ∃ state action, state.Sound ∧ Takes op state action ∧ Emission state op action effect)
    ⟨sound, [], (List.append_nil _).symm, List.forall_mem_nil _⟩ ?_).2
  rintro state action ⟨sound, added, log, early⟩ ⟨taken, -⟩
  have change := taken.change sound
  obtain ⟨more, log', emitted⟩ := change.grown
  refine ⟨change.sound sound, added ++ more, by rw [log', log, List.append_assoc], ?_⟩
  intro effect member
  rcases List.mem_append.mp member with old | new
  · exact early effect old
  · exact ⟨state, action, sound, taken, emitted effect new⟩

end Pool

end Wnr.Nsock
