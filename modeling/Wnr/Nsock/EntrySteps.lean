import Wnr.Nsock.EventChange
import Wnr.Nsock.Passes

/-! # What an action does to what the pool holds for an event

The entry of an event and the buffer that is kept for its caller, under every action
(`Pool.Takes.entry`). A buffer is kept only for an event that is not held any more
(`Pool.Retained`), and outside the loop no entry of an open event changes
(`Pool.open_of_perform`).
-/

namespace Wnr.Nsock

/-- The event that an operation requests, and the descriptor it names. -/
def Op.request : Op → Option (EventType × Option Nat)
  | .connectTcp iodId _ _ _ => some (.connect, some iodId)
  | .read iodId _ _ | .readBytes iodId _ _ _ | .readlines iodId _ _ _ => some (.read, some iodId)
  | .write iodId _ _ _ | .writeFmt iodId _ _ _ | .printf iodId _ _ _ | .sendUdp iodId _ _ _ _ _ =>
      some (.write, some iodId)
  | .timerCreate _ _ => some (.timer, none)
  | _ => none

namespace Pool

variable {pool after : Pool} {op : Op} {id : EventId} {emits : Effect → Prop}

/-! ## Single actions -/

/-- The action attempts the socket I/O of an event. -/
def Action.Attempts (id : EventId) : Action → Prop
  | .tryRead event _ | .tryWrite event _ => event = id
  | _ => False

/-- What an action can do to the entry and the read buffer of an event. -/
inductive EntryStep (pool : Pool) (action : Action) (id : EventId) (after : Pool) : Prop
  | kept (held : after.pending.lookup id = pool.pending.lookup id)
      (readBuf : after.readBufs.lookup id = pool.readBufs.lookup id)
  | created (fresh : id = pool.eventCounter + 1) (e : Pending)
      (held : after.pending.lookup id = some e)
      (empty : e.buf = [] ∧ e.done = false)
      (readBuf : after.readBufs.lookup id = pool.readBufs.lookup id)
  | moved (attempts : action.Attempts id) (e : Pending) (buf : List UInt8)
      (wbuf : Option (List UInt8)) (live : pool.Open id e)
      (held : after.pending.lookup id = some { e with buf, wbuf })
      (readBuf : after.readBufs.lookup id = pool.readBufs.lookup id)
  | cancelled (notify : Bool) (asked : action = .call (.cancel id notify)) (e : Pending)
      (handler : Handler) (found : pool.pending.lookup id = some e)
      (held : after.pending.lookup id = some { e with cancelled := true, done := true, handler })
      (readBuf : after.readBufs.lookup id = pool.readBufs.lookup id)
  | delivered (e : Pending) (live : pool.Open id e) (held : after.pending.lookup id = none)
      (readBuf : after.readBufs.lookup id =
        if e.kind = .read then some e.buf else pool.readBufs.lookup id)
  | killed (asked : action = .kill id) (held : after.pending.lookup id = none)
      (readBuf : after.readBufs.lookup id = none)
  | taken (asked : action = .call (.takeReadBuf id))
      (held : after.pending.lookup id = pool.pending.lookup id)
      (readBuf : after.readBufs.lookup id = none)

theorem EntryStep.of_same {action : Action} (pending : after.pending = pool.pending)
    (readBufs : after.readBufs = pool.readBufs) : EntryStep pool action id after :=
  .kept (by rw [pending]) (by rw [readBufs])

theorem perform_readBufs {op : Op} (single : op.IsCall) (other : ∀ event, op ≠ .takeReadBuf event)
    (pool : Pool) : (perform op pool).2.readBufs = pool.readBufs := by
  cases op with
  | takeReadBuf event => exact absurd rfl (other event)
  | run | delete | deleteIod | arrive => exact single.elim
  | createIodUdp binds => cases binds <;> rfl
  | cancel event notify =>
      change (pool.cancel event notify).2.readBufs = _
      rw [cancel]
      split
      · rfl
      · rename_i e found
        cases notify <;> cases e.done <;> cases e.handler <;> rfl
  | _ => rfl

theorem EntryStep.of_insert {action : Action} {e : Pending} (empty : e.buf = [] ∧ e.done = false)
    (pending : after.pending = pool.pending.insert (pool.eventCounter + 1) e)
    (readBufs : after.readBufs = pool.readBufs) : EntryStep pool action id after := by
  by_cases fresh : id = pool.eventCounter + 1
  · exact .created fresh e (by rw [pending, fresh, AList.lookup_insert]) empty (by rw [readBufs])
  · exact .kept (by rw [pending, AList.lookup_insert_ne fresh]) (by rw [readBufs])

theorem cancel_entry (pool : Pool) (event : EventId) (notify : Bool) (id : EventId)
    (readBufs : (pool.cancel event notify).2.readBufs = pool.readBufs) :
    EntryStep pool (.call (.cancel event notify)) id (pool.cancel event notify).2 := by
  cases found : pool.pending.lookup event with
  | none => exact .of_same (by simp only [cancel, found]) readBufs
  | some e =>
      have entry : ∃ handler, (pool.cancel event notify).2.pending =
          pool.pending.insert event { e with cancelled := true, done := true, handler } := by
        simp only [cancel, found]
        cases notify with
        | true =>
            refine ⟨.noop, ?_⟩
            cases e.done with
            | true => rfl
            | false => exact call_pending ..
        | false =>
            refine ⟨e.handler, ?_⟩
            cases e.done <;> rfl
      obtain ⟨handler, pending⟩ := entry
      by_cases here : id = event
      · subst here
        exact .cancelled notify rfl e handler found (by rw [pending, AList.lookup_insert])
          (by rw [readBufs])
      · exact .kept (by rw [pending, AList.lookup_insert_ne here]) (by rw [readBufs])

theorem call_entry {op : Op} (single : op.IsCall) (pool : Pool) (id : EventId) :
    EntryStep pool (.call op) id (perform op pool).2 := by
  by_cases taking : ∃ event, op = .takeReadBuf event
  · obtain ⟨event, rfl⟩ := taking
    change EntryStep pool _ id (pool.takeReadBuf event).2
    rw [takeReadBuf]
    split
    · by_cases here : id = event
      · subst here
        exact .taken rfl rfl (AList.lookup_erase ..)
      · exact .kept rfl (AList.lookup_erase_ne here)
    · exact .of_same rfl rfl
  have readBufs : (perform op pool).2.readBufs = pool.readBufs :=
    perform_readBufs single (fun event same => taking ⟨event, same⟩) pool
  cases perform_change single pool with
  | quiet same => exact .of_same same.pending readBufs
  | descriptor iod adopted same => exact .of_same same.pending readBufs
  | request kind iod deadline wbuf target lineRead asked same =>
      exact .of_insert ⟨rfl, rfl⟩ same.pending readBufs
  | associate iodId addr succeeds asked same => exact .of_same same.pending readBufs
  | datagram iodId addr data timeoutMs succeeds now asked same =>
      exact .of_insert ⟨rfl, rfl⟩ same.pending readBufs
  | cancel event notify asked same =>
      subst asked
      exact cancel_entry pool event notify id readBufs

theorem receive_entry {action : Action} (pool : Pool) (order : List Nat) (cmd : Cmd)
    (id : EventId) : EntryStep pool action id (pool.receive order cmd) := by
  cases cmd with
  | quit => exact .of_same rfl rfl
  | connectResult result =>
      cases target : pool.connectTarget order result.iod with
      | none =>
          rw [receive_result_of_none target]
          exact .of_same rfl rfl
      | some evid =>
          obtain ⟨e, live, kind, -, received⟩ := receive_result_of_some target
          have pending : (pool.receive order (.connectResult result)).pending =
              pool.pending.erase evid := by
            rw [received]
            simp only [apply_ite Pool.pending, call_pending, ite_self]
            exact congrArg (AList.erase evid) (install_pending pool result)
          have readBufs : (pool.receive order (.connectResult result)).readBufs = pool.readBufs := by
            rw [received]
            have installed : (pool.install result).readBufs = pool.readBufs := by
              rw [install]
              split <;> rfl
            split
            · exact installed
            · cases e.handler <;> exact installed
          by_cases here : id = evid
          · subst here
            refine .delivered e live (by rw [pending, AList.lookup_erase]) ?_
            rw [readBufs, if_neg (by rw [kind]; decide)]
          · exact .kept (by rw [pending, AList.lookup_erase_ne here]) (by rw [readBufs])

theorem moved_entry {action : Action} {event : EventId} (attempts : action.Attempts event)
    (live : ∃ e, pool.Open event e)
    (progress : Progress pool event after) (readBufs : after.readBufs = pool.readBufs)
    (id : EventId) : EntryStep pool action id after := by
  cases progress with
  | still same => exact .of_same (by rw [same]) readBufs
  | moved e buf wbuf effect io held pending counter log =>
      by_cases here : id = event
      · subst here
        obtain ⟨e', live⟩ := live
        obtain rfl := Option.some.inj (held.symm.trans live.1)
        exact .moved attempts e buf wbuf live (by rw [pending, AList.lookup_insert]) (by rw [readBufs])
      · exact .kept (by rw [pending, AList.lookup_insert_ne here]) (by rw [readBufs])

theorem tryRead_readBufs (pool : Pool) (id : EventId) (outcome : SocketResult (List UInt8)) :
    (pool.tryRead id outcome).2.readBufs = pool.readBufs := by
  obtain ⟨_, -, same | ⟨_, _, _, _, _, -, -, -, read⟩⟩ := tryRead_cases pool id outcome
  · rw [same]
  · rw [read]
    rfl

theorem tryWrite_readBufs (pool : Pool) (id : EventId) (outcome : SocketResult Nat) :
    (pool.tryWrite id outcome).2.readBufs = pool.readBufs := by
  obtain ⟨_, -, same | ⟨_, _, _, _, -, -, -, -, ⟨_, -, -, wrote⟩ | ⟨_, -, wrote⟩⟩⟩ :=
    tryWrite_cases pool id outcome
  · rw [same]
  · rw [wrote]
    rfl
  · rw [wrote]
    rfl

theorem deliver_entry {action : Action} (pool : Pool) (event : EventId) (status : EventStatus)
    (id : EventId) : EntryStep pool action id (pool.deliver event status) := by
  rw [deliver]
  split
  · rename_i missing
    refine .kept ?_ rfl
    by_cases here : id = event
    · rw [here, lookup_drop, missing]
    · exact lookup_drop_ne pool here
  · rename_i e found
    split
    · exact .of_same rfl rfl
    · rename_i live
      rw [Bool.or_eq_true, not_or, Bool.not_eq_true, Bool.not_eq_true] at live
      by_cases here : id = event
      · subst here
        refine .delivered e ⟨found, live.1⟩ (by rw [call_pending, lookup_drop]) ?_
        by_cases read : e.kind = .read
        · rw [if_pos read, if_pos read]
          cases e.handler <;> exact AList.lookup_insert _
        · rw [if_neg read, if_neg read]
          cases e.handler <;> rfl
      · refine .kept ?_ ?_
        · rw [call_pending, lookup_drop_ne _ here]
          split <;> rfl
        · by_cases read : e.kind = .read
          · rw [if_pos read]
            cases e.handler <;> exact AList.lookup_insert_ne here
          · rw [if_neg read]
            cases e.handler <;> rfl

theorem killEvent_readBufs (pool : Pool) (event : EventId) :
    (pool.killEvent event).readBufs = pool.readBufs.erase event := by
  rw [killEvent]
  split
  · rfl
  · rename_i e found
    split
    · cases e.handler <;> rfl
    · rfl

theorem kill_entry (pool : Pool) (event id : EventId) :
    EntryStep pool (.kill event) id (pool.killEvent event) := by
  have pending := killEvent_pending pool event
  have readBufs := killEvent_readBufs pool event
  by_cases here : id = event
  · subst here
    exact .killed rfl (by rw [pending, AList.lookup_erase]) (by rw [readBufs, AList.lookup_erase])
  · exact .kept (by rw [pending, AList.lookup_erase_ne here])
      (by rw [readBufs, AList.lookup_erase_ne here])

/-- **Every action keeps, creates, moves, cancels or drops** what is held for an event. -/
theorem Takes.entry {action : Action} (taken : Takes op pool action) (id : EventId) :
    EntryStep pool action id (pool.act action) := by
  have live {event : EventId} {kind : EventType} (shaped : pool.shape event = some (kind, false)) :
      ∃ e, pool.Open event e := by
    obtain ⟨e, found, same⟩ := Option.map_eq_some_iff.mp shaped
    exact ⟨e, found, (Prod.mk.inj same).2⟩
  cases taken with
  | call single => exact call_entry single pool id
  | arrive | arriveRun =>
      refine .of_same (arrive_view pool _ _).pending ?_
      rw [act, Pool.arrive]
      split <;> rfl
  | takeChannel | quitRun | quitDelete => exact .of_same rfl rfl
  | dropIod | dropIods => exact .of_same rfl rfl
  | receive => exact receive_entry pool _ _ id
  | tryRead held =>
      have attempts (event : EventId) (outcome : SocketResult (List UInt8)) :
          (Action.tryRead event outcome).Attempts event := rfl
      exact moved_entry (attempts _ _) (live held) (tryRead_progress pool _ _)
        (tryRead_readBufs pool _ _) id
  | tryWrite held =>
      have attempts (event : EventId) (outcome : SocketResult Nat) :
          (Action.tryWrite event outcome).Attempts event := rfl
      exact moved_entry (attempts _ _) (live held) (tryWrite_progress pool _ _)
        (tryWrite_readBufs pool _ _) id
  | deliver => exact deliver_entry pool _ _ id
  | killOfIod | kill => exact kill_entry pool _ id

/-! ## Retained buffers -/

/-- A buffer is retained only for an event that was held before and is not any more. -/
structure Retained (pool : Pool) : Prop extends Sound pool where
  retained : ∀ id b, pool.readBufs.lookup id = some b →
    pool.Created id ∧ pool.pending.lookup id = none

theorem retained_new : new.Retained where
  toSound := sound_new
  retained _ _ kept := nomatch kept

theorem Retained.readBuf_of_held (valid : pool.Retained) {e : Pending}
    (found : pool.pending.lookup id = some e) : pool.readBufs.lookup id = none := by
  cases kept : pool.readBufs.lookup id with
  | none => rfl
  | some b =>
      have missing := (valid.retained id b kept).2
      rw [found] at missing
      cases missing

theorem Retained.act (valid : pool.Retained) {action : Action} (taken : Takes op pool action) :
    (pool.act action).Retained := by
  have change := taken.change valid.toSound
  refine { change.sound valid.toSound with retained := fun id b kept => ?_ }
  cases taken.entry id with
  | kept held readBuf =>
      obtain ⟨created, missing⟩ := valid.retained id b (readBuf.symm.trans kept)
      exact ⟨change.created_of created, held.trans missing⟩
  | created fresh e held empty readBuf =>
      obtain ⟨created, -⟩ := valid.retained id b (readBuf.symm.trans kept)
      exact absurd (fresh ▸ created) (not_created_succ pool)
  | moved attempts e buf wbuf live held readBuf =>
      rw [readBuf, valid.readBuf_of_held live.1] at kept
      cases kept
  | cancelled notify asked e handler found held readBuf =>
      rw [readBuf, valid.readBuf_of_held found] at kept
      cases kept
  | delivered e live held readBuf =>
      exact ⟨change.created_of (valid.created id e live.1), held⟩
  | killed asked held readBuf | taken asked held readBuf =>
      rw [readBuf] at kept
      cases kept

theorem Retained.act_created (valid : pool.Retained ∧ pool.Created id) {action : Action}
    (taken : Takes op pool action) : (pool.act action).Retained ∧ (pool.act action).Created id :=
  ⟨valid.1.act taken, (taken.change valid.1.toSound).created_of valid.2⟩

/-- An operation keeps the events that were created. -/
theorem Retained.perform (valid : pool.Retained) (created : pool.Created id) (op : Op) :
    (perform op pool).2.Retained ∧ (perform op pool).2.Created id :=
  perform_invariant (fun _ _ _ valid taken => Retained.act_created valid taken) op ⟨valid, created⟩

theorem Retained.runPass (valid : pool.Retained) (created : pool.Created id) (pass : Pass) :
    (pool.runPass pass).Retained ∧ (pool.runPass pass).Created id :=
  runPass_invariant (fun _ _ _ valid taken => Retained.act_created valid taken) pass ⟨valid, created⟩

theorem Retained.execute (valid : pool.Retained) (ops : List Op) : (execute ops pool).Retained :=
  execute_invariant (fun _ _ _ valid taken => valid.act taken) ops valid

theorem takeReadBuf_of_held (valid : pool.Retained) {e : Pending}
    (found : pool.pending.lookup id = some e) : (pool.takeReadBuf id).1 = e.buf := by
  rw [takeReadBuf, valid.readBuf_of_held found, found]
  rfl

theorem takeReadBuf_of_retained {b : List UInt8} (kept : pool.readBufs.lookup id = some b) :
    (pool.takeReadBuf id).1 = b := by
  rw [takeReadBuf, kept]

/-! ## Open events outside the loop -/

/-- An event that is open after an operation outside the loop was so before, if it existed. -/
theorem open_of_perform (outside : ¬ op.IsRun) (sound : pool.Sound) (created : pool.Created id)
    {e : Pending} (held : (perform op pool).2.Open id e) : pool.Open id e := by
  have along : OpAlong (fun _ _ => True) (fun _ _ => True) op pool :=
    opAlong_of_forall (fun _ _ => trivial) (fun _ _ => trivial) op pool
  have steps := (perform_steps along).invariant
    (fun reached => reached.Sound ∧ reached.Created id ∧ ∀ e, reached.Open id e → pool.Open id e)
    ⟨sound, created, fun _ held => held⟩
  refine (steps ?_).2.2 e held
  rintro state action ⟨sound, created, before⟩ ⟨taken, -⟩
  have change := taken.change sound
  refine ⟨change.sound sound, change.created_of created, fun e held => ?_⟩
  cases taken.entry id with
  | kept same | taken asked same =>
      rw [Open, same] at held
      exact before e held
  | created fresh => exact absurd (fresh ▸ created) (not_created_succ state)
  | moved attempts =>
      cases taken with
      | tryRead | tryWrite => exact absurd trivial outside
      | _ => exact attempts.elim
  | cancelled notify asked e' handler found same =>
      rw [Open, same] at held
      obtain ⟨found, live⟩ := held
      obtain rfl := Option.some.inj found
      cases live
  | delivered e' live gone | killed asked gone =>
      exact absurd held (not_open_of_gone gone e)

/-! ## Requests in the log -/

theorem EventChange.requested_iff (change : EventChange emits pool after)
    (created : pool.Created id) {kind : EventType} {iod : Option Nat}
    {wbuf : Option (List UInt8)} :
    .requested id kind iod wbuf ∈ after.log ↔ .requested id kind iod wbuf ∈ pool.log := by
  constructor
  · intro member
    rcases change.mentioned_cases member with old | none | ⟨id', e, about, -, other⟩ | ⟨about, -⟩
    · exact old
    · cases none
    · obtain rfl := Option.some.inj about
      exact absurd rfl (other kind iod wbuf)
    · obtain rfl := Option.some.inj about
      exact absurd created (not_created_succ pool)
  · intro member
    obtain ⟨added, log, -⟩ := change.grown
    rw [log]
    exact List.mem_append_left _ member

/-- Events that are held are as they were requested. -/
structure Traced (pool : Pool) : Prop extends Retained pool where
  traced : ∀ id e, pool.pending.lookup id = some e → ∀ kind iod,
    (∃ wbuf, .requested id kind iod wbuf ∈ pool.log) ↔ kind = e.kind ∧ iod = e.iod

theorem traced_new : new.Traced where
  toRetained := retained_new
  traced _ _ held := nomatch held

theorem Traced.act (valid : pool.Traced) {action : Action} (taken : Takes op pool action) :
    (pool.act action).Traced := by
  have change := taken.change valid.toSound
  refine { valid.toRetained.act taken with traced := fun id e held kind iod => ?_ }
  have stable {e' : Pending} (before : pool.pending.lookup id = some e')
      (same : e'.kind = e.kind ∧ e'.iod = e.iod) :
      (∃ wbuf, .requested id kind iod wbuf ∈ (pool.act action).log) ↔
        kind = e.kind ∧ iod = e.iod := by
    rw [← same.1, ← same.2, ← valid.traced id e' before kind iod]
    exact exists_congr fun _ => change.requested_iff (valid.created id e' before)
  cases taken.entry id with
  | kept same | taken asked same => exact stable (same.symm.trans held) ⟨rfl, rfl⟩
  | moved attempts e' buf wbuf live held' =>
      obtain rfl := Option.some.inj (held'.symm.trans held)
      exact stable live.1 ⟨rfl, rfl⟩
  | cancelled notify asked e' handler found held' =>
      obtain rfl := Option.some.inj (held'.symm.trans held)
      exact stable found ⟨rfl, rfl⟩
  | delivered _ _ gone | killed _ gone =>
      rw [gone] at held
      cases held
  | created fresh e' held' empty =>
      obtain rfl := Option.some.inj (held'.symm.trans held)
      have fresh' : ¬ pool.Created id := fresh ▸ not_created_succ pool
      constructor
      · rintro ⟨wbuf, member⟩
        rcases change.mentioned_cases member with old | none | ⟨id', e₁, about, -, other⟩ |
          ⟨-, -, e₁, held₁, same⟩
        · exact absurd (valid.mentioned _ old id rfl) fresh'
        · cases none
        · obtain rfl := Option.some.inj about
          exact absurd rfl (other kind iod wbuf)
        · subst fresh
          obtain rfl := Option.some.inj (held₁.symm.trans held)
          exact same kind iod wbuf rfl
      · rintro ⟨rfl, rfl⟩
        rcases change.open_cases ⟨held, empty.2⟩ with before | ⟨e₁, _, _, _, before, -⟩ |
          ⟨-, -, -, -, added, log⟩
        · exact absurd (valid.created id _ before.1) fresh'
        · exact absurd (valid.created id _ before.1) fresh'
        · refine ⟨e'.wbuf, ?_⟩
          rw [log]
          exact List.mem_append_right _ List.mem_cons_self

/-- Only a request puts one into the log. -/
theorem request_of_requested (single : op.IsCall) {kind : EventType} {iod : Option Nat}
    {wbuf : Option (List UInt8)} (member : .requested id kind iod wbuf ∈ (perform op pool).2.log)
    (new : .requested id kind iod wbuf ∉ pool.log) : op.request = some (kind, iod) := by
  have scheduled {kind' : EventType} {iod' : Option Nat} {data : Option (List UInt8)}
      (member : .requested id kind iod wbuf ∈
        pool.log ++ [.requested (pool.eventCounter + 1) kind' iod' data]) :
      (kind', iod') = (kind, iod) := by
    have last := (List.mem_append.mp member).resolve_left new
    injection List.mem_singleton.mp last with _ kind iod
    rw [kind, iod]
  cases op with
  | run | delete | deleteIod | arrive => exact single.elim
  | read | readBytes | readlines | connectTcp | timerCreate | write | writeFmt | printf =>
      exact congrArg some (scheduled member)
  | sendUdp key addr data timeoutMs succeeds now =>
      rcases List.mem_append.mp member with early | last
      · exact congrArg some (scheduled early)
      · cases List.mem_singleton.mp last
  | cancel event notify =>
      change _ ∈ (pool.cancel event notify).2.log at member
      refine absurd ?_ new
      rcases cancel_cases pool event notify with
        ⟨same, -⟩ | ⟨e, ended, -, -, ⟨same, -⟩ | ⟨-, ⟨same, -⟩ | ⟨same, -⟩⟩⟩
      · rwa [same] at member
      · rwa [same] at member
      · rw [same, call_log] at member
        refine (List.mem_append.mp member).resolve_right fun called => ?_
        cases handler : e.handler with
        | caller owner =>
            rw [handler] at called
            cases List.mem_singleton.mp called
        | noop =>
            rw [handler] at called
            cases called
      · rw [same] at member
        exact (List.mem_append.mp member).resolve_right fun last =>
          nomatch List.mem_singleton.mp last
  | takeReadBuf event =>
      refine absurd ?_ new
      change _ ∈ (pool.takeReadBuf event).2.log at member
      rw [takeReadBuf] at member
      split at member <;> exact member
  | createIodUdp binds => cases binds <;> exact absurd member new
  | _ => exact absurd member new

/-- An event that is open after an action was open before, or the action requests it. -/
theorem Takes.opened (valid : pool.Traced) {action : Action} (taken : Takes op pool action)
    {e : Pending} (held : (pool.act action).Open id e) :
    (∃ e', pool.Open id e' ∧ e'.kind = e.kind ∧ e'.iod = e.iod) ∨
      ¬ pool.Created id ∧ action = .call op ∧ op.IsCall ∧ op.request = some (e.kind, e.iod) := by
  have change := taken.change valid.toSound
  rcases change.open_cases held with before | ⟨e', _, _, _, before, -, rfl, -⟩ | ⟨fresh, -⟩
  · exact .inl ⟨e, before, rfl, rfl⟩
  · exact .inl ⟨e', before, rfl, rfl⟩
  · have created : ¬ pool.Created id := fresh ▸ not_created_succ pool
    obtain ⟨wbuf, member⟩ := ((valid.act taken).traced id e held.1 e.kind e.iod).mpr ⟨rfl, rfl⟩
    have new : .requested id e.kind e.iod wbuf ∉ pool.log := fun old =>
      created (valid.mentioned _ old id rfl)
    obtain ⟨added, log, emitted⟩ := change.grown
    have emission := emitted _ ((List.mem_append.mp (log ▸ member)).resolve_left new)
    obtain ⟨-, rfl, -⟩ := emission.requested_cases
    cases taken with
    | call single => exact .inr ⟨created, rfl, single, request_of_requested single member new⟩

end Pool

end Wnr.Nsock
