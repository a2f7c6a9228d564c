import Wnr.Foundation.Actions
import Wnr.Nsock.PoolCases

/-! # The pool as a system of actions

Whatever a caller does with a pool, and whatever the world does meanwhile, comes down
to a few actions: a request, the end of a helper thread, one command that the loop
takes, one socket call, one delivery, one event killed. `Pool.execute_steps` splits
every history of operations into such actions. A history may be restricted by a
condition on each operation and by one on each command that the loop takes, each read
in the state just before (`Pool.Along`).
-/

namespace Wnr.Nsock

open ActionSystem Net

/-- The operations that are one action. -/
def Op.IsCall : Op → Prop
  | .run .. | .delete .. | .deleteIod .. | .arrive .. => False
  | _ => True

/-- The descriptor and the data of an operation that requests a write. -/
def Op.writeRequest : Op → Option (Nat × List UInt8)
  | .write iodId data _ _ | .sendUdp iodId _ data _ _ _ => some (iodId, data)
  | .writeFmt iodId text _ _ | .printf iodId text _ _ => some (iodId, text.toUTF8.toList)
  | _ => none

namespace Pool

/-! ## Actions -/

inductive Action where
  | call (op : Op)
  | arrive (attempt : EventId) (outcome : Except Unit (Option SocketAddr))
  | takeChannel
  | receive (order : List Nat) (cmd : Cmd)
  | tryRead (id : EventId) (outcome : SocketResult (List UInt8))
  | tryWrite (id : EventId) (outcome : SocketResult Nat)
  | deliver (id : EventId) (status : EventStatus)
  | kill (id : EventId)
  | dropIod (id : Nat)
  | setQuit (value : Bool)

def act (pool : Pool) : Action → Pool
  | .call op => (perform op pool).2
  | .arrive attempt outcome => pool.arrive attempt outcome
  | .takeChannel => { pool with channel := [] }
  | .receive order cmd => pool.receive order cmd
  | .tryRead id outcome => (pool.tryRead id outcome).2
  | .tryWrite id outcome => (pool.tryWrite id outcome).2
  | .deliver id status => pool.deliver id status
  | .kill id => pool.killEvent id
  | .dropIod id => { pool with iods := pool.iods.erase id }
  | .setQuit value => { pool with quit := value }

/-- The statuses that the loop delivers to an event. -/
def Deliverable (kind : EventType) (status : EventStatus) : Prop :=
  kind ≠ .timer ∧ status = .timeout ∨ kind = .timer ∧ status = .success ∨
    (kind = .read ∨ kind = .write) ∧ (status = .success ∨ status = .error ∨ status = .eof)

/-- The kind of an event and whether it is done. -/
def shape (pool : Pool) (id : EventId) : Option (EventType × Bool) :=
  (pool.pending.lookup id).map fun e => (e.kind, e.done)

/-- The actions that an operation consists of, each with what holds when it is taken. -/
inductive Takes : Op → Pool → Action → Prop
  | call {op : Op} {pool : Pool} (single : op.IsCall) : Takes op pool (.call op)
  | arrive {attempt : EventId} {outcome : Except Unit (Option SocketAddr)} {pool : Pool} :
      Takes (.arrive attempt outcome) pool (.arrive attempt outcome)
  | arriveRun {timeout start passes attempt outcome} {pool : Pool} :
      Takes (.run timeout start passes) pool (.arrive attempt outcome)
  | takeChannel {timeout start passes} {pool : Pool} :
      Takes (.run timeout start passes) pool .takeChannel
  | receive {timeout start passes order cmd} {pool : Pool} :
      Takes (.run timeout start passes) pool (.receive order cmd)
  | tryRead {timeout start passes id outcome} {pool : Pool}
      (held : pool.shape id = some (.read, false)) :
      Takes (.run timeout start passes) pool (.tryRead id outcome)
  | tryWrite {timeout start passes id outcome} {pool : Pool}
      (held : pool.shape id = some (.write, false)) :
      Takes (.run timeout start passes) pool (.tryWrite id outcome)
  | deliver {timeout start passes id status} {pool : Pool}
      (deliverable : ∀ e, pool.pending.lookup id = some e → Deliverable e.kind status) :
      Takes (.run timeout start passes) pool (.deliver id status)
  | quitRun {timeout start passes value} {pool : Pool} :
      Takes (.run timeout start passes) pool (.setQuit value)
  | killOfIod {order iodId id} {pool : Pool} : Takes (.deleteIod order iodId) pool (.kill id)
  | dropIod {order iodId} {pool : Pool} : Takes (.deleteIod order iodId) pool (.dropIod iodId)
  | kill {iodOrder orders order id} {pool : Pool} :
      Takes (.delete iodOrder orders order) pool (.kill id)
  | dropIods {iodOrder orders order id} {pool : Pool} :
      Takes (.delete iodOrder orders order) pool (.dropIod id)
  | quitDelete {iodOrder orders order value} {pool : Pool} :
      Takes (.delete iodOrder orders order) pool (.setQuit value)

/-! ## What a single call changes -/

/-- The changes of an operation that is one action. -/
inductive CallChange (op : Op) (pool after : Pool) : Prop
  | quiet (same : SameView pool after)
  | descriptor (iod : Iod)
      (adopted : iod.association = none ∨
        ∃ sock, op = .createIodUdpFrom sock ∧ iod.association = sock.association)
      (same : SameView (pool.addIod iod).2 after)
  | request (kind : EventType) (iod : Option Nat) (deadline : Option Instant)
      (wbuf : Option (List UInt8)) (target : Nat) (lineRead : Bool)
      (asked : op.writeRequest = none ∧ kind ≠ .write ∧ wbuf = none ∨
        ∃ iodId data, op.writeRequest = some (iodId, data) ∧ kind = .write ∧ iod = some iodId ∧
          wbuf = some data)
      (same : SameView (pool.schedule kind iod deadline wbuf target lineRead).2 after)
  | associate (iodId : Nat) (addr : SocketAddr) (succeeds : Bool)
      (asked : op = .connectUdp iodId addr succeeds)
      (same : SameView (pool.connectUdp iodId addr succeeds) after)
  | datagram (iodId : Nat) (addr : SocketAddr) (data : List UInt8) (timeoutMs : Int)
      (succeeds : Bool) (now : Instant)
      (asked : op = .sendUdp iodId addr data timeoutMs succeeds now)
      (same : SameView (pool.sendUdp iodId addr data timeoutMs succeeds now).2 after)
  | cancel (id : EventId) (notify : Bool) (asked : op = .cancel id notify)
      (same : SameView (pool.cancel id notify).2 after)

theorem perform_change {op : Op} (single : op.IsCall) (pool : Pool) :
    CallChange op pool (perform op pool).2 := by
  cases op with
  | setBroadcast on => exact .quiet ⟨rfl, rfl, rfl, rfl⟩
  | createIodTcp => exact .descriptor .newTcp (.inl rfl) .rfl
  | createIodUdp binds =>
      cases binds with
      | true =>
          exact .descriptor
            { Iod.newTcp with udp := some ⟨pool.broadcast, none⟩, kind := .udp } (.inl rfl) .rfl
      | false => exact .descriptor { Iod.newTcp with kind := .udp } (.inl rfl) .rfl
  | createIodTcpFrom stream => exact .descriptor _ (.inl rfl) .rfl
  | createIodUdpFrom sock => exact .descriptor _ (.inr ⟨sock, rfl, rfl⟩) .rfl
  | connectTcp iodId addr timeoutMs now =>
      exact .request .connect (some iodId) _ none 0 false (.inl ⟨rfl, by decide, rfl⟩)
        ⟨rfl, rfl, rfl, rfl⟩
  | connectUdp iodId addr succeeds => exact .associate iodId addr succeeds rfl .rfl
  | read iodId timeoutMs now =>
      exact .request .read (some iodId) _ none _ _ (.inl ⟨rfl, by decide, rfl⟩) .rfl
  | readBytes iodId timeoutMs nbytes now =>
      exact .request .read (some iodId) _ none _ _ (.inl ⟨rfl, by decide, rfl⟩) .rfl
  | readlines iodId timeoutMs maxline now =>
      exact .request .read (some iodId) _ none _ _ (.inl ⟨rfl, by decide, rfl⟩) .rfl
  | write iodId data timeoutMs now =>
      exact .request .write (some iodId) _ (some data) _ _ (.inr ⟨_, _, rfl, rfl, rfl, rfl⟩) .rfl
  | writeFmt iodId formatted timeoutMs now =>
      exact .request .write (some iodId) _ _ _ _ (.inr ⟨_, _, rfl, rfl, rfl, rfl⟩) .rfl
  | printf iodId text timeoutMs now =>
      exact .request .write (some iodId) _ _ _ _ (.inr ⟨_, _, rfl, rfl, rfl, rfl⟩) .rfl
  | sendUdp iodId addr data timeoutMs succeeds now =>
      exact .datagram iodId addr data timeoutMs succeeds now rfl .rfl
  | timerCreate timeoutMs now =>
      exact .request .timer none _ none _ _ (.inl ⟨rfl, by decide, rfl⟩) .rfl
  | cancel id notify => exact .cancel id notify rfl .rfl
  | loopQuit => exact .quiet ⟨rfl, rfl, rfl, rfl⟩
  | takeReadBuf id =>
      refine .quiet ?_
      change SameView pool (pool.takeReadBuf id).2
      rw [takeReadBuf]
      split <;> exact ⟨rfl, rfl, rfl, rfl⟩
  | deleteIod order id => exact single.elim
  | delete iodOrder orders order => exact single.elim
  | arrive attempt outcome => exact single.elim
  | run timeout start passes => exact single.elim

/-! ## Histories under conditions -/

section Conditions

variable (request : Pool → Op → Prop) (command : Pool → Cmd → Prop)

def ReceivesAlong : List (List Nat) → List Cmd → Pool → Prop
  | _, [], _ => True
  | orders, cmd :: rest, pool =>
      command pool cmd ∧ ReceivesAlong orders.tail rest (pool.receive (orders.headD []) cmd)

def PassesAlong (start : Instant) (limit : Option Nat) : List Pass → Pool → Prop
  | [], _ => True
  | pass :: rest, pool =>
      let arrived := arriveAll pass.arrivals pool
      ReceivesAlong command pass.searches arrived.channel { arrived with channel := [] } ∧
        ((runPasses start limit [pass] pool).1 = none →
          PassesAlong start limit rest (pool.runPass pass))

/-- The conditions hold of an operation. -/
def OpAlong : Op → Pool → Prop
  | .run timeout start passes, pool =>
      PassesAlong command start (if timeout < 0 then none else some (millis timeout.toNat)) passes
        { pool with quit := false }
  | op, pool => request pool op

/-- The conditions hold of each operation of a history. -/
def Along : List Op → Pool → Prop
  | [], _ => True
  | op :: rest, pool =>
      OpAlong request command op pool ∧
        ((perform op pool).1 ≠ .running → Along rest (perform op pool).2)

variable [∀ pool op, Decidable (request pool op)] [∀ pool cmd, Decidable (command pool cmd)]

instance decidableReceivesAlong : ∀ (orders : List (List Nat)) (cmds : List Cmd) (pool : Pool),
    Decidable (ReceivesAlong command orders cmds pool)
  | _, [], _ => .isTrue trivial
  | orders, cmd :: rest, pool =>
      have := decidableReceivesAlong orders.tail rest (pool.receive (orders.headD []) cmd)
      inferInstanceAs (Decidable (_ ∧ _))

instance decidablePassesAlong (start : Instant) (limit : Option Nat) :
    ∀ (passes : List Pass) (pool : Pool), Decidable (PassesAlong command start limit passes pool)
  | [], _ => .isTrue trivial
  | pass :: rest, pool =>
      have := decidablePassesAlong start limit rest (pool.runPass pass)
      inferInstanceAs (Decidable (_ ∧ (_ → _)))

instance decidableOpAlong (op : Op) (pool : Pool) : Decidable (OpAlong request command op pool) :=
  match op with
  | .run timeout start passes =>
      decidablePassesAlong command start (if timeout < 0 then none else some (millis timeout.toNat))
        passes { pool with quit := false }
  | .setBroadcast .. | .createIodTcp | .createIodUdp .. | .createIodTcpFrom ..
  | .createIodUdpFrom .. | .connectTcp .. | .connectUdp .. | .read .. | .readBytes ..
  | .readlines .. | .write .. | .writeFmt .. | .printf .. | .sendUdp .. | .timerCreate ..
  | .cancel .. | .deleteIod .. | .delete .. | .loopQuit | .takeReadBuf .. | .arrive .. =>
      inferInstanceAs (Decidable (request pool _))

instance decidableAlong : ∀ (ops : List Op) (pool : Pool), Decidable (Along request command ops pool)
  | [], _ => .isTrue trivial
  | op :: rest, pool =>
      have := decidableAlong rest (perform op pool).2
      inferInstanceAs (Decidable (OpAlong request command op pool ∧ (_ → _)))

/-- An action meets the conditions. -/
def Meets (pool : Pool) : Action → Prop
  | .call op => request pool op
  | .receive _ cmd => command pool cmd
  | _ => True

/-- The actions of an operation under the conditions. -/
def Allowed (op : Op) (pool : Pool) (action : Action) : Prop :=
  Takes op pool action ∧ Meets request command pool action

end Conditions

/-! ## One pass of the loop -/

section Pass

variable {request : Pool → Op → Prop} {command : Pool → Cmd → Prop} {timeout : Int}
  {start : Instant} {passes : List Pass}

theorem shape_of_held {pool : Pool} {id : EventId} {e : Pending}
    (held : pool.pending.lookup id = some e) : pool.shape id = some (e.kind, e.done) := by
  rw [shape, held, Option.map_some]

theorem done_of_shape {pool : Pool} {id : EventId} {kind : EventType} {done : Bool} {e : Pending}
    (shaped : pool.shape id = some (kind, done)) (held : pool.pending.lookup id = some e) :
    e.done = done :=
  congrArg Prod.snd (Option.some.inj ((shape_of_held held).symm.trans shaped))

theorem Progress.shape {pool after : Pool} {id : EventId} (progress : Progress pool id after)
    (other : EventId) : after.shape other = pool.shape other := by
  cases progress with
  | still same => rw [same]
  | moved e buf wbuf effect io held pending eventCounter log =>
      rw [Pool.shape, Pool.shape, pending]
      by_cases same : other = id
      · rw [same, AList.lookup_insert, held, Option.map_some, Option.map_some]
      · rw [AList.lookup_insert_ne same]

theorem Takes.steps {op : Op} {pool : Pool} {action : Action} (taken : Takes op pool action)
    (meets : Meets request command pool action) :
    Steps act (Allowed request command op) pool (pool.act action) :=
  .single ⟨taken, meets⟩

theorem dueStatus_deliverable {now : Instant} {e : Pending} {status : EventStatus}
    (due : dueStatus now e = some status) : Deliverable e.kind status := by
  rw [dueStatus] at due
  split at due
  · split at due
    · by_cases timer : e.kind = .timer
      · rw [if_pos timer] at due
        exact .inr (.inl ⟨timer, (Option.some.inj due).symm⟩)
      · rw [if_neg timer] at due
        exact .inl ⟨timer, (Option.some.inj due).symm⟩
    · cases due
  · cases due

variable (request command timeout start passes) in
theorem tryIo_steps {pool : Pool} (pass : Pass) {id : EventId} {kind : EventType}
    (held : pool.shape id = some (kind, false)) :
    Steps act (Allowed request command (.run timeout start passes)) pool (pool.tryIo pass id).2 ∧
      (∀ other, (pool.tryIo pass id).2.shape other = pool.shape other) ∧
      ∀ status, (pool.tryIo pass id).1 = some status → Deliverable kind status := by
  obtain ⟨e, found, shaped⟩ := Option.map_eq_some_iff.mp held
  obtain ⟨rfl, -⟩ := Prod.mk.inj shaped
  have idle (kind' : e.kind = .connect ∨ e.kind = .timer ∨ e.kind = .pcapRead) :
      pool.tryIo pass id = (none, pool) := by
    rcases kind' with kind' | kind' | kind' <;> simp only [tryIo, found, kind']
  cases kind : e.kind with
  | read =>
      have attempt : pool.tryIo pass id = pool.tryRead id (pass.reads id) := by
        simp only [tryIo, found, kind]
      rw [attempt]
      rw [kind] at held
      refine ⟨(Takes.tryRead held).steps trivial, (tryRead_progress pool id _).shape, ?_⟩
      intro status returned
      exact .inr (.inr ⟨.inl rfl, tryRead_status pool id _ status returned⟩)
  | write =>
      have attempt : pool.tryIo pass id = pool.tryWrite id (pass.writes id) := by
        simp only [tryIo, found, kind]
      rw [attempt]
      rw [kind] at held
      refine ⟨(Takes.tryWrite held).steps trivial, (tryWrite_progress pool id _).shape, ?_⟩
      intro status returned
      exact .inr (.inr ⟨.inr rfl, tryWrite_status pool id _ status returned⟩)
  | connect =>
      rw [idle (.inl kind)]
      exact ⟨.refl pool, fun _ => rfl, fun _ returned => nomatch returned⟩
  | timer =>
      rw [idle (.inr (.inl kind))]
      exact ⟨.refl pool, fun _ => rfl, fun _ returned => nomatch returned⟩
  | pcapRead =>
      rw [idle (.inr (.inr kind))]
      exact ⟨.refl pool, fun _ => rfl, fun _ returned => nomatch returned⟩

/-- A list of events to deliver fits the kinds of the events that are held. -/
def Ready (pool : Pool) (toDeliver : List (EventId × EventStatus)) : Prop :=
  ∀ pair ∈ toDeliver, ∀ kind done, pool.shape pair.1 = some (kind, done) →
    Deliverable kind pair.2

variable (request command timeout start passes) in
theorem tryAll_steps (pass : Pass) {ids : List EventId} {toDeliver : List (EventId × EventStatus)}
    {pool : Pool} (held : ∀ id ∈ ids, ∃ kind, pool.shape id = some (kind, false))
    (ready : pool.Ready toDeliver) :
    Steps act (Allowed request command (.run timeout start passes)) pool
        (tryAll pass ids toDeliver pool).2 ∧
      (tryAll pass ids toDeliver pool).2.Ready (tryAll pass ids toDeliver pool).1 := by
  induction ids generalizing toDeliver pool with
  | nil => exact ⟨.refl pool, ready⟩
  | cons id rest ih =>
      rw [List.forall_mem_cons] at held
      obtain ⟨⟨kind, here⟩, others⟩ := held
      rw [tryAll]
      split
      · exact ih others ready
      obtain ⟨steps, kept, fits⟩ := tryIo_steps request command timeout start passes pass here
      have others' : ∀ id' ∈ rest, ∃ kind, (pool.tryIo pass id).2.shape id' = some (kind, false) :=
        fun id' member => kept id' ▸ others id' member
      have ready' : (pool.tryIo pass id).2.Ready toDeliver := by
        intro pair member kind' done shaped
        exact ready pair member kind' done (kept pair.1 ▸ shaped)
      split
      · rename_i status after attempted
        rw [attempted] at steps kept fits others' ready'
        have more : after.Ready (toDeliver ++ [(id, status)]) := by
          intro pair member kind' done shaped
          rcases List.mem_append.mp member with before | last
          · exact ready' pair before kind' done shaped
          · obtain rfl := List.mem_singleton.mp last
            rw [kept, here] at shaped
            cases shaped
            exact fits status rfl
        obtain ⟨laterSteps, laterReady⟩ := ih others' more
        exact ⟨steps.trans laterSteps, laterReady⟩
      · rename_i after attempted
        rw [attempted] at steps others' ready'
        obtain ⟨laterSteps, laterReady⟩ := ih others' ready'
        exact ⟨steps.trans laterSteps, laterReady⟩

theorem lookup_of_lookup_deliver {pool : Pool} {id other : EventId} {status : EventStatus}
    {e : Pending} (held : (pool.deliver id status).pending.lookup other = some e) :
    pool.pending.lookup other = some e := by
  rcases deliver_cases pool id status with same | ⟨_, -, -, same⟩
  · rw [same.pending] at held
    exact held
  · rw [same.pending, call_pending] at held
    by_cases dropped : other = id
    · rw [dropped, lookup_drop] at held
      cases held
    · rwa [lookup_drop_ne pool dropped] at held

theorem deliverAll_steps {toDeliver : List (EventId × EventStatus)} {pool : Pool}
    (ready : pool.Ready toDeliver) :
    Steps act (Allowed request command (.run timeout start passes)) pool
      (deliverAll toDeliver pool) := by
  induction toDeliver generalizing pool with
  | nil => exact .refl pool
  | cons pair rest ih =>
      obtain ⟨id, status⟩ := pair
      have fits : ∀ e, pool.pending.lookup id = some e → Deliverable e.kind status :=
        fun e held => ready (id, status) List.mem_cons_self _ _ (shape_of_held held)
      refine ((Takes.deliver fits).steps trivial).trans (ih ?_)
      intro later member kind done shaped
      obtain ⟨e, held, shaped⟩ := Option.map_eq_some_iff.mp shaped
      obtain ⟨rfl, -⟩ := Prod.mk.inj shaped
      exact ready later (List.mem_cons_of_mem _ member) _ _
        (shape_of_held (lookup_of_lookup_deliver held))

theorem arriveAll_steps (arrivals : List (EventId × Except Unit (Option SocketAddr)))
    (pool : Pool) :
    Steps act (Allowed request command (.run timeout start passes)) pool
      (arriveAll arrivals pool) := by
  induction arrivals generalizing pool with
  | nil => exact .refl pool
  | cons arrival rest ih => exact (Takes.arriveRun.steps trivial).trans (ih _)

theorem receiveAll_steps {orders : List (List Nat)} {cmds : List Cmd} {pool : Pool}
    (along : ReceivesAlong command orders cmds pool) :
    Steps act (Allowed request command (.run timeout start passes)) pool
      (receiveAll orders cmds pool) := by
  induction cmds generalizing orders pool with
  | nil => exact .refl pool
  | cons cmd rest ih => exact (Takes.receive.steps along.1).trans (ih along.2)

/-- The helper threads end, and the commands are handled. -/
theorem drain_steps {pass : Pass} {pool : Pool}
    (along : ReceivesAlong command pass.searches (arriveAll pass.arrivals pool).channel
      { arriveAll pass.arrivals pool with channel := [] }) :
    Steps act (Allowed request command (.run timeout start passes)) pool
      ((arriveAll pass.arrivals pool).drainCommands pass.searches) :=
  (arriveAll_steps pass.arrivals pool).trans
    ((Takes.takeChannel.steps trivial).trans (receiveAll_steps along))

theorem runPass_steps {pass : Pass} {pool : Pool}
    (along : ReceivesAlong command pass.searches (arriveAll pass.arrivals pool).channel
      { arriveAll pass.arrivals pool with channel := [] }) :
    Steps act (Allowed request command (.run timeout start passes)) pool (pool.runPass pass) := by
  let drained := (arriveAll pass.arrivals pool).drainCommands pass.searches
  have arrived : Steps act (Allowed request command (.run timeout start passes)) pool drained :=
    drain_steps along
  have held : ∀ id ∈ drained.undelivered pass.order,
      ∃ kind, drained.shape id = some (kind, false) := by
    intro id member
    obtain ⟨e, found, live⟩ := mem_undelivered.mp member
    exact ⟨e.kind, live ▸ shape_of_held found⟩
  have ready : drained.Ready ((drained.undelivered pass.order).filterMap (drained.due pass.now)) := by
    rintro ⟨id, status⟩ member kind done shaped
    obtain ⟨id', -, due⟩ := List.mem_filterMap.mp member
    obtain ⟨status', dueNow, paired⟩ := Option.map_eq_some_iff.mp due
    obtain ⟨rfl, rfl⟩ := Prod.mk.inj paired
    obtain ⟨e, found, dueNow⟩ := Option.bind_eq_some_iff.mp dueNow
    rw [shape_of_held found] at shaped
    obtain ⟨rfl, -⟩ := Prod.mk.inj (Option.some.inj shaped)
    exact dueStatus_deliverable dueNow
  obtain ⟨tried, ready⟩ := tryAll_steps request command timeout start passes pass held ready
  exact (arrived.trans tried).trans (deliverAll_steps ready)

end Pass

/-! ## Whole operations -/

section Histories

variable {request : Pool → Op → Prop} {command : Pool → Cmd → Prop}

theorem runPasses_steps {timeout : Int} {start begun : Instant} {passes ahead : List Pass}
    {limit : Option Nat} {pool : Pool} (along : PassesAlong command begun limit ahead pool) :
    Steps act (Allowed request command (.run timeout start passes)) pool
      (runPasses begun limit ahead pool).2 := by
  induction ahead generalizing pool with
  | nil => exact .refl pool
  | cons pass rest ih =>
      have first : Steps act (Allowed request command (.run timeout start passes)) pool
          (pool.runPass pass) := runPass_steps along.1
      have later := along.2
      rw [runPasses] at later ⊢
      split
      · exact first
      split
      · exact first.trans (Takes.quitRun.steps trivial)
      split
      · exact first
      · rename_i open' running early
        rw [if_neg open', if_neg running, if_neg early] at later
        exact first.trans (ih (later rfl))

theorem killEvents_steps {op : Op} (kills : ∀ id pool, Takes op pool (.kill id))
    (ids : List EventId) (pool : Pool) :
    Steps act (Allowed request command op) pool (killEvents ids pool) := by
  induction ids generalizing pool with
  | nil => exact .refl pool
  | cons id rest ih => exact ((kills id pool).steps trivial).trans (ih _)

theorem deleteIod_steps {op : Op} (kills : ∀ id pool, Takes op pool (.kill id)) {id : Nat}
    (drops : ∀ pool, Takes op pool (.dropIod id)) (order : List Nat) (pool : Pool) :
    Steps act (Allowed request command op) pool (pool.deleteIod order id).2 :=
  (killEvents_steps kills _ pool).trans ((drops _).steps trivial)

theorem delete_steps (iodOrder : List Nat) (orders : List (List Nat)) (order : List Nat)
    (pool : Pool) :
    Steps act (Allowed request command (.delete iodOrder orders order)) pool
      (pool.delete iodOrder orders order) := by
  have iods (ids : List Nat) (orders' : List (List Nat)) (pool : Pool) :
      Steps act (Allowed request command (.delete iodOrder orders order)) pool
        (deleteIods ids orders' pool) := by
    induction ids generalizing orders' pool with
    | nil => exact .refl pool
    | cons id rest ih =>
        exact (deleteIod_steps (fun _ _ => .kill) (fun _ => .dropIods) _ pool).trans (ih _ _)
  exact ((iods _ _ pool).trans (killEvents_steps (fun _ _ => .kill) _ _)).trans
    (Takes.quitDelete.steps trivial)

/-- **An operation is a sequence of its actions.** Its conditions carry over to
each of them. -/
theorem perform_steps {op : Op} {pool : Pool} (along : OpAlong request command op pool) :
    Steps act (Allowed request command op) pool (perform op pool).2 := by
  by_cases single : op.IsCall
  · refine (Takes.call single).steps ?_
    cases op with
    | run timeout start passes => exact single.elim
    | _ => exact along
  · cases op with
    | run timeout start passes =>
        exact (Takes.quitRun.steps trivial).trans (runPasses_steps along)
    | delete iodOrder orders order => exact delete_steps iodOrder orders order pool
    | deleteIod order id =>
        exact deleteIod_steps (fun _ _ => .killOfIod) (fun _ => .dropIod) order pool
    | arrive attempt outcome => exact Takes.arrive.steps trivial
    | _ => exact (single trivial).elim

theorem execute_cons {op : Op} {pool : Pool} (ongoing : (perform op pool).1 ≠ .running)
    (rest : List Op) : execute (op :: rest) pool = execute rest (perform op pool).2 := by
  rw [execute]
  split
  · rename_i running
    exact absurd (congrArg Prod.fst running) ongoing
  · rename_i performed
    rw [performed]

/-- A loop that is still going ends the history. -/
theorem execute_running {op : Op} {pool : Pool} (running : (perform op pool).1 = .running)
    (rest : List Op) : execute (op :: rest) pool = (perform op pool).2 := by
  rw [execute]
  split
  · rename_i performed
    rw [performed]
  · rename_i ongoing performed
    rw [performed] at running
    exact absurd running ongoing

/-- **A history is a sequence of actions** of its operations. -/
theorem execute_steps {ops : List Op} {pool : Pool} (along : Along request command ops pool) :
    Steps act (fun pool action => ∃ op, Allowed request command op pool action) pool
      (execute ops pool) := by
  induction ops generalizing pool with
  | nil => exact .refl pool
  | cons op rest ih =>
      have first : Steps act (fun pool action => ∃ op, Allowed request command op pool action)
          pool (perform op pool).2 :=
        (perform_steps along.1).mono fun _ _ allowed => ⟨op, allowed⟩
      by_cases running : (perform op pool).1 = .running
      · rw [execute_running running]
        exact first
      · rw [execute_cons running]
        exact first.trans (ih (along.2 running))

theorem receivesAlong_of_forall (commands : ∀ pool cmd, command pool cmd)
    (orders : List (List Nat)) (cmds : List Cmd) (pool : Pool) :
    ReceivesAlong command orders cmds pool := by
  induction cmds generalizing orders pool with
  | nil => trivial
  | cons cmd rest ih => exact ⟨commands pool cmd, ih _ _⟩

theorem opAlong_of_forall (requests : ∀ pool op, request pool op)
    (commands : ∀ pool cmd, command pool cmd) (op : Op) (pool : Pool) :
    OpAlong request command op pool := by
  cases op with
  | run timeout start passes =>
      change PassesAlong _ _ _ passes _
      generalize { pool with quit := false } = pool'
      induction passes generalizing pool' with
      | nil => trivial
      | cons pass rest ih => exact ⟨receivesAlong_of_forall commands _ _ _, fun _ => ih _⟩
  | _ => exact requests pool _

/-- A condition that always holds holds of every history. -/
theorem along_of_forall (requests : ∀ pool op, request pool op)
    (commands : ∀ pool cmd, command pool cmd) (ops : List Op) (pool : Pool) :
    Along request command ops pool := by
  induction ops generalizing pool with
  | nil => trivial
  | cons op rest ih => exact ⟨opAlong_of_forall requests commands op pool, fun _ => ih _⟩

/-! ## Invariants of single actions -/

variable {property : Pool → Prop}

/-- What the actions of the loop preserve, a pass preserves. -/
theorem runPass_invariant_of
    (preserved : ∀ pool action, property pool → Takes (.run 0 0 []) pool action →
      property (pool.act action))
    (pass : Pass) {pool : Pool} (initially : property pool) :
    property ((arriveAll pass.arrivals pool).drainCommands pass.searches) ∧
      property (pool.runPass pass) := by
  have along : ReceivesAlong (fun _ _ => True) pass.searches (arriveAll pass.arrivals pool).channel
      { arriveAll pass.arrivals pool with channel := [] } :=
    receivesAlong_of_forall (fun _ _ => trivial) _ _ _
  have keeps {reached : Pool}
      (steps : Steps act (Allowed (fun _ _ => True) (fun _ _ => True) (.run 0 0 [])) pool reached) :
      property reached :=
    steps.invariant property initially fun state action holds allowed =>
      preserved state action holds allowed.1
  exact ⟨keeps (drain_steps along), keeps (runPass_steps along)⟩

variable
  (preserved : ∀ op pool action, property pool → Takes op pool action → property (pool.act action))

include preserved

/-- What single actions preserve, operations preserve. -/
theorem perform_invariant (op : Op) {pool : Pool} (initially : property pool) :
    property (perform op pool).2 := by
  have along : OpAlong (fun _ _ => True) (fun _ _ => True) op pool :=
    opAlong_of_forall (fun _ _ => trivial) (fun _ _ => trivial) op pool
  exact (perform_steps along).invariant property initially fun state action holds allowed =>
    preserved op state action holds allowed.1

/-- What single actions preserve, a pass of the loop preserves. -/
theorem runPass_invariant (pass : Pass) {pool : Pool} (initially : property pool) :
    property (pool.runPass pass) :=
  (runPass_invariant_of (preserved _) pass initially).2

/-- What single actions preserve, histories preserve. -/
theorem execute_invariant (ops : List Op) {pool : Pool} (initially : property pool) :
    property (execute ops pool) := by
  have along : Along (fun _ _ => True) (fun _ _ => True) ops pool :=
    along_of_forall (fun _ _ => trivial) (fun _ _ => trivial) ops pool
  refine (execute_steps along).invariant property initially ?_
  rintro state action holds ⟨op, allowed⟩
  exact preserved op state action holds allowed.1

end Histories

/-! ## Invariants under conditions -/

section Invariant

variable {command : Pool → Cmd → Prop} {property : Pool → Prop}
  (loops : ∀ pool action, property pool → Takes (.run 0 0 []) pool action →
    property (pool.act action))
  (commands : ∀ pool cmd, property pool → command pool cmd)

include loops commands

theorem receivesAlong_of_invariant {orders : List (List Nat)} {cmds : List Cmd} {pool : Pool}
    (initially : property pool) : ReceivesAlong command orders cmds pool := by
  induction cmds generalizing orders pool with
  | nil => trivial
  | cons cmd rest ih => exact ⟨commands pool cmd initially, ih (loops pool _ initially .receive)⟩

theorem passesAlong_of_invariant {start : Instant} {limit : Option Nat} {passes : List Pass}
    {pool : Pool} (initially : property pool) : PassesAlong command start limit passes pool := by
  induction passes generalizing pool with
  | nil => trivial
  | cons pass rest ih =>
      refine ⟨receivesAlong_of_invariant loops commands ?_,
        fun _ => ih (runPass_invariant_of loops pass initially).2⟩
      have steps : Steps act (Allowed (fun _ _ => True) (fun _ _ => True) (.run 0 0 [])) pool
          (arriveAll pass.arrivals pool) := arriveAll_steps pass.arrivals pool
      have arrived : property (arriveAll pass.arrivals pool) :=
        steps.invariant property initially fun state action holds allowed =>
          loops state action holds allowed.1
      exact loops _ _ arrived .takeChannel

end Invariant

end Pool

end Wnr.Nsock
