import Wnr.Nsock.PassOutcomes
import Wnr.Nsock.Passes

/-! # What an action does to a descriptor

The descriptor under an id and the bytes that went through it, under every action
(`Pool.Takes.iod`). The counters of a descriptor say how many bytes that were
(`Pool.Counted`).
-/

namespace Wnr.Nsock

open Net

/-- The bytes that an effect brings in through a descriptor. -/
def Effect.intake (iodId : Nat) : Effect → List UInt8
  | .received _ key bytes => if key = iodId then bytes else []
  | _ => []

/-- The bytes that an effect sends out through a descriptor. -/
def Effect.output (iodId : Nat) : Effect → List UInt8
  | .accepted _ key bytes => if key = iodId then bytes else []
  | .sent _ key _ data => if key = iodId then data else []
  | _ => []

/-- The bytes received through a descriptor, in order. -/
def intake (iodId : Nat) (log : List Effect) : List UInt8 := log.flatMap (·.intake iodId)

/-- The bytes sent through a descriptor, in order. -/
def output (iodId : Nat) (log : List Effect) : List UInt8 := log.flatMap (·.output iodId)

theorem intake_append (iodId : Nat) (log added : List Effect) :
    intake iodId (log ++ added) = intake iodId log ++ intake iodId added :=
  List.flatMap_append

theorem output_append (iodId : Nat) (log added : List Effect) :
    output iodId (log ++ added) = output iodId log ++ output iodId added :=
  List.flatMap_append

theorem intake_concat (iodId : Nat) (log : List Effect) (effect : Effect) :
    intake iodId (log ++ [effect]) = intake iodId log ++ effect.intake iodId := by
  rw [intake_append, intake, intake, List.flatMap_singleton]

theorem output_concat (iodId : Nat) (log : List Effect) (effect : Effect) :
    output iodId (log ++ [effect]) = output iodId log ++ effect.output iodId := by
  rw [output_append, output, output, List.flatMap_singleton]

/-- An effect that moves no bytes. -/
def Effect.Idle (effect : Effect) : Prop :=
  ∀ iodId, effect.intake iodId = [] ∧ effect.output iodId = []

theorem intake_of_idle {added : List Effect} (idle : ∀ effect ∈ added, effect.Idle) (iodId : Nat) :
    intake iodId added = [] :=
  List.flatMap_eq_nil_iff.mpr fun effect member => (idle effect member iodId).1

theorem output_of_idle {added : List Effect} (idle : ∀ effect ∈ added, effect.Idle) (iodId : Nat) :
    output iodId added = [] :=
  List.flatMap_eq_nil_iff.mpr fun effect member => (idle effect member iodId).2

/-- The bytes that an effect brings to an event. -/
def Effect.receivedBy (id : EventId) : Effect → List UInt8
  | .received event _ bytes => if event = id then bytes else []
  | _ => []

/-- The bytes of an event that an effect hands to a stream. -/
def Effect.acceptedBy (id : EventId) : Effect → List UInt8
  | .accepted event _ bytes => if event = id then bytes else []
  | _ => []

/-- The bytes that an event has received, in order. -/
def receivedBy (id : EventId) (log : List Effect) : List UInt8 := log.flatMap (·.receivedBy id)

/-- The bytes of an event that a stream has accepted, in order. -/
def acceptedBy (id : EventId) (log : List Effect) : List UInt8 := log.flatMap (·.acceptedBy id)

theorem acceptedBy_append (id : EventId) (log added : List Effect) :
    acceptedBy id (log ++ added) = acceptedBy id log ++ acceptedBy id added :=
  List.flatMap_append

theorem receivedBy_about (id : EventId) (log : List Effect) :
    receivedBy id (about id log) = receivedBy id log := by
  refine flatMap_about (fun effect foreign => ?_) log
  cases effect with
  | received event key bytes => exact if_neg fun own => foreign (congrArg some own)
  | requested | addressed | called | silenced | result | accepted | sent => rfl

theorem acceptedBy_about (id : EventId) (log : List Effect) :
    acceptedBy id (about id log) = acceptedBy id log := by
  refine flatMap_about (fun effect foreign => ?_) log
  cases effect with
  | accepted event key bytes => exact if_neg fun own => foreign (congrArg some own)
  | requested | addressed | called | silenced | result | received | sent => rfl

theorem Effect.Idle.acceptedBy {effect : Effect} (idle : effect.Idle) (id : EventId) :
    effect.acceptedBy id = [] := by
  cases effect with
  | accepted event key bytes =>
      have nothing := (idle key).2
      rw [Effect.output, if_pos rfl] at nothing
      rw [Effect.acceptedBy, nothing, ite_self]
  | requested | addressed | called | silenced | result | received | sent => rfl

theorem acceptedBy_of_idle {added : List Effect} (idle : ∀ effect ∈ added, effect.Idle)
    (id : EventId) : acceptedBy id added = [] :=
  List.flatMap_eq_nil_iff.mpr fun effect member => (idle effect member).acceptedBy id

namespace Pool

variable {pool after : Pool} {op : Op} {iodId : Nat}

/-! ## Single actions -/

/-- The operation makes a datagram descriptor of the descriptor. -/
def Op.Associates (iodId : Nat) : Op → Prop
  | .connectUdp key _ _ | .sendUdp key _ _ _ _ _ => key = iodId
  | _ => False

/-- The operation creates a datagram descriptor. -/
def Op.CreatesUdp : Op → Prop
  | .createIodUdp _ | .createIodUdpFrom _ => True
  | _ => False

/-- What an action can do to a descriptor; bytes move in one case for each direction. -/
inductive IodStep (pool : Pool) (action : Action) (iodId : Nat) (after : Pool) : Prop
  | kept (same : after.iods.lookup iodId = pool.iods.lookup iodId)
      (intake : intake iodId after.log = intake iodId pool.log)
      (output : output iodId after.log = output iodId pool.log)
  | added (fresh : iodId = pool.iodCounter + 1) (counter : iodId ≤ after.iodCounter) (iod : Iod)
      (described : after.iods.lookup iodId = some iod)
      (unused : iod.readCount = 0 ∧ iod.writeCount = 0)
      (kind : iod.kind = .tcp ∨ ∃ op, action = .call op ∧ Op.CreatesUdp op)
      (intake : intake iodId after.log = intake iodId pool.log)
      (output : output iodId after.log = output iodId pool.log)
  | connected (iod : Iod) (stream : TcpStream) (found : pool.iods.lookup iodId = some iod)
      (described : after.iods.lookup iodId = some (iod.install stream))
      (intake : intake iodId after.log = intake iodId pool.log)
      (output : output iodId after.log = output iodId pool.log)
  | associated (iod : Iod) (addr : SocketAddr) (succeeds : Bool)
      (asked : ∃ op, action = .call op ∧ Op.Associates iodId op)
      (found : pool.iods.lookup iodId = some iod)
      (described : after.iods.lookup iodId = some (iod.associate addr succeeds))
      (intake : intake iodId after.log = intake iodId pool.log)
      (output : output iodId after.log = output iodId pool.log)
  | credited (iod : Iod) (bytes : List UInt8) (found : pool.iods.lookup iodId = some iod)
      (described : after.iods.lookup iodId =
        some { iod with readCount := iod.readCount + bytes.length })
      (intake : intake iodId after.log = intake iodId pool.log ++ bytes)
      (output : output iodId after.log = output iodId pool.log)
  | debited (iod : Iod) (bytes : List UInt8) (found : pool.iods.lookup iodId = some iod)
      (described : after.iods.lookup iodId =
        some { iod with writeCount := iod.writeCount + bytes.length })
      (intake : intake iodId after.log = intake iodId pool.log)
      (output : output iodId after.log = output iodId pool.log ++ bytes)
  | dropped (asked : action = .dropIod iodId) (missing : after.iods.lookup iodId = none)
      (intake : intake iodId after.log = intake iodId pool.log)
      (output : output iodId after.log = output iodId pool.log)

theorem IodStep.of_idle {action : Action} {added : List Effect} (iods : after.iods = pool.iods)
    (log : after.log = pool.log ++ added) (idle : ∀ effect ∈ added, effect.Idle) :
    IodStep pool action iodId after := by
  refine .kept (by rw [iods]) ?_ ?_
  · rw [log, intake_append, intake_of_idle idle, List.append_nil]
  · rw [log, output_append, output_of_idle idle, List.append_nil]

theorem IodStep.of_view {action : Action} (same : SameView pool after) :
    IodStep pool action iodId after :=
  .kept (by rw [same.iods]) (by rw [same.log]) (by rw [same.log])

theorem idle_callEffects (handler : Handler) (id : EventId) (status : EventStatus) :
    ∀ effect ∈ callEffects handler id status, effect.Idle := by
  cases handler with
  | caller owner => exact List.forall_mem_singleton.mpr fun _ => ⟨rfl, rfl⟩
  | noop => exact List.forall_mem_nil _

theorem IodStep.addIod {action : Action} (iod : Iod) (unused : iod.readCount = 0 ∧ iod.writeCount = 0)
    (kind : iod.kind = .tcp ∨ ∃ op, action = .call op ∧ Op.CreatesUdp op) :
    IodStep pool action iodId (pool.addIod iod).2 := by
  by_cases fresh : iodId = pool.iodCounter + 1
  · subst fresh
    exact .added rfl (Nat.le_refl _) _ (AList.lookup_insert _) unused kind rfl rfl
  · exact .kept (AList.lookup_insert_ne fresh) rfl rfl

theorem IodStep.connectUdp {action : Action} (key : Nat) (addr : SocketAddr) (succeeds : Bool)
    (asked : ∃ op, action = .call op ∧ Op.Associates key op)
    (iods : after.iods = (pool.connectUdp key addr succeeds).iods) {added : List Effect}
    (log : after.log = pool.log ++ added) (idle : ∀ effect ∈ added, effect.Idle) :
    IodStep pool action iodId after := by
  have intake : intake iodId after.log = Nsock.intake iodId pool.log := by
    rw [log, intake_append, intake_of_idle idle, List.append_nil]
  have output : output iodId after.log = Nsock.output iodId pool.log := by
    rw [log, output_append, output_of_idle idle, List.append_nil]
  by_cases here : iodId = key
  · subst here
    have described : after.iods.lookup iodId =
        (pool.iods.lookup iodId).map (·.associate addr succeeds) := by
      rw [iods]
      exact Table.lookup_modify _
    cases found : pool.iods.lookup iodId with
    | none =>
        rw [found, Option.map_none] at described
        exact .kept (described.trans found.symm) intake output
    | some iod =>
        rw [found, Option.map_some] at described
        exact .associated iod addr succeeds asked found described intake output
  · refine .kept ?_ intake output
    rw [iods]
    exact Table.lookup_modify_ne _ here

theorem cancel_idle (pool : Pool) (id : EventId) (notify : Bool) :
    ∃ added, (pool.cancel id notify).2.log = pool.log ++ added ∧ ∀ effect ∈ added, effect.Idle := by
  rcases cancel_cases pool id notify with ⟨missed, -⟩ | ⟨e, ended, -, -, cases⟩
  · rw [missed]
    exact ⟨[], (List.append_nil _).symm, List.forall_mem_nil _⟩
  · rcases cases with ⟨again, -⟩ | ⟨-, ⟨calls, -⟩ | ⟨quietly, -⟩⟩
    · rw [again]
      exact ⟨[], (List.append_nil _).symm, List.forall_mem_nil _⟩
    · rw [calls]
      exact ⟨_, call_log .., idle_callEffects _ _ _⟩
    · rw [quietly]
      exact ⟨[_], rfl, List.forall_mem_singleton.mpr fun _ => ⟨rfl, rfl⟩⟩

theorem call_iod {op : Op} (single : op.IsCall) (pool : Pool) (iodId : Nat) :
    IodStep pool (.call op) iodId (perform op pool).2 := by
  have requested (kind : EventType) (iod : Option Nat) (deadline : Option Instant)
      (wbuf : Option (List UInt8)) (target : Nat) (lineRead : Bool)
      (same : SameView (pool.schedule kind iod deadline wbuf target lineRead).2 (perform op pool).2) :
      IodStep pool (.call op) iodId (perform op pool).2 :=
    .of_idle same.iods same.log (List.forall_mem_singleton.mpr fun _ => ⟨rfl, rfl⟩)
  have udp (creates : Op.CreatesUdp op) (iod : Iod) :
      iod.kind = .tcp ∨ ∃ other, Action.call op = .call other ∧ Op.CreatesUdp other :=
    .inr ⟨op, rfl, creates⟩
  cases op with
  | run | delete | deleteIod | arrive => exact single.elim
  | setBroadcast | loopQuit => exact .of_view ⟨rfl, rfl, rfl, rfl⟩
  | takeReadBuf event =>
      refine .of_view ?_
      change SameView pool (pool.takeReadBuf event).2
      rw [takeReadBuf]
      split <;> exact ⟨rfl, rfl, rfl, rfl⟩
  | createIodTcp => exact .addIod .newTcp ⟨rfl, rfl⟩ (.inl rfl)
  | createIodTcpFrom stream => exact .addIod _ ⟨rfl, rfl⟩ (.inl rfl)
  | createIodUdp binds => cases binds <;> exact .addIod _ ⟨rfl, rfl⟩ (udp trivial _)
  | createIodUdpFrom sock => exact .addIod _ ⟨rfl, rfl⟩ (udp trivial _)
  | connectUdp key addr succeeds =>
      exact .connectUdp key addr succeeds ⟨_, rfl, rfl⟩ rfl (List.append_nil _).symm
        (List.forall_mem_nil _)
  | sendUdp key addr data timeoutMs succeeds now =>
      refine .connectUdp key addr succeeds ⟨_, rfl, rfl⟩ rfl (List.append_assoc _ [_] [_]) ?_
      exact List.forall_mem_cons.mpr ⟨fun _ => ⟨rfl, rfl⟩,
        List.forall_mem_singleton.mpr fun _ => ⟨rfl, rfl⟩⟩
  | connectTcp => exact requested _ _ _ _ _ _ ⟨rfl, rfl, rfl, rfl⟩
  | read | readBytes | readlines | write | writeFmt | printf | timerCreate =>
      exact requested _ _ _ _ _ _ .rfl
  | cancel event notify =>
      have iods := iods_cancel pool event notify
      obtain ⟨added, log, idle⟩ := cancel_idle pool event notify
      exact .of_idle iods log idle

theorem receive_iod {action : Action} (pool : Pool) (order : List Nat) (cmd : Cmd) (iodId : Nat) :
    IodStep pool action iodId (pool.receive order cmd) := by
  cases cmd with
  | quit => exact .of_view ⟨rfl, rfl, rfl, rfl⟩
  | connectResult result =>
      cases target : pool.connectTarget order result.iod with
      | none =>
          rw [receive_result_of_none target]
          exact .of_idle rfl rfl (List.forall_mem_singleton.mpr fun _ => ⟨rfl, rfl⟩)
      | some evid =>
          obtain ⟨e, -, -, -, received⟩ := receive_result_of_some target
          have iods : (pool.receive order (.connectResult result)).iods =
              (pool.install result).iods := by
            rw [received]
            simp only [apply_ite Pool.iods, call_iods, ite_self]
            rfl
          have log : ∃ added, (pool.receive order (.connectResult result)).log =
              pool.log ++ added ∧ ∀ effect ∈ added, effect.Idle := by
            have logged (receipt : Receipt) : (((pool.install result).note (.result receipt)).drop
                evid).log = pool.log ++ [.result receipt] := by
              rw [drop_log, note_log, install_log]
            have receipt (receipt : Receipt) : ∀ effect ∈ [Effect.result receipt], effect.Idle :=
              List.forall_mem_singleton.mpr fun _ => ⟨rfl, rfl⟩
            rw [received]
            split
            · exact ⟨_, logged _, receipt _⟩
            · refine ⟨_, by rw [call_log, logged, List.append_assoc], ?_⟩
              intro effect member
              exact (List.mem_append.mp member).elim (receipt _ effect)
                (idle_callEffects _ _ _ effect)
          obtain ⟨added, log, idle⟩ := log
          cases stream : result.stream with
          | none =>
              refine .of_idle (iods.trans ?_) log idle
              rw [install, stream]
          | some stream' =>
              have intake : intake iodId (pool.receive order (.connectResult result)).log =
                  Nsock.intake iodId pool.log := by
                rw [log, intake_append, intake_of_idle idle, List.append_nil]
              have output : output iodId (pool.receive order (.connectResult result)).log =
                  Nsock.output iodId pool.log := by
                rw [log, output_append, output_of_idle idle, List.append_nil]
              have modified : (pool.receive order (.connectResult result)).iods =
                  Table.modify pool.iods result.iod (·.install stream') := by
                rw [iods, install, stream]
              by_cases here : iodId = result.iod
              · subst here
                have described : (pool.receive order (.connectResult result)).iods.lookup result.iod =
                    (pool.iods.lookup result.iod).map (·.install stream') := by
                  rw [modified]
                  exact Table.lookup_modify _
                cases found : pool.iods.lookup result.iod with
                | none =>
                    rw [found, Option.map_none] at described
                    exact .kept (described.trans found.symm) intake output
                | some iod =>
                    rw [found, Option.map_some] at described
                    exact .connected iod stream' found described intake output
              · refine .kept ?_ intake output
                rw [modified]
                exact Table.lookup_modify_ne _ here

theorem tryRead_iod {action : Action} (pool : Pool) (id : EventId)
    (outcome : SocketResult (List UInt8)) (iodId : Nat) :
    IodStep pool action iodId (pool.tryRead id outcome).2 := by
  obtain ⟨_, -, same | ⟨e, key, iod, buf, b, -, -, described, read⟩⟩ := tryRead_cases pool id outcome
  · rw [same]
    exact .of_view .rfl
  · rw [read]
    have intake := intake_concat iodId pool.log (.received id key b)
    have output := output_concat iodId pool.log (.received id key b)
    by_cases here : key = iodId
    · subst here
      refine .credited iod b described (AList.lookup_insert _) (intake.trans ?_)
        (output.trans (List.append_nil _))
      rw [Effect.intake, if_pos rfl]
    · refine .kept (AList.lookup_insert_ne (Ne.symm here)) (intake.trans ?_)
        (output.trans (List.append_nil _))
      rw [Effect.intake, if_neg here, List.append_nil]

theorem tryWrite_iod {action : Action} (pool : Pool) (id : EventId) (outcome : SocketResult Nat)
    (iodId : Nat) : IodStep pool action iodId (pool.tryWrite id outcome).2 := by
  obtain ⟨_, -, same | ⟨e, key, iod, data, -, -, described, -, wrote⟩⟩ :=
    tryWrite_cases pool id outcome
  · rw [same]
    exact .of_view .rfl
  rcases wrote with ⟨n, -, fits, accepted⟩ | ⟨peer, -, sent⟩
  · rw [accepted]
    have intake := intake_concat iodId pool.log (.accepted id key (data.take n))
    have output := output_concat iodId pool.log (.accepted id key (data.take n))
    by_cases here : key = iodId
    · subst here
      refine .debited iod (data.take n) described ?_ (intake.trans (List.append_nil _))
        (output.trans ?_)
      · rw [List.length_take, Nat.min_eq_left fits]
        exact AList.lookup_insert _
      · rw [Effect.output, if_pos rfl]
    · refine .kept (AList.lookup_insert_ne (Ne.symm here)) (intake.trans (List.append_nil _))
        (output.trans ?_)
      rw [Effect.output, if_neg here, List.append_nil]
  · rw [sent]
    have intake := intake_concat iodId pool.log (.sent id key peer data)
    have output := output_concat iodId pool.log (.sent id key peer data)
    by_cases here : key = iodId
    · subst here
      refine .debited iod data described (AList.lookup_insert _) (intake.trans (List.append_nil _))
        (output.trans ?_)
      rw [Effect.output, if_pos rfl]
    · refine .kept (AList.lookup_insert_ne (Ne.symm here)) (intake.trans (List.append_nil _))
        (output.trans ?_)
      rw [Effect.output, if_neg here, List.append_nil]

/-- **Every action of an operation** keeps, adds, changes or drops a descriptor. -/
theorem Takes.iod {action : Action} (taken : Takes op pool action) (iodId : Nat) :
    IodStep pool action iodId (pool.act action) := by
  cases taken with
  | call single => exact call_iod single pool iodId
  | arrive | arriveRun => exact .of_view (arrive_view pool _ _)
  | takeChannel | quitRun | quitDelete => exact .of_view ⟨rfl, rfl, rfl, rfl⟩
  | receive => exact receive_iod pool _ _ iodId
  | tryRead => exact tryRead_iod pool _ _ iodId
  | tryWrite => exact tryWrite_iod pool _ _ iodId
  | deliver =>
      rename_i id status _
      rcases deliver_cases pool id status with same | ⟨e, -, -, same⟩
      · exact .of_view same
      · exact .of_idle (same.iods.trans (call_iods ..)) (same.log.trans (call_log ..))
          (idle_callEffects _ _ _)
  | killOfIod | kill =>
      rename_i id
      rcases killEvent_cases pool id with ⟨same, -⟩ | ⟨e, -, same⟩
      · exact .of_idle same.iods (same.log.trans (List.append_nil _).symm) (List.forall_mem_nil _)
      · exact .of_idle (same.iods.trans (call_iods ..)) (same.log.trans (call_log ..))
          (idle_callEffects _ _ _)
  | dropIod | dropIods =>
      rename_i key
      by_cases here : iodId = key
      · subst here
        exact .dropped rfl (AList.lookup_erase ..) rfl rfl
      · exact .kept (AList.lookup_erase_ne here) rfl rfl

/-! ## The counters -/

/-- Ids above the counter are unused, and the counters of a descriptor give the numbers
of bytes that went through it. -/
structure Counted (pool : Pool) : Prop where
  unused : ∀ iodId, pool.iodCounter < iodId → pool.iods.lookup iodId = none ∧
    intake iodId pool.log = [] ∧ output iodId pool.log = []
  counts : ∀ iodId iod, pool.iods.lookup iodId = some iod →
    iod.readCount = (intake iodId pool.log).length ∧
      iod.writeCount = (output iodId pool.log).length

theorem counted_new : new.Counted where
  unused _ _ := ⟨rfl, rfl, rfl⟩
  counts _ _ found := nomatch found

theorem call_iodCounter (pool : Pool) (handler : Handler) (id : EventId) (status : EventStatus) :
    (pool.call handler id status).iodCounter = pool.iodCounter := by
  cases handler <;> rfl

theorem receive_iodCounter (pool : Pool) (order : List Nat) (cmd : Cmd) :
    (pool.receive order cmd).iodCounter = pool.iodCounter := by
  cases cmd with
  | quit => rfl
  | connectResult result =>
      have installed : (pool.install result).iodCounter = pool.iodCounter := by
        rw [install]
        split <;> rfl
      cases target : pool.connectTarget order result.iod with
      | none =>
          rw [receive_result_of_none target]
          rfl
      | some evid =>
          obtain ⟨e, -, -, -, received⟩ := receive_result_of_some target
          rw [received]
          split
          · exact installed
          · exact (call_iodCounter ..).trans installed

theorem deliver_iodCounter (pool : Pool) (id : EventId) (status : EventStatus) :
    (pool.deliver id status).iodCounter = pool.iodCounter := by
  rw [deliver]
  split
  · rfl
  split
  · rfl
  · rw [call_iodCounter]
    split <;> rfl

theorem killEvent_iodCounter (pool : Pool) (id : EventId) :
    (pool.killEvent id).iodCounter = pool.iodCounter := by
  rw [killEvent]
  split
  · rfl
  split
  · exact call_iodCounter ..
  · rfl

/-- No action takes an id back. -/
theorem Takes.iodCounter {action : Action} (taken : Takes op pool action) :
    pool.iodCounter ≤ (pool.act action).iodCounter := by
  cases taken with
  | call single =>
      cases op with
      | run | delete | deleteIod | arrive => exact single.elim
      | createIodUdp binds => cases binds <;> exact Nat.le_succ _
      | createIodTcp | createIodTcpFrom | createIodUdpFrom => exact Nat.le_succ _
      | takeReadBuf event =>
          change pool.iodCounter ≤ (pool.takeReadBuf event).2.iodCounter
          rw [takeReadBuf]
          split <;> exact Nat.le_refl _
      | cancel event notify =>
          change pool.iodCounter ≤ (pool.cancel event notify).2.iodCounter
          rcases cancel_cases pool event notify with
            ⟨same, -⟩ | ⟨_, _, -, -, ⟨same, -⟩ | ⟨-, ⟨same, -⟩ | ⟨same, -⟩⟩⟩
          · rw [same]
          · rw [same]
            exact Nat.le_refl _
          · rw [same, call_iodCounter]
            exact Nat.le_refl _
          · rw [same]
            exact Nat.le_refl _
      | _ => exact Nat.le_refl _
  | arrive | arriveRun =>
      rw [act, Pool.arrive]
      split <;> exact Nat.le_refl _
  | takeChannel | quitRun | quitDelete | dropIod | dropIods => exact Nat.le_refl _
  | receive => exact (receive_iodCounter pool _ _).ge
  | tryRead =>
      rename_i id outcome _
      change pool.iodCounter ≤ (pool.tryRead id outcome).2.iodCounter
      obtain ⟨_, -, same | ⟨_, _, _, _, _, -, -, -, read⟩⟩ := tryRead_cases pool id outcome
      · rw [same]
      · rw [read]
        exact Nat.le_refl _
  | tryWrite =>
      rename_i id outcome _
      change pool.iodCounter ≤ (pool.tryWrite id outcome).2.iodCounter
      obtain ⟨_, -, same | ⟨_, _, _, _, -, -, -, -, ⟨_, -, -, wrote⟩ | ⟨_, -, wrote⟩⟩⟩ :=
        tryWrite_cases pool id outcome
      · rw [same]
      · rw [wrote]
        exact Nat.le_refl _
      · rw [wrote]
        exact Nat.le_refl _
  | deliver => exact (deliver_iodCounter pool _ _).ge
  | killOfIod | kill => exact (killEvent_iodCounter pool _).ge

theorem Counted.act (counted : pool.Counted) {action : Action} (taken : Takes op pool action) :
    (pool.act action).Counted := by
  have counter := taken.iodCounter
  constructor
  · intro iodId above
    obtain ⟨missing, nothingIn, nothingOut⟩ := counted.unused iodId (counter.trans_lt above)
    cases taken.iod iodId with
    | kept same intake output =>
        exact ⟨same.trans missing, intake.trans nothingIn, output.trans nothingOut⟩
    | added fresh counter => exact absurd counter (Nat.not_le.mpr above)
    | connected iod _ found | associated iod _ _ _ found | credited iod _ found
    | debited iod _ found =>
        rw [missing] at found
        cases found
    | dropped asked missing intake output =>
        exact ⟨missing, intake.trans nothingIn, output.trans nothingOut⟩
  · intro iodId iod' described'
    cases taken.iod iodId with
    | kept same intake output =>
        rw [intake, output]
        exact counted.counts iodId iod' (same.symm.trans described')
    | added fresh _ iod described unused kind intake output =>
        obtain ⟨-, nothingIn, nothingOut⟩ := counted.unused iodId (fresh ▸ Nat.lt_succ_self _)
        obtain rfl := Option.some.inj (described.symm.trans described')
        rw [intake, output, nothingIn, nothingOut]
        exact unused
    | connected iod _ found described intake output
    | associated iod _ _ _ found described intake output =>
        obtain rfl := Option.some.inj (described.symm.trans described')
        rw [intake, output]
        exact counted.counts iodId iod found
    | credited iod bytes found described intake output =>
        obtain rfl := Option.some.inj (described.symm.trans described')
        obtain ⟨read, written⟩ := counted.counts iodId iod found
        rw [intake, output, List.length_append]
        exact ⟨congrArg (· + bytes.length) read, written⟩
    | debited iod bytes found described intake output =>
        obtain rfl := Option.some.inj (described.symm.trans described')
        obtain ⟨read, written⟩ := counted.counts iodId iod found
        rw [intake, output, List.length_append]
        exact ⟨read, congrArg (· + bytes.length) written⟩
    | dropped asked missing => cases missing.symm.trans described'

theorem Counted.execute (counted : pool.Counted) (ops : List Op) : (execute ops pool).Counted :=
  execute_invariant (fun _ _ _ counted taken => counted.act taken) ops counted

/-! ## Bytes move in the loop only -/

theorem Emission.idle {action : Action} {effect : Effect} (outside : ¬ op.IsRun)
    (taken : Takes op pool action) (emission : Emission pool op action effect) : effect.Idle := by
  cases emission with
  | read | wrote =>
      cases taken
      exact absurd trivial outside
  | _ => exact fun _ => ⟨rfl, rfl⟩

/-- Outside the loop no bytes move. -/
theorem perform_idle (sound : pool.Sound) (outside : ¬ op.IsRun) :
    ∃ added, (perform op pool).2.log = pool.log ++ added ∧ ∀ effect ∈ added, effect.Idle := by
  obtain ⟨added, log, emitted⟩ := perform_emitted sound op
  refine ⟨added, log, fun effect member => ?_⟩
  obtain ⟨state, action, -, taken, emission⟩ := emitted effect member
  exact emission.idle outside taken

end Pool

end Wnr.Nsock
