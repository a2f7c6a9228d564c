import Wnr.Nsock.Deletions
import Wnr.Nsock.IodSteps

/-! # Where the bytes of a stream go

While a descriptor is not deleted or made a datagram descriptor, and has at most one
undelivered read event at a time (`Pool.Undisturbed`), each byte that comes in through
it goes to the read event that was requested last, behind what that event has already
(`Pool.Ledger`).
-/

namespace Wnr.Nsock

/-- The read event that an effect requests from a descriptor. -/
def Effect.readOf (iodId : Nat) : Effect → Option EventId
  | .requested event .read (some key) _ => if key = iodId then some event else none
  | _ => none

/-- The read events of a descriptor, in the order of their requests. -/
def readEvents (iodId : Nat) (log : List Effect) : List EventId := log.filterMap (·.readOf iodId)

theorem readEvents_append (iodId : Nat) (log added : List Effect) :
    readEvents iodId (log ++ added) = readEvents iodId log ++ readEvents iodId added :=
  List.filterMap_append

theorem Effect.readOf_eq_some {iodId : Nat} {id : EventId} {effect : Effect} :
    effect.readOf iodId = some id ↔ ∃ wbuf, effect = .requested id .read (some iodId) wbuf := by
  constructor
  · intro read
    unfold readOf at read
    split at read
    · rename_i event key wbuf
      by_cases own : key = iodId
      · rw [if_pos own] at read
        obtain rfl := Option.some.inj read
        exact ⟨wbuf, by rw [own]⟩
      · rw [if_neg own] at read
        cases read
    · cases read
  · rintro ⟨wbuf, rfl⟩
    exact if_pos rfl

theorem mem_readEvents {iodId : Nat} {id : EventId} {log : List Effect} :
    id ∈ readEvents iodId log ↔ ∃ wbuf, .requested id .read (some iodId) wbuf ∈ log := by
  rw [readEvents, List.mem_filterMap]
  constructor
  · rintro ⟨effect, member, read⟩
    obtain ⟨wbuf, rfl⟩ := Effect.readOf_eq_some.mp read
    exact ⟨wbuf, member⟩
  · rintro ⟨wbuf, member⟩
    exact ⟨_, member, Effect.readOf_eq_some.mpr ⟨wbuf, rfl⟩⟩

theorem readEvents_of_none {iodId : Nat} {added : List Effect}
    (none' : ∀ effect ∈ added, effect.readOf iodId = none) : readEvents iodId added = [] :=
  List.filterMap_eq_nil_iff.mpr none'

/-- The chunk that an effect brings in through a descriptor. -/
def Effect.chunk (iodId : Nat) : Effect → Option (List UInt8)
  | .received _ key bytes => if key = iodId then some bytes else none
  | _ => none

/-- The chunk that an effect brings to an event. -/
def Effect.chunkOf (id : EventId) : Effect → Option (List UInt8)
  | .received event _ bytes => if event = id then some bytes else none
  | _ => none

/-- The chunks received through a descriptor, in order. -/
def chunks (iodId : Nat) (log : List Effect) : List (List UInt8) := log.filterMap (·.chunk iodId)

/-- The chunks that an event has received, in order. -/
def chunksOf (id : EventId) (log : List Effect) : List (List UInt8) := log.filterMap (·.chunkOf id)

theorem flatten_filterMap {α β : Type*} {part : α → Option (List β)} {bytes : α → List β}
    (same : ∀ item, bytes item = (part item).getD []) (items : List α) :
    (items.filterMap part).flatten = items.flatMap bytes := by
  induction items with
  | nil => rfl
  | cons item items ih =>
      rw [List.flatMap_cons, same, ← ih]
      cases found : part item with
      | none => rw [List.filterMap_cons_none found, Option.getD_none, List.nil_append]
      | some chunk => rw [List.filterMap_cons_some found, Option.getD_some, List.flatten_cons]

theorem flatten_chunks (iodId : Nat) (log : List Effect) :
    (chunks iodId log).flatten = intake iodId log := by
  refine flatten_filterMap (fun effect => ?_) log
  cases effect with
  | received event key bytes =>
      rw [Effect.intake, Effect.chunk]
      split <;> rfl
  | requested | addressed | called | silenced | result | accepted | sent => rfl

theorem flatten_chunksOf (id : EventId) (log : List Effect) :
    (chunksOf id log).flatten = receivedBy id log := by
  refine flatten_filterMap (fun effect => ?_) log
  cases effect with
  | received event key bytes =>
      rw [Effect.receivedBy, Effect.chunkOf]
      split <;> rfl
  | requested | addressed | called | silenced | result | accepted | sent => rfl

theorem chunks_append (iodId : Nat) (log added : List Effect) :
    chunks iodId (log ++ added) = chunks iodId log ++ chunks iodId added :=
  List.filterMap_append

theorem chunksOf_append (id : EventId) (log added : List Effect) :
    chunksOf id (log ++ added) = chunksOf id log ++ chunksOf id added :=
  List.filterMap_append

theorem chunksOf_about (id : EventId) (log : List Effect) :
    chunksOf id (about id log) = chunksOf id log := by
  rw [chunksOf, chunksOf, about, List.filterMap_filter]
  refine List.filterMap_congr fun effect _ => ?_
  split
  · rfl
  · rename_i foreign
    rw [decide_eq_true_iff] at foreign
    cases effect with
    | received event key bytes => exact (if_neg fun own => foreign (congrArg some own)).symm
    | requested | addressed | called | silenced | result | accepted | sent => rfl

/-- An effect that brings no bytes in. -/
def Effect.Dry (effect : Effect) : Prop :=
  (∀ iodId, effect.chunk iodId = none) ∧ ∀ id, effect.chunkOf id = none

/-- Bytes for the last of several keys come behind everything else. -/
theorem flatMap_of_last {α β : Type*} {keys : List α} {last : α} {share share' : α → List β}
    {bytes : List β} (distinct : keys.Nodup) (ends : keys.getLast? = some last)
    (others : ∀ key, key ≠ last → share' key = share key)
    (own : share' last = share last ++ bytes) :
    keys.flatMap share' = keys.flatMap share ++ bytes := by
  obtain ⟨front, rfl⟩ := List.getLast?_eq_some_iff.mp ends
  have apart : last ∉ front := by
    rw [List.nodup_append] at distinct
    exact fun member => distinct.2.2 last member last List.mem_cons_self rfl
  have front' : front.flatMap share' = front.flatMap share :=
    List.flatMap_congr fun key member => others key fun same => apart (same ▸ member)
  rw [List.flatMap_append, List.flatMap_append, front', List.flatMap_singleton,
    List.flatMap_singleton, own, List.append_assoc]

namespace Pool

variable {pool after : Pool} {op : Op} {id iodId : Nat} {emits : Effect → Prop}

/-! ## Read events -/

theorem Traced.mem_readEvents (valid : pool.Traced) {e : Pending}
    (held : pool.pending.lookup id = some e) :
    id ∈ readEvents iodId pool.log ↔ e.kind = .read ∧ e.iod = some iodId := by
  rw [Nsock.mem_readEvents, valid.traced id e held]
  exact and_congr eq_comm eq_comm

theorem Sound.created_of_read (sound : pool.Sound) (read : id ∈ readEvents iodId pool.log) :
    pool.Created id := by
  obtain ⟨wbuf, member⟩ := mem_readEvents.mp read
  exact sound.mentioned _ member id rfl

theorem EventChange.mem_readEvents (change : EventChange emits pool after)
    (created : pool.Created id) :
    id ∈ readEvents iodId after.log ↔ id ∈ readEvents iodId pool.log := by
  rw [Nsock.mem_readEvents, Nsock.mem_readEvents]
  exact exists_congr fun _ => change.requested_iff created

/-- A change requests at most one read, and it is the next event. -/
theorem EventChange.readEvents_cases (change : EventChange emits pool after) (iodId : Nat) :
    readEvents iodId after.log = readEvents iodId pool.log ∨
      readEvents iodId after.log = readEvents iodId pool.log ++ [pool.eventCounter + 1] ∧
        ∃ wbuf, emits (.requested (pool.eventCounter + 1) .read (some iodId) wbuf) := by
  have receipts_none {added : List Effect}
      (receipts : ∀ effect ∈ added, (∃ receipt, effect = .result receipt) ∧ emits effect) :
      ∀ effect ∈ added, effect.readOf iodId = none := by
    intro effect member
    obtain ⟨⟨receipt, rfl⟩, -⟩ := receipts effect member
    rfl
  cases change with
  | quiet pending counter added receipts log =>
      refine .inl ?_
      rw [log, readEvents_append, readEvents_of_none (receipts_none receipts), List.append_nil]
  | created e handler live pending counter emitted added addresses log =>
      have none' : readEvents iodId added = [] := by
        refine readEvents_of_none fun effect member => ?_
        obtain ⟨⟨addr, rfl⟩, -⟩ := addresses effect member
        rfl
      rw [log, readEvents_append, ← List.singleton_append, readEvents_append, none',
        List.append_nil]
      cases read : (Effect.requested (pool.eventCounter + 1) e.kind e.iod e.wbuf).readOf iodId with
      | none =>
          refine .inl ?_
          rw [readEvents_of_none (List.forall_mem_singleton.mpr read), List.append_nil]
      | some event =>
          obtain ⟨wbuf, same⟩ := Effect.readOf_eq_some.mp read
          rw [same] at emitted
          injection same with own
          subst own
          refine .inr ⟨?_, wbuf, emitted⟩
          exact congrArg (_ ++ ·) (List.filterMap_cons_some read)
  | moved event e buf wbuf effect io held pending counter emitted log =>
      refine .inl ?_
      have none' : effect.readOf iodId = none := by cases io <;> rfl
      rw [log, readEvents_append, readEvents_of_none (List.forall_mem_singleton.mpr none'),
        List.append_nil]
  | ended event e held others closed counter added receipts last outcome emitted log =>
      refine .inl ?_
      have none' : last.readOf iodId = none := by
        rcases outcome with rfl | ⟨status, rfl⟩ <;> rfl
      rw [log, readEvents_append, readEvents_append, readEvents_of_none (receipts_none receipts),
        readEvents_of_none (List.forall_mem_singleton.mpr none'), List.append_nil, List.append_nil]
  | forgotten event held others closed counter log => exact .inl (by rw [log])

/-! ## Actions that bring nothing in -/

/-- Only a read brings bytes in. -/
theorem Takes.dry (sound : pool.Sound) {action : Action} (taken : Takes op pool action)
    (other : ∀ event outcome, action ≠ .tryRead event outcome) :
    ∃ added, (pool.act action).log = pool.log ++ added ∧ ∀ effect ∈ added, effect.Dry := by
  by_cases writes : ∃ event outcome, action = .tryWrite event outcome
  · obtain ⟨event, outcome, rfl⟩ := writes
    change ∃ added, (pool.tryWrite event outcome).2.log = _ ∧ _
    obtain ⟨_, -, same | ⟨_, _, _, _, -, -, -, -, ⟨_, -, -, wrote⟩ | ⟨_, -, wrote⟩⟩⟩ :=
      tryWrite_cases pool event outcome
    · rw [same]
      exact ⟨[], (List.append_nil _).symm, List.forall_mem_nil _⟩
    · rw [wrote]
      exact ⟨[_], rfl, List.forall_mem_singleton.mpr ⟨fun _ => rfl, fun _ => rfl⟩⟩
    · rw [wrote]
      exact ⟨[_], rfl, List.forall_mem_singleton.mpr ⟨fun _ => rfl, fun _ => rfl⟩⟩
  · obtain ⟨added, log, emitted⟩ := (taken.change sound).grown
    refine ⟨added, log, fun effect member => ?_⟩
    cases emitted effect member with
    | read => exact absurd rfl (other _ _)
    | wrote => exact absurd ⟨_, _, rfl⟩ writes
    | _ => exact ⟨fun _ => rfl, fun _ => rfl⟩

theorem perform_dry (sound : pool.Sound) (outside : ¬ op.IsRun) :
    ∃ added, (perform op pool).2.log = pool.log ++ added ∧ ∀ effect ∈ added, effect.Dry := by
  obtain ⟨added, log, emitted⟩ := perform_emitted sound op
  refine ⟨added, log, fun effect member => ?_⟩
  obtain ⟨state, action, -, taken, emission⟩ := emitted effect member
  cases emission with
  | read | wrote =>
      cases taken
      exact absurd trivial outside
  | _ => exact ⟨fun _ => rfl, fun _ => rfl⟩

theorem chunks_of_dry {log added : List Effect} (dry : ∀ effect ∈ added, effect.Dry) :
    chunks iodId (log ++ added) = chunks iodId log := by
  have nothing : chunks iodId added = [] :=
    List.filterMap_eq_nil_iff.mpr fun effect member => (dry effect member).1 iodId
  rw [chunks_append, nothing, List.append_nil]

theorem chunksOf_of_dry {log added : List Effect} (dry : ∀ effect ∈ added, effect.Dry) :
    chunksOf id (log ++ added) = chunksOf id log := by
  have nothing : chunksOf id added = [] :=
    List.filterMap_eq_nil_iff.mpr fun effect member => (dry effect member).2 id
  rw [chunksOf_append, nothing, List.append_nil]

theorem chunksOf_of_fresh (sound : pool.Sound) (fresh : ¬ pool.Created id) :
    chunksOf id pool.log = [] := by
  rw [← chunksOf_about, about_of_not_created sound fresh]
  rfl

/-! ## The ledger of a stream -/

/-- There is an undelivered read event of the descriptor. -/
def isReading (pool : Pool) (iodId : Nat) : Bool :=
  pool.pending.entries.any fun entry =>
    entry.2.kind = .read && !entry.2.done && entry.2.iod = some iodId

/-- The operation does not delete the descriptor, does not make it one for datagrams, and
requests no second read from it. -/
def Undisturbed (iodId : Nat) (pool : Pool) (op : Op) : Prop :=
  match op with
  | .read key _ _ | .readBytes key _ _ _ | .readlines key _ _ _ =>
      key = iodId → pool.isReading iodId = false
  | .connectUdp key _ _ | .sendUdp key _ _ _ _ _ | .deleteIod _ key =>
      key = iodId → pool.iods.lookup iodId = none
  | .delete _ _ _ => pool.iods.lookup iodId = none
  | .createIodUdp _ | .createIodUdpFrom _ => pool.iodCounter + 1 ≠ iodId
  | _ => True

instance (iodId : Nat) (pool : Pool) (op : Op) : Decidable (Undisturbed iodId pool op) :=
  match op with
  | .read key _ _ | .readBytes key _ _ _ | .readlines key _ _ _ =>
      inferInstanceAs (Decidable (key = iodId → pool.isReading iodId = false))
  | .connectUdp key _ _ | .sendUdp key _ _ _ _ _ | .deleteIod _ key =>
      inferInstanceAs (Decidable (key = iodId → pool.iods.lookup iodId = none))
  | .delete _ _ _ => inferInstanceAs (Decidable (pool.iods.lookup iodId = none))
  | .createIodUdp _ | .createIodUdpFrom _ => inferInstanceAs (Decidable (pool.iodCounter + 1 ≠ iodId))
  | .setBroadcast _ | .createIodTcp | .createIodTcpFrom _ | .connectTcp _ _ _ _ | .write _ _ _ _
  | .writeFmt _ _ _ _ | .printf _ _ _ _ | .timerCreate _ _ | .cancel _ _ | .loopQuit
  | .takeReadBuf _ | .arrive _ _ | .run _ _ _ => .isTrue trivial

/-- The action does not disturb the descriptor. -/
def Action.Spares (iodId : Nat) (pool : Pool) : Action → Prop
  | .call op => Undisturbed iodId pool op
  | .dropIod key => key = iodId → pool.iods.lookup iodId = none
  | _ => True

theorem Action.Deletes.spares {action : Action} {iodId : Nat} {condition : Prop} {pool : Pool}
    (deletes : action.Deletes iodId condition)
    (missing : condition → pool.iods.lookup iodId = none) : action.Spares iodId pool := by
  cases action with
  | dropIod key => exact fun here => missing (deletes here)
  | call op => exact deletes.elim
  | _ => trivial

/-- The bytes of a stream are in the buffers of its read events, in the order of their
requests. -/
structure Ledger (iodId : Nat) (pool : Pool) : Prop extends Traced pool where
  ofStream : ∀ iod, pool.iods.lookup iodId = some iod → iod.kind = .tcp
  unopened : pool.iods.lookup iodId = none → intake iodId pool.log = []
  buffered : ∀ id e, pool.pending.lookup id = some e → id ∈ readEvents iodId pool.log →
    e.buf = (chunksOf id pool.log).flatten
  latest : ∀ id e, pool.Open id e → id ∈ readEvents iodId pool.log →
    (readEvents iodId pool.log).getLast? = some id
  distinct : (readEvents iodId pool.log).Nodup
  accounted : (readEvents iodId pool.log).flatMap (chunksOf · pool.log) = chunks iodId pool.log

theorem Ledger.intake_eq (ledger : Ledger iodId pool) :
    (readEvents iodId pool.log).flatMap (receivedBy · pool.log) = intake iodId pool.log := by
  rw [← flatten_chunks, ← ledger.accounted, ← List.flatMap_id, List.flatMap_assoc]
  refine List.flatMap_congr fun id _ => ?_
  rw [List.flatMap_id, flatten_chunksOf]

theorem ledger_new (iodId : Nat) : Ledger iodId new where
  toTraced := traced_new
  ofStream _ found := nomatch found
  unopened _ := rfl
  buffered _ _ held := nomatch held
  latest _ _ held := nomatch held.1
  distinct := List.nodup_nil
  accounted := rfl

theorem not_isReading (quiet : pool.isReading iodId = false) {e : Pending} (held : pool.Open id e) :
    ¬ (e.kind = .read ∧ e.iod = some iodId) := by
  rintro ⟨kind, named⟩
  rw [isReading, List.any_eq_false] at quiet
  refine quiet ⟨id, e⟩ (AList.mem_lookup_iff.mp held.1) ?_
  simp only [kind, held.2, named, decide_true, Bool.not_false, Bool.and_self]

/-- An event that is open after an action was open before, if it existed. -/
theorem Takes.open_before (sound : pool.Sound) {action : Action} (taken : Takes op pool action)
    (created : pool.Created id) {e : Pending} (held : (pool.act action).Open id e) :
    ∃ e', pool.Open id e' := by
  rcases (taken.change sound).open_cases held with before | ⟨e', _, _, _, before, -⟩ | ⟨fresh, -⟩
  · exact ⟨e, before⟩
  · exact ⟨e', before⟩
  · exact absurd (fresh ▸ created) (not_created_succ pool)

namespace Ledger

variable (ledger : Ledger iodId pool)

include ledger

/-- A request for a read finds no other one open. -/
theorem act_latest {action : Action} (taken : Takes op pool action)
    (spares : action.Spares iodId pool) (id : EventId) (e : Pending)
    (held : (pool.act action).Open id e) (read : id ∈ readEvents iodId (pool.act action).log) :
    (readEvents iodId (pool.act action).log).getLast? = some id := by
  have change := taken.change ledger.toSound
  have before (created : pool.Created id) :
      (readEvents iodId pool.log).getLast? = some id := by
    obtain ⟨e', held'⟩ := taken.open_before ledger.toSound created held
    exact ledger.latest id e' held' ((change.mem_readEvents created).mp read)
  rcases change.readEvents_cases iodId with same | ⟨grown, _, emission⟩
  · rw [same] at read ⊢
    exact before (ledger.created_of_read read)
  · rw [grown, List.getLast?_concat]
    rw [grown, List.mem_append, List.mem_singleton] at read
    rcases read with old | rfl
    · obtain ⟨-, rfl, -⟩ := emission.requested_cases
      have created := ledger.created_of_read old
      obtain ⟨e', held'⟩ := taken.open_before ledger.toSound created held
      have single : op.IsCall := by
        cases taken with
        | call single => exact single
      obtain ⟨wbuf, member⟩ := mem_readEvents.mp (grown ▸ List.mem_append_right _ List.mem_cons_self)
      have asked := request_of_requested single member fun old =>
        not_created_succ pool (ledger.mentioned _ old _ rfl)
      have quiet : pool.isReading iodId = false := by
        cases op with
        | read | readBytes | readlines =>
            obtain ⟨-, named⟩ := Prod.mk.inj (Option.some.inj asked)
            exact spares (Option.some.inj named)
        | _ => cases asked
      exact absurd ((ledger.mem_readEvents held'.1).mp old) (not_isReading quiet held')
    · rfl

theorem act_distinct {action : Action} (taken : Takes op pool action) :
    (readEvents iodId (pool.act action).log).Nodup := by
  rcases (taken.change ledger.toSound).readEvents_cases iodId with same | ⟨grown, -⟩
  · rw [same]
    exact ledger.distinct
  · rw [grown, ← List.concat_eq_append]
    refine ledger.distinct.concat fun old => ?_
    exact not_created_succ pool (ledger.created_of_read old)

theorem act_ofStream {action : Action} (taken : Takes op pool action)
    (spares : action.Spares iodId pool) (iod : Iod)
    (described : (pool.act action).iods.lookup iodId = some iod) : iod.kind = .tcp := by
  cases taken.iod iodId with
  | kept same => exact ledger.ofStream iod (same.symm.trans described)
  | added fresh counter iod' described' unused kind =>
      obtain rfl := Option.some.inj (described'.symm.trans described)
      rcases kind with tcp | ⟨op', rfl, creates⟩
      · exact tcp
      · cases op' with
        | createIodUdp | createIodUdpFrom => exact absurd fresh.symm spares
        | _ => exact creates.elim
  | connected iod' stream found described' =>
      obtain rfl := Option.some.inj (described'.symm.trans described)
      rfl
  | associated iod' addr succeeds asked found =>
      obtain ⟨op', rfl, associates⟩ := asked
      have missing : pool.iods.lookup iodId = none := by
        cases op' with
        | connectUdp | sendUdp => exact spares associates
        | _ => exact associates.elim
      rw [missing] at found
      cases found
  | credited iod' bytes found described' | debited iod' bytes found described' =>
      obtain rfl := Option.some.inj (described'.symm.trans described)
      exact ledger.ofStream iod' found
  | dropped asked missing =>
      rw [missing] at described
      cases described

theorem act_unopened {action : Action} (taken : Takes op pool action)
    (spares : action.Spares iodId pool)
    (missing : (pool.act action).iods.lookup iodId = none) :
    intake iodId (pool.act action).log = [] := by
  cases taken.iod iodId with
  | kept same intake => exact intake.trans (ledger.unopened (same.symm.trans missing))
  | dropped asked missing intake =>
      subst asked
      exact intake.trans (ledger.unopened (spares rfl))
  | added _ _ _ described | connected _ _ _ described | associated _ _ _ _ _ described
  | credited _ _ _ described | debited _ _ _ described =>
      rw [missing] at described
      cases described

/-- Actions that bring nothing in keep the buffers. -/
theorem act_of_dry {action : Action} (taken : Takes op pool action)
    (spares : action.Spares iodId pool)
    (other : ∀ event outcome, action ≠ .tryRead event outcome) :
    Ledger iodId (pool.act action) := by
  have change := taken.change ledger.toSound
  obtain ⟨added, log, dry⟩ := taken.dry ledger.toSound other
  have received (id : EventId) : chunksOf id (pool.act action).log = chunksOf id pool.log := by
    rw [log, chunksOf_of_dry dry]
  refine { ledger.toTraced.act taken with
    ofStream := ledger.act_ofStream taken spares
    unopened := ledger.act_unopened taken spares
    buffered := fun id e held read => ?_
    latest := ledger.act_latest taken spares
    distinct := ledger.act_distinct taken
    accounted := ?_ }
  · have before {e' : Pending} (held' : pool.pending.lookup id = some e') :
        e'.buf = (chunksOf id pool.log).flatten :=
      ledger.buffered id e' held'
        ((change.mem_readEvents (ledger.created id e' held')).mp read)
    rw [received]
    cases taken.entry id with
    | kept same | taken asked same => exact before (same.symm.trans held)
    | created fresh e' held' empty =>
        obtain rfl := Option.some.inj (held'.symm.trans held)
        rw [chunksOf_of_fresh ledger.toSound (fresh ▸ not_created_succ pool)]
        exact empty.1
    | moved attempts e' buf wbuf live =>
        have reads := (ledger.mem_readEvents live.1).mp
          ((change.mem_readEvents (ledger.created id e' live.1)).mp read)
        cases taken with
        | tryRead => exact absurd rfl (other _ _)
        | tryWrite shaped =>
            obtain rfl : _ = id := attempts
            rw [shape_of_held live.1, reads.1] at shaped
            cases shaped
        | _ => exact attempts.elim
    | cancelled notify asked e' handler found held' =>
        obtain rfl := Option.some.inj (held'.symm.trans held)
        have same := before found
        exact same
    | delivered _ _ gone | killed _ gone =>
        rw [gone] at held
        cases held
  · have shares : (readEvents iodId pool.log).flatMap (chunksOf · (pool.act action).log) =
        chunks iodId pool.log := by
      rw [List.flatMap_congr fun key _ => received key]
      exact ledger.accounted
    rw [log, chunks_of_dry dry, ← log]
    rcases change.readEvents_cases iodId with same | ⟨grown, -⟩
    · rw [same, shares]
    · rw [grown, List.flatMap_append, shares, List.flatMap_singleton, received,
        chunksOf_of_fresh ledger.toSound (not_created_succ pool), List.append_nil]

/-- Bytes that come in go to the event that was requested last. -/
theorem act_of_credit {event key : Nat} {outcome : SocketResult (List UInt8)} {e : Pending}
    {iod : Iod} {buf b : List UInt8} (taken : Takes op pool (.tryRead event outcome))
    (live : pool.Open event e) (kind : e.kind = .read) (named : e.iod = some key)
    (extends' : key = iodId → buf = e.buf ++ b)
    (after : pool.act (.tryRead event outcome) = pool.credit event { e with buf } key iod b) :
    Ledger iodId (pool.act (.tryRead event outcome)) := by
  have change := taken.change ledger.toSound
  have log : (pool.act (.tryRead event outcome)).log = pool.log ++ [.received event key b] := by
    rw [after]
    rfl
  have pending : (pool.act (.tryRead event outcome)).pending =
      pool.pending.insert event { e with buf } := by
    rw [after]
    rfl
  have reads : readEvents iodId (pool.act (.tryRead event outcome)).log =
      readEvents iodId pool.log := by
    rw [log, readEvents_append, readEvents_of_none (List.forall_mem_singleton.mpr rfl),
      List.append_nil]
  have others (id : EventId) (ne : id ≠ event) :
      chunksOf id (pool.act (.tryRead event outcome)).log = chunksOf id pool.log := by
    have foreign : (Effect.received event key b).chunkOf id = none := if_neg ne.symm
    rw [log, chunksOf_append]
    exact (congrArg (_ ++ ·) (List.filterMap_cons_none foreign)).trans (List.append_nil _)
  have own : chunksOf event (pool.act (.tryRead event outcome)).log =
      chunksOf event pool.log ++ [b] := by
    have mine : (Effect.received event key b).chunkOf event = some b := if_pos rfl
    rw [log, chunksOf_append]
    exact congrArg (_ ++ ·) (List.filterMap_cons_some mine)
  have listed : event ∈ readEvents iodId pool.log ↔ key = iodId := by
    rw [ledger.mem_readEvents live.1, kind, named, Option.some.injEq]
    exact and_iff_right rfl
  refine { ledger.toTraced.act taken with
    ofStream := ledger.act_ofStream taken trivial
    unopened := ledger.act_unopened taken trivial
    buffered := fun id e' held read => ?_
    latest := ledger.act_latest taken trivial
    distinct := ledger.act_distinct taken
    accounted := ?_ }
  · rw [reads] at read
    rw [pending] at held
    by_cases same : id = event
    · subst same
      rw [AList.lookup_insert] at held
      obtain rfl := Option.some.inj held
      rw [own, List.flatten_concat, ← ledger.buffered id e live.1 read]
      exact extends' (listed.mp read)
    · rw [AList.lookup_insert_ne same] at held
      rw [others id same]
      exact ledger.buffered id e' held read
  · rw [reads, log, chunks_append, ← log, ← ledger.accounted]
    by_cases here : key = iodId
    · have mine : (Effect.received event key b).chunk iodId = some b := if_pos here
      have more : chunks iodId [.received event key b] = [b] := List.filterMap_cons_some mine
      have latest := ledger.latest event e live (listed.mpr here)
      rw [more]
      exact flatMap_of_last ledger.distinct latest others own
    · have foreign : (Effect.received event key b).chunk iodId = none := if_neg here
      have more : chunks iodId [.received event key b] = [] := List.filterMap_cons_none foreign
      rw [more, List.append_nil]
      refine List.flatMap_congr fun id read => others id ?_
      rintro rfl
      exact here (listed.mp read)

/-- **Every action that spares a descriptor keeps its ledger.** -/
theorem act {action : Action} (taken : Takes op pool action) (spares : action.Spares iodId pool) :
    Ledger iodId (pool.act action) := by
  by_cases reading : ∃ event outcome, action = .tryRead event outcome
  · obtain ⟨event, outcome, rfl⟩ := reading
    have shaped : pool.shape event = some (.read, false) := by
      cases taken with
      | tryRead held => exact held
    obtain ⟨e, found, same⟩ := Option.map_eq_some_iff.mp shaped
    obtain ⟨kind, live⟩ := Prod.mk.inj same
    have still (unchanged : (pool.tryRead event outcome).2 = pool) :
        Ledger iodId (pool.act (.tryRead event outcome)) := by
      rw [Pool.act, unchanged]
      exact ledger
    cases described : e.iod.bind pool.iods.lookup with
    | none => exact still (by rw [tryRead_of_no_iod found described])
    | some iod =>
        obtain ⟨key, named, described⟩ := Option.bind_eq_some_iff.mp described
        have attempt := tryRead_eq found named described outcome
        cases arrival : iod.arrival outcome with
        | chunk b =>
            rw [arrival] at attempt
            exact ledger.act_of_credit taken ⟨found, live⟩ kind named (fun _ => rfl)
              (congrArg Prod.snd attempt)
        | datagram b =>
            rw [arrival] at attempt
            refine ledger.act_of_credit taken ⟨found, live⟩ kind named (fun here => ?_)
              (congrArg Prod.snd attempt)
            have tcp := ledger.ofStream iod (here ▸ described)
            exact absurd arrival (Iod.arrival_of_tcp tcp outcome b)
        | ended | nothing | failed =>
            rw [arrival] at attempt
            exact still (congrArg Prod.snd attempt)
  · exact ledger.act_of_dry taken spares fun event outcome same => reading ⟨event, outcome, same⟩

/-! ## Operations and passes -/

theorem perform (outside : ¬ op.IsRun) (undisturbed : Undisturbed iodId pool op) :
    Ledger iodId (Pool.perform op pool).2 := by
  by_cases single : op.IsCall
  · exact ledger.act (Takes.call single) undisturbed
  cases op with
  | run timeout start passes => exact absurd trivial outside
  | arrive attempt outcome => exact ledger.act Takes.arrive trivial
  | deleteIod order key =>
      refine deletion_invariant (fun _ _ taken => taken.deletes_deleteIod) ?_ undisturbed ledger
      intro state action ledger missing taken
      exact ledger.act taken (taken.deletes_deleteIod.spares missing)
  | delete iodOrder orders order =>
      refine deletion_invariant (fun _ _ taken => taken.deletes_delete) ?_ (fun _ => undisturbed)
        ledger
      intro state action ledger missing taken
      exact ledger.act taken (taken.deletes_delete.spares missing)
  | _ => exact (single trivial).elim

theorem quit (value : Bool) : Ledger iodId { pool with quit := value } :=
  ledger.act (Takes.quitRun : Takes (.run 0 0 []) pool (.setQuit value)) trivial

theorem pass (pass : Pass) :
    Ledger iodId (pool.drained pass) ∧ Ledger iodId (pool.runPass pass) := by
  refine runPass_invariant_of (fun state action ledger taken => ledger.act taken ?_) pass ledger
  cases taken with
  | call single => exact single.elim
  | _ => trivial

/-- **The ledger of an undisturbed descriptor is kept** in every history. -/
theorem execute {ops : List Op}
    (undisturbed : Throughout (Undisturbed iodId) (fun _ _ => True) ops pool) :
    Ledger iodId (Pool.execute ops pool) := by
  have kept : Throughout (fun _ _ => True) (fun _ _ => True) ops pool ∧
      Ledger iodId (Pool.execute ops pool) := by
    refine Throughout.invariant ?_ ?_ ?_ undisturbed ledger
    · exact fun pool value ledger => ledger.quit value
    · exact fun pool pass ledger _ => ⟨trivial, (ledger.pass pass).2⟩
    · exact fun pool op outside ledger undisturbed => ⟨trivial, ledger.perform outside undisturbed⟩
  exact kept.2

end Ledger

end Pool

end Wnr.Nsock
