import Wnr.Nsock.EventChange

/-! # The order of written bytes

The bytes that the stream of a descriptor accepts are marked with the event they are
written for, and so are the bytes that were requested. Two writes that wait together
are attempted in the iteration order of a hash map, so the first marks follow the
second ones only if a write is requested when everything before it has been accepted
(`Pool.WritesInTurn`).
-/

namespace Wnr.Nsock

/-- Bytes marked with their event. -/
def mark (event : EventId) (bytes : List UInt8) : List (EventId × UInt8) := bytes.map (event, ·)

/-- What an effect requests to be written on a descriptor. -/
def Effect.requestedOn (iodId : Nat) : Effect → List (EventId × UInt8)
  | .requested event _ (some iod) (some data) => if iod = iodId then mark event data else []
  | _ => []

/-- What an effect shows that the stream of a descriptor accepted. -/
def Effect.acceptedOn (iodId : Nat) : Effect → List (EventId × UInt8)
  | .accepted event iod bytes => if iod = iodId then mark event bytes else []
  | _ => []

/-- The bytes requested on a descriptor, in request order. -/
def requestedOn (iodId : Nat) (log : List Effect) : List (EventId × UInt8) :=
  log.flatMap (·.requestedOn iodId)

/-- The bytes that the stream of a descriptor accepted, in order. -/
def acceptedOn (iodId : Nat) (log : List Effect) : List (EventId × UInt8) :=
  log.flatMap (·.acceptedOn iodId)

/-- At every moment, the accepted bytes are a front part of the requested ones. -/
def InOrder (iodId : Nat) (log : List Effect) : Prop :=
  ∀ moment, moment <+: log → acceptedOn iodId moment <+: requestedOn iodId moment

variable {iodId : Nat} {log : List Effect}

theorem requestedOn_concat (effect : Effect) :
    requestedOn iodId (log ++ [effect]) = requestedOn iodId log ++ effect.requestedOn iodId := by
  rw [requestedOn, List.flatMap_append, List.flatMap_singleton, requestedOn]

theorem acceptedOn_concat (effect : Effect) :
    acceptedOn iodId (log ++ [effect]) = acceptedOn iodId log ++ effect.acceptedOn iodId := by
  rw [acceptedOn, List.flatMap_append, List.flatMap_singleton, acceptedOn]

theorem InOrder.concat {effect : Effect} (ordered : InOrder iodId log)
    (front : acceptedOn iodId (log ++ [effect]) <+: requestedOn iodId (log ++ [effect])) :
    InOrder iodId (log ++ [effect]) := by
  intro moment early
  rcases List.prefix_concat_iff.mp early with rfl | before
  · exact front
  · exact ordered moment before

/-- What is requested and not accepted yet: the tail that the accepted bytes lack. -/
structure Written (iodId : Nat) (log : List Effect) (rest : List (EventId × UInt8)) : Prop where
  ordered : InOrder iodId log
  total : requestedOn iodId log = acceptedOn iodId log ++ rest

variable {rest : List (EventId × UInt8)}

theorem Written.request (written : Written iodId log rest) {effect : Effect}
    (none : effect.acceptedOn iodId = []) :
    Written iodId (log ++ [effect]) (rest ++ effect.requestedOn iodId) := by
  have total : requestedOn iodId (log ++ [effect]) =
      acceptedOn iodId (log ++ [effect]) ++ (rest ++ effect.requestedOn iodId) := by
    rw [requestedOn_concat, acceptedOn_concat, none, written.total, List.append_nil,
      List.append_assoc]
  exact ⟨written.ordered.concat ⟨_, total.symm⟩, total⟩

theorem Written.silent (written : Written iodId log rest) {added : List Effect}
    (silent : ∀ effect ∈ added, effect.requestedOn iodId = [] ∧ effect.acceptedOn iodId = []) :
    Written iodId (log ++ added) rest := by
  induction added generalizing log with
  | nil => rwa [List.append_nil]
  | cons effect more ih =>
      rw [List.forall_mem_cons] at silent
      obtain ⟨⟨nothing, none⟩, others⟩ := silent
      have first := written.request none
      rw [nothing, List.append_nil] at first
      rw [List.append_cons]
      exact ih first others

theorem Written.accept {effect : Effect} (nothing : effect.requestedOn iodId = [])
    (written : Written iodId log (effect.acceptedOn iodId ++ rest)) :
    Written iodId (log ++ [effect]) rest := by
  have total : requestedOn iodId (log ++ [effect]) = acceptedOn iodId (log ++ [effect]) ++ rest := by
    rw [requestedOn_concat, acceptedOn_concat, nothing, written.total, List.append_nil,
      List.append_assoc]
  exact ⟨written.ordered.concat ⟨_, total.symm⟩, total⟩

theorem eq_of_mark_eq {event other : EventId} {bytes bytes' : List UInt8} (some' : bytes ≠ [])
    (same : mark event bytes = mark other bytes') : event = other ∧ bytes = bytes' := by
  have equal : bytes = bytes' := by
    have second := congrArg (List.map Prod.snd) same
    simpa only [mark, List.map_map, Function.comp_def, List.map_id_fun', id_eq] using second
  subst equal
  obtain ⟨b, more, rfl⟩ := List.exists_cons_of_ne_nil some'
  exact ⟨congrArg Prod.fst (List.cons.inj same).1, rfl⟩

theorem mark_ne_nil {event : EventId} {bytes : List UInt8} (some' : bytes ≠ []) :
    mark event bytes ≠ [] :=
  fun none => some' (List.map_eq_nil_iff.mp none)

namespace Pool

variable {pool after : Pool} {op : Op}

/-- A write of data on the descriptor is requested when everything requested on it
before has been accepted. -/
def WritesInTurn (iodId : Nat) (pool : Pool) (op : Op) : Prop :=
  ∀ data, op.writeRequest = some (iodId, data) → data ≠ [] →
    acceptedOn iodId pool.log = requestedOn iodId pool.log

instance (iodId : Nat) (pool : Pool) (op : Op) : Decidable (WritesInTurn iodId pool op) :=
  match request : op.writeRequest with
  | none => .isTrue fun data asked => nomatch request.symm.trans asked
  | some (key, data) =>
      decidable_of_iff (key = iodId → data ≠ [] →
        acceptedOn iodId pool.log = requestedOn iodId pool.log) (by
          unfold WritesInTurn
          rw [request]
          constructor
          · rintro turn data' ⟨⟩
            exact turn rfl
          · rintro turn rfl
            exact turn data rfl)

/-- What is left to write on the descriptor is what its one open write holds. -/
structure Queued (iodId : Nat) (pool : Pool) (rest : List (EventId × UInt8)) : Prop where
  sound : pool.Sound
  written : Written iodId pool.log rest
  held : ∀ id e data, pool.Open id e → e.iod = some iodId → e.wbuf = some data → data ≠ [] →
    rest = mark id data

/-- A request of data on the descriptor finds nothing left to write. -/
theorem Queued.turn (queued : pool.Queued iodId rest) {action : Action} {id : EventId}
    {kind : EventType} {iod : Option Nat} {wbuf : Option (List UInt8)}
    (emission : Emission pool op action (.requested id kind iod wbuf))
    (turn : Meets (WritesInTurn iodId) (fun _ _ => True) pool action) :
    (Effect.requested id kind iod wbuf).requestedOn iodId = [] ∨ rest = [] := by
  obtain ⟨-, rfl, asked⟩ := emission.requested_cases
  rcases asked with ⟨-, -, rfl⟩ | ⟨key, data, request, -, rfl, rfl⟩
  · left
    cases iod <;> rfl
  · by_cases here : key = iodId ∧ data ≠ []
    · right
      obtain ⟨rfl, some'⟩ := here
      have all := turn data request some'
      rw [queued.written.total] at all
      exact List.append_right_eq_self.mp all.symm
    · left
      change (if key = iodId then mark id data else []) = []
      split
      · rename_i same
        obtain rfl := of_not_not fun some' => here ⟨same, some'⟩
        rfl
      · rfl

/-- A new request. -/
theorem Queued.created (queued : pool.Queued iodId rest) (sound : after.Sound) {e : Pending}
    (pending : after.pending = pool.pending.insert (pool.eventCounter + 1) e)
    {added : List Effect}
    (addresses : ∀ effect ∈ added, ∃ addr, effect = .addressed (pool.eventCounter + 1) addr)
    (log : after.log = pool.log ++ .requested (pool.eventCounter + 1) e.kind e.iod e.wbuf :: added)
    (turn : (Effect.requested (pool.eventCounter + 1) e.kind e.iod e.wbuf).requestedOn iodId = [] ∨
      rest = []) :
    after.Queued iodId (rest ++
      (Effect.requested (pool.eventCounter + 1) e.kind e.iod e.wbuf).requestedOn iodId) := by
  refine ⟨sound, ?_, ?_⟩
  · rw [log, List.append_cons]
    apply (queued.written.request rfl).silent
    intro effect member
    obtain ⟨addr, rfl⟩ := addresses effect member
    exact ⟨rfl, rfl⟩
  · intro id e' data held named left some'
    by_cases same : id = pool.eventCounter + 1
    · rw [Open, pending, same, AList.lookup_insert] at held
      obtain rfl := Option.some.inj held.1
      have own : (Effect.requested (pool.eventCounter + 1) e.kind e.iod e.wbuf).requestedOn iodId =
          mark id data := by
        rw [named, left, same]
        exact if_pos rfl
      rw [own] at turn ⊢
      rw [turn.resolve_left (mark_ne_nil some'), List.nil_append]
    · rw [Open, pending, AList.lookup_insert_ne same] at held
      have whole := queued.held id e' data held named left some'
      rcases turn with nothing | none
      · rw [nothing, List.append_nil, whole]
      · exact absurd (whole.symm.trans none) (mark_ne_nil some')

/-- A socket call. -/
theorem Queued.moved (queued : pool.Queued iodId rest) (sound : after.Sound) {id : EventId}
    {e : Pending} {buf : List UInt8} {wbuf : Option (List UInt8)} {effect : Effect}
    (io : IoChange pool id e buf wbuf effect) (held : pool.pending.lookup id = some e)
    (live : ∀ iodId bytes, effect = .accepted id iodId bytes → e.done = false)
    (pending : after.pending = pool.pending.insert id { e with buf, wbuf })
    (log : after.log = pool.log ++ [effect]) : ∃ rest, after.Queued iodId rest := by
  have others {other : EventId} (ne : other ≠ id) (e' : Pending) :
      after.Open other e' ↔ pool.Open other e' := by
    rw [Open, Open, pending, AList.lookup_insert_ne ne]
  have own {e' : Pending} (open' : after.Open id e') :
      e' = { e with buf, wbuf } ∧ e.done = false := by
    rw [Open, pending, AList.lookup_insert] at open'
    obtain rfl := Option.some.inj open'.1
    exact ⟨rfl, open'.2⟩
  have quiet (nothing : effect.requestedOn iodId = [] ∧ effect.acceptedOn iodId = []) :
      Written iodId after.log rest := by
    rw [log]
    exact queued.written.silent (List.forall_mem_singleton.mpr nothing)
  cases io with
  | received key buf b named =>
      refine ⟨rest, sound, quiet ⟨rfl, rfl⟩, fun other e' data open' named' left some' => ?_⟩
      by_cases same : other = id
      · subst same
        obtain ⟨rfl, live'⟩ := own open'
        exact queued.held other e data ⟨held, live'⟩ named' left some'
      · exact queued.held other e' data ((others same e').mp open') named' left some'
  | sent key iod data peer named described associated left =>
      refine ⟨rest, sound, quiet ⟨rfl, rfl⟩, fun other e' data' open' named' left' some' => ?_⟩
      by_cases same : other = id
      · subst same
        obtain ⟨rfl, -⟩ := own open'
        cases left'
      · exact queued.held other e' data' ((others same e').mp open') named' left' some'
  | accepted key data n named left pos fits =>
      by_cases here : key = iodId
      · subst here
        have some' : data ≠ [] := List.ne_nil_of_length_pos (pos.trans_le fits)
        have open' : pool.Open id e := ⟨held, live key _ rfl⟩
        have whole := queued.held id e data open' named left some'
        have split : rest = mark id (data.take n) ++ mark id (data.drop n) := by
          rw [whole, mark, mark, mark, ← List.map_append, List.take_append_drop]
        refine ⟨mark id (data.drop n), sound, ?_, fun other e' data' held' named' left' some'' => ?_⟩
        · rw [log]
          apply Written.accept rfl
          rw [show (Effect.accepted id key (data.take n)).acceptedOn key = mark id (data.take n) from
            if_pos rfl, ← split]
          exact queued.written
        · by_cases same : other = id
          · subst same
            obtain ⟨rfl, -⟩ := own held'
            simp only at left'
            split at left'
            · cases left'
            · rw [Option.some.inj left']
          · have whole' := queued.held other e' data' ((others same e').mp held') named' left' some''
            exact absurd (eq_of_mark_eq some'' (whole'.symm.trans whole)).1 same
      · have nothing : (Effect.accepted id key (data.take n)).acceptedOn iodId = [] := if_neg here
        refine ⟨rest, sound, quiet ⟨rfl, nothing⟩, fun other e' data' held' named' left' some' => ?_⟩
        by_cases same : other = id
        · subst same
          obtain ⟨rfl, -⟩ := own held'
          exact absurd (Option.some.inj (named.symm.trans named')) here
        · exact queued.held other e' data' ((others same e').mp held') named' left' some'

/-- Events that end take no bytes along. -/
theorem Queued.fewer (queued : pool.Queued iodId rest) (sound : after.Sound)
    (opens : ∀ id e, after.Open id e → pool.Open id e) {added : List Effect}
    (silent : ∀ effect ∈ added, effect.requestedOn iodId = [] ∧ effect.acceptedOn iodId = [])
    (log : after.log = pool.log ++ added) : after.Queued iodId rest :=
  ⟨sound, log ▸ queued.written.silent silent,
    fun id e data held => queued.held id e data (opens id e held)⟩

theorem silent_of_receipt {emits : Effect → Prop} {added : List Effect}
    (receipts : ∀ effect ∈ added, (∃ receipt, effect = .result receipt) ∧ emits effect) :
    ∀ effect ∈ added, effect.requestedOn iodId = [] ∧ effect.acceptedOn iodId = [] := by
  intro effect member
  obtain ⟨⟨receipt, rfl⟩, -⟩ := receipts effect member
  exact ⟨rfl, rfl⟩

/-- **One action.** -/
theorem Queued.act (queued : pool.Queued iodId rest) {action : Action}
    (allowed : Allowed (WritesInTurn iodId) (fun _ _ => True) op pool action) :
    ∃ rest, (pool.act action).Queued iodId rest := by
  have change := allowed.1.change queued.sound
  have sound := change.sound queued.sound
  cases change with
  | quiet pending counter added receipts log =>
      refine ⟨rest, queued.fewer sound (fun id e held => ?_) (silent_of_receipt receipts) log⟩
      rwa [Open, pending] at held
  | created e handler live pending counter emitted added addresses log =>
      exact ⟨_, queued.created sound pending (fun effect member => (addresses effect member).1) log
        (queued.turn emitted allowed.2)⟩
  | moved id e buf wbuf effect io held pending counter emitted log =>
      refine queued.moved sound io held (fun key bytes same => ?_) pending log
      obtain ⟨e', open'⟩ := (same ▸ emitted).open_of_accepted
      obtain rfl := Option.some.inj (held.symm.trans open'.1)
      exact open'.2
  | ended id e held others closed counter added receipts last outcome emitted log =>
      have silent : ∀ effect ∈ added ++ [last],
          effect.requestedOn iodId = [] ∧ effect.acceptedOn iodId = [] := by
        intro effect member
        rcases List.mem_append.mp member with early | only
        · exact silent_of_receipt receipts effect early
        · obtain rfl := List.mem_singleton.mp only
          rcases outcome with rfl | ⟨status, rfl⟩ <;> exact ⟨rfl, rfl⟩
      refine ⟨rest, queued.fewer sound (fun other e' held' => ?_) silent log⟩
      by_cases same : other = id
      · exact absurd (same ▸ held') (closed e')
      · rwa [Open, others other same] at held'
  | forgotten id held others closed counter log =>
      refine ⟨rest, queued.fewer sound (fun other e' held' => ?_) (List.forall_mem_nil _)
        (log.trans (List.append_nil _).symm)⟩
      by_cases same : other = id
      · have done := (closed e' (same ▸ held'.1)).2
        rw [held'.2] at done
        cases done
      · rwa [Open, others other same] at held'

/-- **Bytes are written in request order**, in every history in which data is requested
to be written on the descriptor only when all that was requested before is accepted. -/
theorem written_in_order (iodId : Nat) (ops : List Op)
    (turns : Along (WritesInTurn iodId) (fun _ _ => True) ops new) :
    InOrder iodId (execute ops new).log := by
  have start : ∃ rest, new.Queued iodId rest := by
    refine ⟨[], sound_new, ⟨?_, rfl⟩, fun id e data held => nomatch held.1⟩
    intro moment early
    rw [List.prefix_nil.mp early]
    exact List.prefix_rfl
  obtain ⟨rest, queued⟩ := (execute_steps turns).invariant
    (fun pool => ∃ rest, pool.Queued iodId rest) start (by
      rintro pool action ⟨rest, queued⟩ ⟨op, allowed⟩
      exact queued.act allowed)
  exact queued.written.ordered

/-- A pass in which every stream takes one byte, with the newest event first. -/
def byteWise : Pass := { idlePass with order := [2, 1], writes := fun _ => .ok 1 }

/-- Two writes, the second one after the first one is through. -/
def writeTwice : List Op :=
  [.createIodTcpFrom ⟨.caller 0, some (localhost 80)⟩, .write 1 [1, 2] (-1) 0,
    .run (-1) 0 [byteWise, byteWise], .write 1 [3] (-1) 0, .run (-1) 0 [byteWise]]

theorem written_in_order_twice :
    Along (WritesInTurn 1) (fun _ _ => True) writeTwice new ∧
      InOrder 1 (execute writeTwice new).log := by
  have turns : Along (WritesInTurn 1) (fun _ _ => True) writeTwice new := by decide
  exact ⟨turns, written_in_order 1 writeTwice turns⟩

/-- Two writes that wait together. -/
def writeTogether : List Op :=
  [.createIodTcpFrom ⟨.caller 0, some (localhost 80)⟩, .write 1 [1] (-1) 0, .write 1 [2] (-1) 0,
    .run (-1) 0 [byteWise]]

/-- The second write goes out first. -/
theorem written_out_of_order : ¬ InOrder 1 (execute writeTogether new).log := by
  intro ordered
  have front := ordered _ List.prefix_rfl
  have accepted : acceptedOn 1 (execute writeTogether new).log = [(2, 2), (1, 1)] := by decide
  have requested : requestedOn 1 (execute writeTogether new).log = [(1, 1), (2, 2)] := by decide
  rw [accepted, requested] at front
  revert front
  decide

end Pool

end Wnr.Nsock
