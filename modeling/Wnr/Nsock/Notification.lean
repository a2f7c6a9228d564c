import Wnr.Nsock.EventChange

/-! # Every handler is called once

In every history, an event that is open has no outcome in the log, and one that was
created and is not open any more has exactly one (`Pool.Accounted`). What is promised
about calls of handlers follows from that: `Pool.handlers_called_once`.
-/

namespace Wnr.Nsock

/-- The statuses with which the handler of an event was called, in order. -/
def calls (event : EventId) (log : List Effect) : List EventStatus :=
  log.filterMap fun effect =>
    match effect with
    | .called owner _ status => if owner = event then some status else none
    | _ => none

/-- The status of a call. -/
def Outcome.status : Outcome → Option EventStatus
  | .called status => some status
  | .silenced => none

theorem calls_eq (event : EventId) (log : List Effect) :
    calls event log = (outcomes event log).filterMap Outcome.status := by
  rw [calls, outcomes, List.filterMap_filterMap]
  refine List.filterMap_congr fun effect _ => ?_
  cases effect with
  | called owner id status =>
      by_cases same : owner = event
      · simp only [Effect.outcome, same, ↓reduceIte, Option.bind_some, Outcome.status]
      · simp only [Effect.outcome, same, ↓reduceIte, Option.bind_none]
  | silenced ended =>
      by_cases same : ended = event
      · simp only [Effect.outcome, same, ↓reduceIte, Option.bind_some, Outcome.status]
      · simp only [Effect.outcome, same, ↓reduceIte, Option.bind_none]
  | requested | addressed | result | received | accepted | sent => rfl

theorem silenced_mem_iff (event : EventId) (log : List Effect) :
    Effect.silenced event ∈ log ↔ Outcome.silenced ∈ outcomes event log := by
  rw [outcomes, List.mem_filterMap]
  constructor
  · intro member
    exact ⟨_, member, if_pos rfl⟩
  · rintro ⟨effect, member, outcome⟩
    cases effect with
    | silenced ended =>
        by_cases same : ended = event
        · exact same ▸ member
        · rw [Effect.outcome, if_neg same] at outcome
          cases outcome
    | called owner id status =>
        rw [Effect.outcome] at outcome
        split at outcome <;> cases outcome
    | requested | addressed | result | received | accepted | sent => cases outcome

/-- What an operation may add to the log: a call passes the handler's own event;
only cancelling with notice gives the status for it, only deleting kills, and only
cancelling without notice silences. -/
def Op.Emits (op : Op) : Effect → Prop
  | .called owner id status =>
      owner = id ∧ (status = .cancelled → op = .cancel id true) ∧
        (status = .kill → (∃ order iodId, op = .deleteIod order iodId) ∨
          ∃ iodOrder orders order, op = .delete iodOrder orders order)
  | .silenced event => op = .cancel event false
  | _ => True

namespace Pool

variable {pool after : Pool} {emits : Effect → Prop} {op : Op}

/-! ## The invariant -/

/-- Open events have no outcome yet, and the others that were created have one. -/
structure Accounted (pool : Pool) : Prop extends Sound pool where
  balance : ∀ id, (outcomes id pool.log).length + (pool.isUndelivered id).toNat =
    (decide (pool.Created id)).toNat

theorem accounted_new : Accounted new where
  toSound := sound_new
  balance id := by
    have fresh : ¬ new.Created id := fun created =>
      Nat.not_succ_le_zero 0 (created.1.trans created.2)
    rw [decide_eq_false fresh]
    rfl

theorem isUndelivered_congr {id : EventId}
    (same : after.pending.lookup id = pool.pending.lookup id) :
    after.isUndelivered id = pool.isUndelivered id := by
  rw [isUndelivered, same, isUndelivered]

theorem not_isUndelivered {id : EventId} (closed : ∀ e, ¬ pool.Open id e) :
    pool.isUndelivered id = false := by
  rw [Bool.eq_false_iff]
  intro undelivered
  obtain ⟨e, held⟩ := isUndelivered_iff.mp undelivered
  exact closed e held

/-- The invariant of one event, from what changes about it. -/
theorem Accounted.balance_of_same (valid : Accounted pool) {id : EventId}
    (counter : after.eventCounter = pool.eventCounter)
    (held : after.pending.lookup id = pool.pending.lookup id)
    (log : outcomes id after.log = outcomes id pool.log) :
    (outcomes id after.log).length + (after.isUndelivered id).toNat =
      (decide (after.Created id)).toNat := by
  rw [log, isUndelivered_congr held, valid.balance id, decide_eq_decide.mpr (created_congr counter)]

theorem outcomes_of_log {id : EventId} {log log' added : List Effect} (grown : log' = log ++ added)
    (silent : ∀ effect ∈ added, effect.Silent) : outcomes id log' = outcomes id log := by
  rw [grown, outcomes_append, outcomes_of_silent silent, List.append_nil]

/-- Each kind of change keeps the account of every event. -/
theorem EventChange.accounted (change : EventChange emits pool after) (valid : Accounted pool) :
    Accounted after := by
  refine { change.sound valid.toSound with balance := fun id => ?_ }
  cases change with
  | quiet pending counter added receipts log =>
      exact valid.balance_of_same counter (by rw [pending])
        (outcomes_of_log log (silent_of_receipts receipts))
  | created e handler live pending counter emitted added addresses log =>
      have silent' : ∀ effect ∈ .requested (pool.eventCounter + 1) e.kind e.iod e.wbuf :: added,
          effect.Silent := by
        refine List.forall_mem_cons.mpr ⟨fun _ => rfl, fun effect member => ?_⟩
        obtain ⟨⟨addr, rfl⟩, -⟩ := addresses effect member
        exact fun _ => rfl
      by_cases same : id = pool.eventCounter + 1
      · have none : outcomes id after.log = [] := by
          have before := valid.balance id
          rw [decide_eq_false (same ▸ not_created_succ pool)] at before
          rw [outcomes_of_log log silent']
          exact List.eq_nil_of_length_eq_zero (Nat.eq_zero_of_add_eq_zero_right before)
        have created : after.Created id := (created_succ counter).mpr (.inl same)
        have undelivered : after.isUndelivered id = true := by
          rw [isUndelivered, pending, same, AList.lookup_insert]
          simp only [live.2, Bool.not_false]
        rw [none, undelivered, decide_eq_true created]
        rfl
      · have created : after.Created id ↔ pool.Created id :=
          (created_succ counter).trans (or_iff_right same)
        have held : after.pending.lookup id = pool.pending.lookup id := by
          rw [pending, AList.lookup_insert_ne same]
        rw [outcomes_of_log log silent', isUndelivered_congr held, valid.balance id,
          decide_eq_decide.mpr created]
  | moved other e buf wbuf effect io held pending counter emitted log =>
      have silent : outcomes id after.log = outcomes id pool.log :=
        outcomes_of_log log (List.forall_mem_singleton.mpr io.silent)
      by_cases same : id = other
      · have still : after.isUndelivered id = pool.isUndelivered id := by
          rw [isUndelivered, pending, same, AList.lookup_insert, isUndelivered, held]
        rw [silent, still, valid.balance id, decide_eq_decide.mpr (created_congr counter)]
      · exact valid.balance_of_same counter (by rw [pending, AList.lookup_insert_ne same]) silent
  | ended other e held others closed counter added receipts last outcome emitted log =>
      have early := outcomes_of_silent (silent_of_receipts receipts) id
      by_cases same : id = other
      · subst same
        have one : (outcomes id after.log).length = (outcomes id pool.log).length + 1 := by
          rw [log, outcomes_append, outcomes_append, early, List.nil_append, List.length_append]
          rcases outcome with rfl | ⟨status, rfl⟩ <;> simp [outcomes, Effect.outcome]
        have before := valid.balance id
        rw [isUndelivered_iff.mpr ⟨e, held⟩] at before
        rw [one, not_isUndelivered closed, decide_eq_decide.mpr (created_congr counter), ← before]
        rfl
      · refine valid.balance_of_same counter (others id same) ?_
        rw [log, outcomes_append, outcomes_append, early, List.nil_append]
        rcases outcome with rfl | ⟨status, rfl⟩ <;>
          simp [outcomes, Effect.outcome, Ne.symm same]
  | forgotten other held others closed counter log =>
      by_cases same : id = other
      · subst same
        have shut : after.isUndelivered id = false := not_isUndelivered fun e held' => by
          have done := (closed e held'.1).2
          rw [held'.2] at done
          cases done
        have before := valid.balance id
        rw [not_isUndelivered held] at before
        rw [log, shut, before, decide_eq_decide.mpr (created_congr counter)]
      · exact valid.balance_of_same counter (others id same) (by rw [log])

/-! ## Operations and histories -/

/-- What an action emits, its operation may emit. -/
theorem Emission.allowed {action : Action} {effect : Effect} (taken : Takes op pool action)
    (emission : Emission pool op action effect) : op.Emits effect := by
  cases emission with
  | requested | addressed | refused | taken => trivial
  | cancelled asked held => exact ⟨rfl, fun _ => asked, nofun⟩
  | silenced asked held => exact asked
  | connected target =>
      refine ⟨rfl, ?_⟩
      rw [ConnectResult.status]
      split <;> exact ⟨nofun, nofun⟩
  | read held io => cases io <;> trivial
  | wrote held io => cases io <;> trivial
  | delivered held fits =>
      refine ⟨rfl, ?_⟩
      rcases fits with ⟨-, rfl⟩ | ⟨-, rfl⟩ | ⟨-, rfl | rfl | rfl⟩ <;> exact ⟨nofun, nofun⟩
  | killed held =>
      cases taken with
      | killOfIod => exact ⟨rfl, nofun, fun _ => .inl ⟨_, _, rfl⟩⟩
      | kill => exact ⟨rfl, nofun, fun _ => .inr ⟨_, _, _, rfl⟩⟩

theorem Accounted.act (valid : Accounted pool) {action : Action} (taken : Takes op pool action) :
    Accounted (pool.act action) :=
  (taken.change valid.toSound).accounted valid

/-- An operation keeps the account and adds to the log only what it may. -/
theorem perform_accounted (valid : Accounted pool) (op : Op) :
    Accounted (perform op pool).2 ∧
      ∃ added, (perform op pool).2.log = pool.log ++ added ∧ ∀ effect ∈ added, op.Emits effect := by
  refine ⟨perform_invariant (fun _ _ _ valid taken => valid.act taken) op valid, ?_⟩
  obtain ⟨added, log, emitted⟩ := perform_emitted valid.toSound op
  refine ⟨added, log, fun effect member => ?_⟩
  obtain ⟨state, action, -, taken, emission⟩ := emitted effect member
  exact emission.allowed taken

/-- A history keeps the account and only adds to the log. -/
theorem execute_accounted (valid : Accounted pool) (ops : List Op) :
    Accounted (execute ops pool) ∧ pool.log <+: (execute ops pool).log := by
  have along : Along (fun _ _ => True) (fun _ _ => True) ops pool :=
    along_of_forall (fun _ _ => trivial) (fun _ _ => trivial) ops pool
  refine (execute_steps along).invariant
    (fun reached => Accounted reached ∧ pool.log <+: reached.log) ⟨valid, List.prefix_rfl⟩ ?_
  rintro state action ⟨sound, grown⟩ ⟨op, allowed⟩
  have change := allowed.1.change sound.toSound
  obtain ⟨added, log, -⟩ := change.grown
  exact ⟨change.accounted sound, grown.trans ⟨added, log.symm⟩⟩

theorem runPasses_noEvents {start : Instant} {limit : Option Nat} {passes : List Pass}
    {pool : Pool} (ended : (runPasses start limit passes pool).1 = some .noEvents) :
    (runPasses start limit passes pool).2.hasPending = false := by
  induction passes generalizing pool with
  | nil => cases ended
  | cons pass rest ih =>
      rw [runPasses] at ended ⊢
      split
      · rename_i none
        exact Bool.not_eq_true' _ ▸ none
      · rename_i some'
        rw [if_neg some'] at ended
        split
        · rename_i quit
          rw [if_pos quit] at ended
          cases ended
        · rename_i running
          rw [if_neg running] at ended
          split
          · rename_i timeout
            rw [if_pos timeout] at ended
            cases ended
          · rename_i early
            rw [if_neg early] at ended
            exact ih ended

theorem not_hasPending_of_noEvents {op : Op} {pool : Pool}
    (ended : (perform op pool).1 = .status .noEvents) : (perform op pool).2.hasPending = false := by
  cases op with
  | run timeout start passes =>
      refine runPasses_noEvents ?_
      change (runPasses start _ passes { pool with quit := false }).1.elim Answer.running
        Answer.status = _ at ended
      revert ended
      cases (runPasses start _ passes { pool with quit := false }).1 with
      | none => exact nofun
      | some status => exact fun ended => congrArg some (Answer.status.inj ended)
  | _ => cases ended

theorem lookup_cancel {id : EventId} {notify : Bool} (found : (pool.cancel id notify).1 = true) :
    ∃ e, (pool.cancel id notify).2.pending.lookup id = some e ∧ e.done = true := by
  rcases cancel_cases pool id notify with ⟨missed, -⟩ | ⟨e, ended, -, done, cases⟩
  · rw [missed] at found
    cases found
  · refine ⟨ended, ?_, done⟩
    rcases cases with ⟨again, -⟩ | ⟨-, ⟨notified, -⟩ | ⟨silently, -⟩⟩
    · rw [again, lookup_put]
    · rw [notified, call_pending, lookup_put]
    · rw [silently, note_pending, lookup_put]

theorem lookup_killEvent (pool : Pool) (id other : EventId) :
    (pool.killEvent id).pending.lookup other =
      if other = id then none else pool.pending.lookup other := by
  rw [killEvent_pending]
  split
  · rename_i same
    rw [same, AList.lookup_erase]
  · rename_i ne
    exact AList.lookup_erase_ne ne

theorem lookup_killEvents (ids : List EventId) (pool : Pool) (id : EventId) :
    (killEvents ids pool).pending.lookup id =
      if id ∈ ids then none else pool.pending.lookup id := by
  induction ids generalizing pool with
  | nil => rfl
  | cons first rest ih =>
      rw [killEvents, ih, lookup_killEvent]
      by_cases same : id = first
      · simp only [same, List.mem_cons, true_or, ↓reduceIte, ite_self]
      · simp only [same, List.mem_cons, false_or, ↓reduceIte]

/-- What is held after killing was held before and is not listed. -/
theorem lookup_of_killEvents {ids : List EventId} {pool : Pool} {id : EventId} {e : Pending}
    (found : (killEvents ids pool).pending.lookup id = some e) :
    id ∉ ids ∧ pool.pending.lookup id = some e := by
  rw [lookup_killEvents] at found
  split at found
  · cases found
  · rename_i unlisted
    exact ⟨unlisted, found⟩

theorem not_open_delete (iodOrder : List Nat) (orders : List (List Nat)) (order : List Nat)
    (pool : Pool) (id : EventId) (e : Pending) :
    ¬ (pool.delete iodOrder orders order).Open id e := by
  rintro ⟨found, -⟩
  obtain ⟨unlisted, found⟩ := lookup_of_killEvents found
  exact unlisted ((Table.mem_walk_iff_lookup ..).mpr ⟨e, found⟩)

/-! ## What callers can rely on -/

theorem Accounted.outcomes_of_undelivered (valid : Accounted pool) {id : EventId}
    (undelivered : pool.isUndelivered id = true) : outcomes id pool.log = [] := by
  have balance := valid.balance id
  have bound := Bool.toNat_le (decide (pool.Created id))
  rw [undelivered, Bool.toNat_true] at balance
  exact List.eq_nil_of_length_eq_zero (by omega)

theorem Accounted.outcomes_of_ended (valid : Accounted pool) {id : EventId}
    (created : pool.Created id) (ended : pool.isUndelivered id = false) :
    ∃ outcome, outcomes id pool.log = [outcome] := by
  have balance := valid.balance id
  rw [ended, decide_eq_true created] at balance
  exact List.length_eq_one_iff.mp balance

theorem Accounted.length_outcomes (valid : Accounted pool) (id : EventId) :
    (outcomes id pool.log).length ≤ 1 := by
  have balance := valid.balance id
  have bound := Bool.toNat_le (decide (pool.Created id))
  omega

/-- An event that was not cancelled silently was notified once it has ended. -/
theorem Accounted.calls_of_ended (valid : Accounted pool) {id : EventId}
    (created : pool.Created id) (ended : pool.isUndelivered id = false)
    (heard : .silenced id ∉ pool.log) : ∃ status, calls id pool.log = [status] := by
  obtain ⟨outcome, only⟩ := valid.outcomes_of_ended created ended
  rw [silenced_mem_iff, only] at heard
  cases outcome with
  | called status => exact ⟨status, by rw [calls_eq, only]; rfl⟩
  | silenced => exact absurd (List.mem_singleton.mpr rfl) heard

theorem Accounted.calls_of_silenced (valid : Accounted pool) {id : EventId}
    (silenced : .silenced id ∈ pool.log) :
    pool.isUndelivered id = false ∧ calls id pool.log = [] := by
  rw [silenced_mem_iff] at silenced
  obtain ⟨outcome, only⟩ : ∃ outcome, outcomes id pool.log = [outcome] := by
    refine List.length_eq_one_iff.mp (Nat.le_antisymm (valid.length_outcomes id) ?_)
    exact List.length_pos_of_mem silenced
  rw [only, List.mem_singleton] at silenced
  constructor
  · rw [Bool.eq_false_iff]
    intro undelivered
    rw [valid.outcomes_of_undelivered undelivered] at only
    cases only
  · rw [calls_eq, only, ← silenced]
    rfl

/-- What holds around an operation that leads from one pool to another and returns an
answer, and after whatever is done later. -/
structure Notifies (before : Pool) (op : Op) (answer : Answer) (after : Pool) : Prop where
  atMostOnce : ∀ event, (calls event after.log).length ≤ 1
  notBefore : ∀ event, after.isUndelivered event = true → calls event after.log = []
  ended : ∀ event, after.Created event → after.isUndelivered event = false →
    .silenced event ∉ after.log → ∃ status, calls event after.log = [status]
  silenced : ∀ event, .silenced event ∈ after.log →
    after.isUndelivered event = false ∧ calls event after.log = []
  notAfterCancel : ∀ event notify, op = .cancel event notify → answer = .found true →
    ∀ later, calls event (execute later after).log = calls event after.log
  emits : ∃ added, after.log = before.log ++ added ∧ ∀ effect ∈ added, op.Emits effect
  drained : (answer = .status .noEvents ∨ ∃ iodOrder orders order,
      op = .delete iodOrder orders order) →
    ∀ event, after.Created event → .silenced event ∉ after.log →
      ∃ status, calls event after.log = [status]

theorem calls_of_prefix {log log' : List Effect} (grown : log <+: log') {id : EventId}
    {outcome : Outcome} (only : outcomes id log = [outcome])
    (bound : (outcomes id log').length ≤ 1) : calls id log' = calls id log := by
  obtain ⟨added, rfl⟩ := grown
  rw [outcomes_append, only, List.length_append, List.length_singleton] at bound
  have none : outcomes id added = [] := List.eq_nil_of_length_eq_zero (by omega)
  rw [calls_eq, outcomes_append, none, List.append_nil, calls_eq]

/-- **Every handler is called once.** Around each operation of every history: no
handler is called twice, an open event's handler has not been called, one that ended
was called unless the event was cancelled silently, none is called after its event was
cancelled, kills and cancellations come from their own operations only, and after a
loop without events or the deletion of the pool everyone was notified. -/
theorem handlers_called_once (history : List Op) (op : Op) :
    Notifies (execute history new) op (perform op (execute history new)).1
      (perform op (execute history new)).2 := by
  generalize reached : execute history new = before
  have valid : Accounted before := reached ▸ (execute_accounted accounted_new history).1
  obtain ⟨sound, emits⟩ := perform_accounted valid op
  have fewCalls (event : EventId) : (calls event (perform op before).2.log).length ≤ 1 := by
    rw [calls_eq]
    exact (List.length_filterMap_le _ _).trans (sound.length_outcomes event)
  have allEnded (closed : ∀ id e, ¬ (perform op before).2.Open id e) (event : EventId)
      (created : (perform op before).2.Created event)
      (heard : .silenced event ∉ (perform op before).2.log) :
      ∃ status, calls event (perform op before).2.log = [status] :=
    sound.calls_of_ended created (not_isUndelivered (closed event)) heard
  refine ⟨fewCalls, fun event undelivered => ?_, fun event => sound.calls_of_ended,
    fun event => sound.calls_of_silenced, ?_, emits, ?_⟩
  · rw [calls_eq, sound.outcomes_of_undelivered undelivered]
    rfl
  · rintro event notify rfl found later
    obtain ⟨sound', grown⟩ := execute_accounted sound later
    obtain ⟨e, held, done⟩ := lookup_cancel (Answer.found.inj found)
    have ended : (before.cancel event notify).2.isUndelivered event = false := by
      rw [isUndelivered, held]
      simp only [done, Bool.not_true]
    obtain ⟨outcome, only⟩ := sound.outcomes_of_ended (sound.created event e held) ended
    exact calls_of_prefix grown only (sound'.length_outcomes event)
  · rintro (noEvents | ⟨iodOrder, orders, order, rfl⟩)
    · exact allEnded (not_hasPending_iff.mp (not_hasPending_of_noEvents noEvents))
    · exact allEnded (not_open_delete iodOrder orders order before)

end Pool

end Wnr.Nsock
