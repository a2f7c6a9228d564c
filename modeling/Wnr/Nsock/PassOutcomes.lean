import Wnr.Nsock.Notification
import Wnr.Nsock.SocketCalls

/-! # What one pass of the loop does to each event

A pass looks at many events, one after the other, and each attempt changes the pool that
the next one starts from. Attempts and deliveries of other events do not matter to an
event, though (`Pool.tryIo_congr`): the pass gives each event the status that its deadline or
its own attempt comes to on the pool whose commands have just been handled, and
delivers it (`Pool.runPass_open`).
-/

namespace Wnr.Nsock

open Net

/-- The entries of a log that are about an event. -/
def about (id : EventId) (log : List Effect) : List Effect :=
  log.filter fun effect => effect.event = some id

theorem about_append (id : EventId) (log added : List Effect) :
    about id (log ++ added) = about id log ++ about id added :=
  List.filter_append ..

theorem about_of_event {id : EventId} {effect : Effect} (event : effect.event = some id) :
    about id [effect] = [effect] :=
  List.filter_cons_of_pos (decide_eq_true event)

theorem about_of_event_ne {id : EventId} {effect : Effect} (event : effect.event ≠ some id) :
    about id [effect] = [] :=
  List.filter_cons_of_neg (by rwa [decide_eq_true_iff])

/-- What only effects about an event contribute to. -/
theorem flatMap_about {α : Type*} {id : EventId} {part : Effect → List α}
    (foreign : ∀ effect, effect.event ≠ some id → part effect = []) (log : List Effect) :
    (about id log).flatMap part = log.flatMap part := by
  induction log with
  | nil => rfl
  | cons effect log ih =>
      rw [← List.singleton_append, about_append, List.flatMap_append, List.flatMap_append, ih]
      by_cases own : effect.event = some id
      · rw [about_of_event own]
      · rw [about_of_event_ne own, List.flatMap_singleton, foreign effect own]
        rfl

theorem mem_about {id : EventId} {effect : Effect} {log : List Effect}
    (event : effect.event = some id) : effect ∈ about id log ↔ effect ∈ log := by
  rw [about, List.mem_filter, decide_eq_true_iff]
  exact and_iff_left event

namespace Pool

/-! ## What two pools know of an event -/

/-- Two pools know the same of an event. -/
structure SameEvent (id : EventId) (pool after : Pool) : Prop where
  held : after.pending.lookup id = pool.pending.lookup id
  readBuf : after.readBufs.lookup id = pool.readBufs.lookup id
  log : about id after.log = about id pool.log

/-- The descriptors of two pools have the same sockets. -/
def SameSockets (pool after : Pool) : Prop :=
  ∀ iodId, (after.iods.lookup iodId).map Iod.sockets = (pool.iods.lookup iodId).map Iod.sockets

variable {pool pool' after : Pool} {id other iodId : Nat} {e : Pending} {iod iod' : Iod}

theorem SameEvent.rfl : SameEvent id pool pool := ⟨.refl _, .refl _, .refl _⟩

theorem SameEvent.trans {last : Pool} (first : SameEvent id pool after)
    (second : SameEvent id after last) : SameEvent id pool last :=
  ⟨second.held.trans first.held, second.readBuf.trans first.readBuf, second.log.trans first.log⟩

theorem SameEvent.open_iff (same : SameEvent id pool after) (e : Pending) :
    after.Open id e ↔ pool.Open id e := by
  rw [Open, Open, same.held]

theorem SameSockets.rfl : SameSockets pool pool := fun _ => .refl _

theorem SameSockets.lookup (same : SameSockets pool after) (iodId : Nat) :
    pool.iods.lookup iodId = none ∧ after.iods.lookup iodId = none ∨
      ∃ iod iod', pool.iods.lookup iodId = some iod ∧ after.iods.lookup iodId = some iod' ∧
        iod'.sockets = iod.sockets := by
  have same := same iodId
  cases described : pool.iods.lookup iodId with
  | none =>
      rw [described, Option.map_none, Option.map_eq_none_iff] at same
      exact .inl ⟨.refl _, same⟩
  | some iod =>
      rw [described, Option.map_some, Option.map_eq_some_iff] at same
      obtain ⟨iod', described', sockets⟩ := same
      exact .inr ⟨iod, iod', .refl _, described', sockets⟩

theorem sameSockets_insert (described : pool.iods.lookup iodId = some iod)
    (sockets : iod'.sockets = iod.sockets) (iods : after.iods = pool.iods.insert iodId iod') :
    SameSockets pool after := by
  intro key
  rw [iods]
  by_cases here : key = iodId
  · rw [here, AList.lookup_insert, described, Option.map_some, Option.map_some, sockets]
  · rw [AList.lookup_insert_ne here]

/-- The log does not mention events that do not exist. -/
theorem about_of_not_created (sound : pool.Sound) (fresh : ¬ pool.Created id) :
    about id pool.log = [] := by
  rw [about, List.filter_eq_nil_iff]
  intro effect member event
  exact fresh (sound.mentioned effect member id (of_decide_eq_true event))

/-! ## One attempt -/

theorem tryIo_of_read (pass : Pass) (found : pool.pending.lookup id = some e)
    (kind : e.kind = .read) : pool.tryIo pass id = pool.tryRead id (pass.reads id) := by
  simp only [tryIo, found, kind]

theorem tryIo_of_write (pass : Pass) (found : pool.pending.lookup id = some e)
    (kind : e.kind = .write) : pool.tryIo pass id = pool.tryWrite id (pass.writes id) := by
  simp only [tryIo, found, kind]

theorem tryIo_of_no_io (pass : Pass) (found : pool.pending.lookup id = some e)
    (read : e.kind ≠ .read) (write : e.kind ≠ .write) : pool.tryIo pass id = (none, pool) := by
  cases kind : e.kind with
  | read => exact absurd kind read
  | write => exact absurd kind write
  | connect | timer | pcapRead => simp only [tryIo, found, kind]

/-- What an attempt does, where bytes move. -/
theorem tryIo_moves (pool : Pool) (pass : Pass) (id : EventId) :
    (pool.tryIo pass id).2 = pool ∨
      ∃ e e' iodId iod iod' effect, pool.pending.lookup id = some e ∧
        e' = { e with buf := e'.buf, wbuf := e'.wbuf } ∧
        pool.iods.lookup iodId = some iod ∧ iod'.sockets = iod.sockets ∧
        (effect.event = some id ∧ effect.Silent) ∧ (pool.tryIo pass id).2 =
          ({ pool with iods := pool.iods.insert iodId iod' }.put id e').note effect := by
  cases found : pool.pending.lookup id with
  | none => exact .inl (by simp only [tryIo, found])
  | some e =>
      by_cases read : e.kind = .read
      · rw [tryIo_of_read pass found read]
        cases described : e.iod.bind pool.iods.lookup with
        | none => exact .inl (by rw [tryRead_of_no_iod found described])
        | some iod =>
            obtain ⟨iodId, named, described⟩ := Option.bind_eq_some_iff.mp described
            rw [tryRead_eq found named described]
            cases iod.arrival (pass.reads id) with
            | chunk b | datagram b =>
                exact .inr ⟨e, _, iodId, iod, { iod with readCount := iod.readCount + b.length }, _,
                  rfl, rfl, described, rfl, ⟨rfl, fun _ => rfl⟩, rfl⟩
            | ended | nothing | failed => exact .inl rfl
      by_cases write : e.kind = .write
      · rw [tryIo_of_write pass found write]
        cases left : e.wbuf with
        | none => exact .inl (by rw [tryWrite_of_no_data found left])
        | some data =>
            cases described : e.iod.bind pool.iods.lookup with
            | none => exact .inl (by rw [tryWrite_of_no_iod found described])
            | some iod =>
                obtain ⟨iodId, named, described⟩ := Option.bind_eq_some_iff.mp described
                rw [tryWrite_eq found named described left]
                cases iod.departure data (pass.writes id) with
                | taken n =>
                    by_cases nothing : n = 0
                    · exact .inl (by simp only [nothing, ↓reduceIte])
                    · simp only [nothing, ↓reduceIte]
                      exact .inr ⟨e, _, iodId, iod, { iod with writeCount := iod.writeCount + n }, _,
                        rfl, rfl, described, rfl, ⟨rfl, fun _ => rfl⟩, rfl⟩
                | sent peer =>
                    exact .inr ⟨e, _, iodId, iod,
                      { iod with writeCount := iod.writeCount + data.length }, _, rfl, rfl, described,
                      rfl, ⟨rfl, fun _ => rfl⟩, rfl⟩
                | nothing | failed => exact .inl rfl
      · exact .inl (by rw [tryIo_of_no_io pass found read write])

theorem tryIo_sockets (pool : Pool) (pass : Pass) (id : EventId) :
    SameSockets pool (pool.tryIo pass id).2 := by
  rcases tryIo_moves pool pass id with still | ⟨_, _, _, _, _, _, -, -, described, sockets, -, moved⟩
  · rw [still]
    exact .rfl
  · rw [moved]
    exact sameSockets_insert described sockets rfl

/-- An attempt does not matter to another event. -/
theorem tryIo_other (pool : Pool) (pass : Pass) (ne : other ≠ id) :
    SameEvent other pool (pool.tryIo pass id).2 := by
  rcases tryIo_moves pool pass id with still | ⟨_, _, _, _, _, effect, -, -, -, -, ⟨event, -⟩, moved⟩
  · rw [still]
    exact .rfl
  · rw [moved]
    refine ⟨lookup_put_ne _ ne _, rfl, ?_⟩
    have foreign : effect.event ≠ some other := by
      rw [event]
      exact fun same => ne (Option.some.inj same).symm
    rw [note_log, put_log, about_append, about_of_event_ne foreign, List.append_nil]

theorem SameEvent.put_note (same : SameEvent id pool pool') (e : Pending) (effect : Effect)
    (iods iods' : Table Iod) :
    SameEvent id (({ pool with iods }.put id e).note effect)
      (({ pool' with iods := iods' }.put id e).note effect) := by
  refine ⟨(lookup_put _ id e).trans (lookup_put _ id e).symm, same.readBuf, ?_⟩
  rw [note_log, note_log, about_append, about_append]
  exact congrArg (· ++ about id [effect]) same.log

/-- A descriptor that one pool does not have the other does not have either. -/
theorem SameSockets.missing (sockets : SameSockets pool pool') {named : Option Nat}
    (nowhere : named.bind pool.iods.lookup = none) : named.bind pool'.iods.lookup = none := by
  rw [Option.bind_eq_none_iff] at nowhere ⊢
  intro iodId isNamed
  rcases sockets.lookup iodId with ⟨-, missing⟩ | ⟨iod, -, described, -⟩
  · exact missing
  · rw [nowhere iodId isNamed] at described
    cases described

/-- A descriptor that one pool has the other has with the same sockets. -/
theorem SameSockets.described (sockets : SameSockets pool pool') {iodId : Nat} {iod : Iod}
    (described : pool.iods.lookup iodId = some iod) :
    ∃ iod', pool'.iods.lookup iodId = some iod' ∧ iod'.sockets = iod.sockets := by
  rcases sockets.lookup iodId with ⟨missing, -⟩ | ⟨iod₁, iod', known, described', sockets⟩
  · rw [missing] at described
    cases described
  · obtain rfl := Option.some.inj (known.symm.trans described)
    exact ⟨iod', described', sockets⟩

theorem tryRead_congr (same : SameEvent id pool pool') (sockets : SameSockets pool pool')
    (outcome : SocketResult (List UInt8)) (found : pool.pending.lookup id = some e) :
    (pool'.tryRead id outcome).1 = (pool.tryRead id outcome).1 ∧
      SameEvent id (pool.tryRead id outcome).2 (pool'.tryRead id outcome).2 := by
  have found' := same.held.trans found
  cases described : e.iod.bind pool.iods.lookup with
  | none =>
      rw [tryRead_of_no_iod found described,
        tryRead_of_no_iod found' (sockets.missing described)]
      exact ⟨rfl, same⟩
  | some iod =>
      obtain ⟨iodId, named, described⟩ := Option.bind_eq_some_iff.mp described
      obtain ⟨iod', described', sockets⟩ := sockets.described described
      rw [tryRead_eq found named described, tryRead_eq found' named described',
        Iod.arrival_congr sockets]
      cases iod.arrival outcome with
      | chunk b | datagram b => exact ⟨rfl, same.put_note ..⟩
      | ended | nothing | failed => exact ⟨rfl, same⟩

theorem tryWrite_congr (same : SameEvent id pool pool') (sockets : SameSockets pool pool')
    (outcome : SocketResult Nat) (found : pool.pending.lookup id = some e) :
    (pool'.tryWrite id outcome).1 = (pool.tryWrite id outcome).1 ∧
      SameEvent id (pool.tryWrite id outcome).2 (pool'.tryWrite id outcome).2 := by
  have found' := same.held.trans found
  cases left : e.wbuf with
  | none =>
      rw [tryWrite_of_no_data found left, tryWrite_of_no_data found' left]
      exact ⟨rfl, same⟩
  | some data =>
      cases described : e.iod.bind pool.iods.lookup with
      | none =>
          rw [tryWrite_of_no_iod found described,
            tryWrite_of_no_iod found' (sockets.missing described)]
          exact ⟨rfl, same⟩
      | some iod =>
          obtain ⟨iodId, named, described⟩ := Option.bind_eq_some_iff.mp described
          obtain ⟨iod', described', sockets⟩ := sockets.described described
          rw [tryWrite_eq found named described left,
            tryWrite_eq found' named described' left, Iod.departure_congr sockets]
          cases iod.departure data outcome with
          | taken n =>
              by_cases nothing : n = 0
              · simp only [nothing, ↓reduceIte]
                exact ⟨trivial, same⟩
              · simp only [nothing, ↓reduceIte]
                exact ⟨trivial, same.put_note ..⟩
          | sent peer => exact ⟨rfl, same.put_note ..⟩
          | nothing | failed => exact ⟨rfl, same⟩

/-- Nothing but the event and the sockets matters to an attempt. -/
theorem tryIo_congr (same : SameEvent id pool pool') (sockets : SameSockets pool pool')
    (pass : Pass) :
    (pool'.tryIo pass id).1 = (pool.tryIo pass id).1 ∧
      SameEvent id (pool.tryIo pass id).2 (pool'.tryIo pass id).2 := by
  cases found : pool.pending.lookup id with
  | none =>
      have found' := same.held.trans found
      simp only [tryIo, found, found', same, and_self]
  | some e =>
      have found' := same.held.trans found
      by_cases read : e.kind = .read
      · rw [tryIo_of_read pass found read, tryIo_of_read pass found' read]
        exact tryRead_congr same sockets (pass.reads id) found
      by_cases write : e.kind = .write
      · rw [tryIo_of_write pass found write, tryIo_of_write pass found' write]
        exact tryWrite_congr same sockets (pass.writes id) found
      · rw [tryIo_of_no_io pass found read write, tryIo_of_no_io pass found' read write]
        exact ⟨rfl, same⟩

/-! ## The attempts of a pass -/

/-- The deliveries that are meant for an event. -/
def meantFor (id : EventId) (toDeliver : List (EventId × EventStatus)) :
    List (EventId × EventStatus) :=
  toDeliver.filter (·.1 = id)

theorem meantFor_eq_nil {toDeliver : List (EventId × EventStatus)} :
    meantFor id toDeliver = [] ↔ toDeliver.any (·.1 = id) = false := by
  rw [meantFor, List.filter_eq_nil_iff, List.any_eq_false]

theorem meantFor_append (id : EventId) (first second : List (EventId × EventStatus)) :
    meantFor id (first ++ second) = meantFor id first ++ meantFor id second :=
  List.filter_append ..

theorem meantFor_cons (id : EventId) (pair : EventId × EventStatus)
    (rest : List (EventId × EventStatus)) :
    meantFor id (pair :: rest) =
      if pair.1 = id then pair :: meantFor id rest else meantFor id rest := by
  by_cases own : pair.1 = id
  · rw [if_pos own]
    exact List.filter_cons_of_pos (decide_eq_true own)
  · rw [if_neg own]
    exact List.filter_cons_of_neg (by rwa [decide_eq_true_iff])

theorem meantFor_self (id : EventId) (status : EventStatus) :
    meantFor id [(id, status)] = [(id, status)] := by
  rw [meantFor_cons, if_pos rfl]
  rfl

theorem meantFor_other (ne : other ≠ id) (status : EventStatus) :
    meantFor other [(id, status)] = [] := by
  rw [meantFor_cons, if_neg ne.symm]
  rfl

/-- One turn of the loop over the events. -/
theorem tryAll_cons (pass : Pass) (id : EventId) (rest : List EventId)
    (toDeliver : List (EventId × EventStatus)) (pool : Pool) :
    tryAll pass (id :: rest) toDeliver pool =
      if toDeliver.any (·.1 = id) then tryAll pass rest toDeliver pool
      else tryAll pass rest
        (toDeliver ++ ((pool.tryIo pass id).1.map fun status => (id, status)).toList)
        (pool.tryIo pass id).2 := by
  rw [tryAll]
  split
  · rfl
  · rcases pool.tryIo pass id with ⟨_ | status, after⟩
    · rw [Option.map_none, Option.toList_none, List.append_nil]
    · rfl

/-- An event that has its status, or that is not looked at, is left alone. -/
theorem tryAll_other (pass : Pass) {ids : List EventId}
    {toDeliver : List (EventId × EventStatus)} (pool : Pool)
    (settled : id ∉ ids ∨ toDeliver.any (·.1 = id) = true) :
    SameEvent id pool (tryAll pass ids toDeliver pool).2 ∧
      meantFor id (tryAll pass ids toDeliver pool).1 = meantFor id toDeliver := by
  induction ids generalizing toDeliver pool with
  | nil => exact ⟨.rfl, rfl⟩
  | cons first rest ih =>
      rw [tryAll_cons]
      split
      · refine ih pool (settled.imp_left fun unlisted => ?_)
        exact fun member => unlisted (List.mem_cons_of_mem _ member)
      · rename_i unsettled
        have ne : id ≠ first := by
          rintro rfl
          exact settled.elim (fun unlisted => unlisted List.mem_cons_self) unsettled
        have foreign : meantFor id
            ((pool.tryIo pass first).1.map fun status => (first, status)).toList = [] := by
          cases (pool.tryIo pass first).1 with
          | none => rfl
          | some status => exact meantFor_other ne status
        have settled' : id ∉ rest ∨ (toDeliver ++ ((pool.tryIo pass first).1.map
            fun status => (first, status)).toList).any (·.1 = id) = true :=
          settled.imp (fun unlisted member => unlisted (List.mem_cons_of_mem _ member))
            fun settled => by rw [List.any_append, settled, Bool.true_or]
        obtain ⟨same, meant⟩ := ih (pool.tryIo pass first).2 settled'
        refine ⟨(tryIo_other pool pass ne).trans same, meant.trans ?_⟩
        rw [meantFor_append, foreign, List.append_nil]

/-- An event that has no status yet gets the one of its own attempt. -/
theorem tryAll_open (pass : Pass) {ids : List EventId} (distinct : ids.Nodup) (listed : id ∈ ids)
    {toDeliver : List (EventId × EventStatus)} (pool : Pool)
    (unsettled : toDeliver.any (·.1 = id) = false) :
    SameEvent id (pool.tryIo pass id).2 (tryAll pass ids toDeliver pool).2 ∧
      meantFor id (tryAll pass ids toDeliver pool).1 =
        ((pool.tryIo pass id).1.map fun status => (id, status)).toList := by
  induction ids generalizing toDeliver pool with
  | nil => cases listed
  | cons first rest ih =>
      obtain ⟨unlisted, distinct⟩ := List.nodup_cons.mp distinct
      rw [tryAll_cons]
      by_cases here : id = first
      · subst here
        rw [unsettled, if_neg Bool.false_ne_true]
        obtain ⟨same, meant⟩ := tryAll_other pass (pool.tryIo pass id).2 (.inl unlisted)
        refine ⟨same, meant.trans ?_⟩
        rw [meantFor_append, meantFor_eq_nil.mpr unsettled, List.nil_append]
        cases (pool.tryIo pass id).1 with
        | none => rfl
        | some status => exact meantFor_self id status
      · have later : id ∈ rest := (List.mem_cons.mp listed).resolve_left here
        split
        · exact ih distinct later pool unsettled
        · have still : (toDeliver ++ ((pool.tryIo pass first).1.map
              fun status => (first, status)).toList).any (·.1 = id) = false := by
            rw [List.any_append, unsettled, Bool.false_or]
            cases (pool.tryIo pass first).1 with
            | none => rfl
            | some status => simpa using Ne.symm here
          obtain ⟨same, meant⟩ := ih distinct later (pool.tryIo pass first).2 still
          obtain ⟨status, own⟩ := tryIo_congr (tryIo_other pool pass here)
            (tryIo_sockets pool pass first) pass
          exact ⟨own.trans same, status ▸ meant⟩

/-! ## The deliveries of a pass -/

/-- The delivery of an open event. -/
theorem deliver_open (sound : pool.Sound) (held : pool.Open id e) (status : EventStatus) :
    pool.deliver id status =
      ({ pool with
          readBufs := if e.kind = EventType.read then pool.readBufs.insert id e.buf else pool.readBufs
        }.drop id).note (.called id id status) := by
  obtain ⟨handler, live⟩ := sound.live id e held
  simp only [deliver, held.1, held.2, live, Bool.or_false, Bool.false_eq_true, ↓reduceIte]
  rw [handler]
  split <;> rfl

/-- Nothing is delivered to an event that is not open. -/
theorem deliver_closed (closed : ∀ e, ¬ pool.Open id e) (status : EventStatus) :
    ∀ other, SameEvent other pool (pool.deliver id status) := by
  intro other
  rw [deliver]
  split
  · rename_i missing
    refine ⟨?_, rfl, rfl⟩
    by_cases same : other = id
    · rw [same, lookup_drop, missing]
    · exact lookup_drop_ne pool same
  · rename_i e found
    have done : e.done = true := by
      by_contra live
      exact closed e ⟨found, by simpa using live⟩
    rw [done, Bool.true_or, if_pos rfl]
    exact .rfl

theorem deliver_other (sound : pool.Sound) (ne : other ≠ id) (status : EventStatus) :
    SameEvent other pool (pool.deliver id status) := by
  by_cases open' : ∃ e, pool.Open id e
  · obtain ⟨e, held⟩ := open'
    rw [deliver_open sound held]
    refine ⟨lookup_drop_ne _ ne, ?_, ?_⟩
    · change (if e.kind = .read then _ else _ : Table (List UInt8)).lookup other = _
      split
      · exact AList.lookup_insert_ne ne
      · rfl
    · have foreign : (Effect.called id id status).event ≠ some other :=
        fun same => ne (Option.some.inj same).symm
      rw [note_log, drop_log, about_append, about_of_event_ne foreign, List.append_nil]
  · exact deliver_closed (fun e held => open' ⟨e, held⟩) status other

theorem sound_deliver (sound : pool.Sound) (id : EventId) (status : EventStatus) :
    (pool.deliver id status).Sound :=
  (EventChange.deliver sound id fun _ _ => trivial :
    EventChange (fun _ => True) pool (pool.deliver id status)).sound sound

theorem deliverAll_other (sound : pool.Sound) {toDeliver : List (EventId × EventStatus)}
    (unmeant : meantFor id toDeliver = []) : SameEvent id pool (deliverAll toDeliver pool) := by
  induction toDeliver generalizing pool with
  | nil => exact .rfl
  | cons pair rest ih =>
      obtain ⟨first, status⟩ := pair
      rw [meantFor, List.filter_eq_nil_iff, List.forall_mem_cons] at unmeant
      have ne : id ≠ first := by
        rintro rfl
        exact unmeant.1 (decide_eq_true rfl)
      exact (deliver_other sound ne status).trans
        (ih (sound_deliver sound first status) (List.filter_eq_nil_iff.mpr unmeant.2))

/-- What a pass makes of an event, once the attempts are over. -/
inductive Passed (tried after : Pool) (id : EventId) : Option EventStatus → Prop
  | kept (same : SameEvent id tried after) : Passed tried after id none
  | delivered (status : EventStatus) (e : Pending) (held : tried.Open id e)
      (closed : after.pending.lookup id = none)
      (readBuf : after.readBufs.lookup id =
        if e.kind = .read then some e.buf else tried.readBufs.lookup id)
      (log : about id after.log = about id tried.log ++ [.called id id status]) :
      Passed tried after id (some status)

theorem deliverAll_open (sound : pool.Sound) (held : pool.Open id e)
    {toDeliver : List (EventId × EventStatus)} {status : EventStatus}
    (meant : meantFor id toDeliver = [(id, status)]) :
    Passed pool (deliverAll toDeliver pool) id (some status) := by
  induction toDeliver generalizing pool with
  | nil => cases meant
  | cons pair rest ih =>
      obtain ⟨first, status'⟩ := pair
      rw [deliverAll]
      by_cases here : id = first
      · subst here
        rw [meantFor_cons, if_pos rfl] at meant
        obtain ⟨same, unmeant⟩ := List.cons.inj meant
        obtain rfl := (Prod.mk.inj same).2
        have later := deliverAll_other (sound_deliver sound id status') unmeant
        have now := deliver_open sound held status'
        refine .delivered status' e held ?_ ?_ ?_
        · rw [later.held, now, note_pending, lookup_drop]
        · rw [later.readBuf, now]
          change (if e.kind = .read then _ else _ : Table (List UInt8)).lookup id = _
          split
          · exact AList.lookup_insert _
          · rfl
        · rw [later.log, now, note_log, drop_log, about_append,
            about_of_event (show (Effect.called id id status').event = some id from rfl)]
      · rw [meantFor_cons, if_neg (Ne.symm here)] at meant
        have same := deliver_other sound here status'
        have later := ih (sound_deliver sound first status') ((same.open_iff e).mpr held) meant
        cases later with
        | delivered _ e' held' closed readBuf log =>
            exact .delivered status e' ((same.open_iff e').mp held') closed
              (same.readBuf ▸ readBuf) (same.log ▸ log)

/-! ## The commands of a pass -/

/-- The pool once a pass has handled its commands. -/
def drained (self : Pool) (pass : Pass) : Pool :=
  (arriveAll pass.arrivals self).drainCommands pass.searches

/-- What the commands of a pass can do to an event. -/
inductive Drained (pool after : Pool) (id : EventId) : Prop
  | same (same : SameEvent id pool after)
  | connected (e : Pending) (held : pool.Open id e) (kind : e.kind = .connect)
      (status : EventStatus) (ended : status = .success ∨ status = .error)
      (closed : after.pending.lookup id = none)
      (readBuf : after.readBufs.lookup id = pool.readBufs.lookup id)
      (log : about id after.log = about id pool.log ++ [.called id id status])

theorem Drained.open_of_open (drained : Drained pool after id) (held : after.Open id e) :
    pool.Open id e ∧ SameEvent id pool after := by
  cases drained with
  | same same => exact ⟨(same.open_iff e).mp held, same⟩
  | connected e' _ _ _ _ closed =>
      exact absurd held (not_open_of_gone closed e)

/-- Commands only matter to events that connect. -/
theorem Drained.same_of_kind (drained : Drained pool after id) (held : pool.Open id e)
    (kind : e.kind ≠ .connect) : SameEvent id pool after := by
  cases drained with
  | same same => exact same
  | connected e' held' connects => exact absurd (held'.unique held ▸ connects) kind

theorem install_readBufs (pool : Pool) (result : ConnectResult) :
    (pool.install result).readBufs = pool.readBufs := by
  rw [install]
  split <;> rfl

theorem call_readBufs (pool : Pool) (handler : Handler) (id : EventId) (status : EventStatus) :
    (pool.call handler id status).readBufs = pool.readBufs := by
  cases handler <;> rfl

theorem receive_event (sound : pool.Sound) (order : List Nat) (cmd : Cmd) (id : EventId) :
    Drained pool (pool.receive order cmd) id := by
  cases cmd with
  | quit => exact .same ⟨rfl, rfl, rfl⟩
  | connectResult result =>
      have receipt (receipt : Receipt) : about id [.result receipt] = [] :=
        about_of_event_ne nofun
      cases target : pool.connectTarget order result.iod with
      | none =>
          rw [receive_result_of_none target]
          refine .same ⟨rfl, rfl, ?_⟩
          rw [note_log, about_append, receipt, List.append_nil]
      | some evid =>
          obtain ⟨e, held, kind, -, received⟩ := receive_result_of_some target
          obtain ⟨handler, live⟩ := sound.live evid e held
          simp only [live, Bool.false_eq_true, ↓reduceIte, handler] at received
          rw [received]
          have log (called : List Effect) (same : about id [.called evid evid result.status] = called) :
              about id (((((pool.install result).note (.result ⟨result,
                pool.isUndelivered result.attempt, some evid,
                result.stream.filter fun _ => (pool.iods.lookup result.iod).isSome⟩)).drop evid).call
                  (.caller evid) evid result.status).log) = about id pool.log ++ called := by
            rw [call_log, drop_log, note_log, install_log, about_append, about_append, receipt,
              List.append_nil]
            exact congrArg _ same
          have readBufs := install_readBufs pool result
          by_cases here : id = evid
          · subst here
            refine .connected e held kind result.status ?_ ?_ ?_ (log _ (about_of_event rfl))
            · rw [ConnectResult.status]
              split
              · exact .inl rfl
              · exact .inr rfl
            · rw [call_pending, lookup_drop]
            · rw [call_readBufs]
              exact congrArg (·.lookup id) readBufs
          · refine .same ⟨?_, ?_, ?_⟩
            · rw [call_pending, lookup_drop_ne _ here, note_pending, install_pending]
            · rw [call_readBufs]
              exact congrArg (·.lookup id) readBufs
            · rw [log [] (about_of_event_ne fun same => here (Option.some.inj same).symm),
                List.append_nil]

theorem sound_receive (sound : pool.Sound) (order : List Nat) (cmd : Cmd) :
    (pool.receive order cmd).Sound :=
  (EventChange.receive sound order cmd :
    EventChange (Emission pool .loopQuit (.receive order cmd)) pool _).sound sound

theorem sound_of_view (sound : pool.Sound) (same : SameView pool after) : after.Sound :=
  (EventChange.of_view same : EventChange (fun _ => True) pool after).sound sound

theorem Drained.trans {last : Pool} (first : Drained pool after id)
    (second : Drained after last id) : Drained pool last id := by
  cases first with
  | same same =>
      cases second with
      | same same' => exact .same (same.trans same')
      | connected e held kind status ended closed readBuf log =>
          exact .connected e ((same.open_iff e).mp held) kind status ended closed
            (readBuf.trans same.readBuf) (log.trans (congrArg (· ++ _) same.log))
  | connected e held kind status ended closed readBuf log =>
      cases second with
      | same same =>
          exact .connected e held kind status ended (same.held.trans closed)
            (same.readBuf.trans readBuf) (same.log.trans log)
      | connected e' held' => exact absurd held' (not_open_of_gone closed e')

theorem receiveAll_event (sound : pool.Sound) (orders : List (List Nat)) (cmds : List Cmd)
    (id : EventId) :
    (receiveAll orders cmds pool).Sound ∧ Drained pool (receiveAll orders cmds pool) id := by
  induction cmds generalizing orders pool with
  | nil => exact ⟨sound, .same .rfl⟩
  | cons cmd rest ih =>
      have first := sound_receive sound (orders.headD []) cmd
      obtain ⟨sound', later⟩ := ih first orders.tail
      exact ⟨sound', (receive_event sound (orders.headD []) cmd id).trans later⟩

theorem arriveAll_event (sound : pool.Sound)
    (arrivals : List (EventId × Except Unit (Option SocketAddr))) (id : EventId) :
    (arriveAll arrivals pool).Sound ∧ SameEvent id pool (arriveAll arrivals pool) := by
  induction arrivals generalizing pool with
  | nil => exact ⟨sound, .rfl⟩
  | cons arrival rest ih =>
      have view := arrive_view pool arrival.1 arrival.2
      have same : SameEvent id pool (pool.arrive arrival.1 arrival.2) := by
        refine ⟨by rw [view.pending], ?_, by rw [view.log]⟩
        rw [arrive]
        split <;> rfl
      obtain ⟨sound', later⟩ := ih (sound_of_view sound view)
      exact ⟨sound', same.trans later⟩

theorem drained_event (sound : pool.Sound) (pass : Pass) (id : EventId) :
    (pool.drained pass).Sound ∧ Drained pool (pool.drained pass) id := by
  obtain ⟨arrived, same⟩ := arriveAll_event sound pass.arrivals id
  have emptied : ({ arriveAll pass.arrivals pool with channel := [] } : Pool).Sound :=
    sound_of_view arrived ⟨rfl, rfl, rfl, rfl⟩
  obtain ⟨sound', received⟩ := receiveAll_event emptied pass.searches
    (arriveAll pass.arrivals pool).channel id
  have first : SameEvent id pool { arriveAll pass.arrivals pool with channel := [] } :=
    same.trans ⟨rfl, rfl, rfl⟩
  exact ⟨sound', Drained.trans (.same first) received⟩

/-! ## The whole pass -/

/-- The status that a pass gives to an event once the commands are handled. -/
def verdict (self : Pool) (pass : Pass) (id : EventId) : Option EventStatus :=
  match self.due pass.now id with
  | some (_, status) => some status
  | none => (self.tryIo pass id).1

/-- The pool once the event has been attempted, where it is. -/
def attempted (self : Pool) (pass : Pass) (id : EventId) : Pool :=
  match self.due pass.now id with
  | some _ => self
  | none => (self.tryIo pass id).2

/-- The events with a status before any is attempted. -/
def expired (self : Pool) (pass : Pass) : List (EventId × EventStatus) :=
  (self.undelivered pass.order).filterMap (self.due pass.now)

theorem runPass_eq (pool : Pool) (pass : Pass) :
    pool.runPass pass =
      let drained := pool.drained pass
      let tried := tryAll pass (drained.undelivered pass.order) (drained.expired pass) drained
      deliverAll tried.1 tried.2 :=
  rfl

theorem nodup_undelivered (pool : Pool) (order : List Nat) : (pool.undelivered order).Nodup :=
  (Table.nodup_walk order pool.pending).filter _

theorem due_fst {now : Instant} {pair : EventId × EventStatus}
    (due : pool.due now id = some pair) : pair.1 = id := by
  obtain ⟨status, -, rfl⟩ := Option.map_eq_some_iff.mp due
  rfl

theorem meantFor_due_of_notMem {ids : List EventId} {now : Instant} (unlisted : id ∉ ids) :
    meantFor id (ids.filterMap (pool.due now)) = [] := by
  rw [meantFor, List.filter_eq_nil_iff]
  intro pair member same
  obtain ⟨listed, member, due⟩ := List.mem_filterMap.mp member
  have here : listed = id := (due_fst due).symm.trans (of_decide_eq_true same)
  exact unlisted (here ▸ member)

theorem meantFor_due {ids : List EventId} {now : Instant} (distinct : ids.Nodup)
    (listed : id ∈ ids) :
    meantFor id (ids.filterMap (pool.due now)) = (pool.due now id).toList := by
  induction ids with
  | nil => cases listed
  | cons first rest ih =>
      obtain ⟨unlisted, distinct⟩ := List.nodup_cons.mp distinct
      by_cases here : id = first
      · subst here
        cases due : pool.due now id with
        | none => rw [List.filterMap_cons_none due, meantFor_due_of_notMem unlisted, Option.toList_none]
        | some pair =>
            rw [List.filterMap_cons_some due, meantFor_cons, if_pos (due_fst due),
              meantFor_due_of_notMem unlisted, Option.toList_some]
      · have later : id ∈ rest := (List.mem_cons.mp listed).resolve_left here
        cases due : pool.due now first with
        | none => rw [List.filterMap_cons_none due, ih distinct later]
        | some pair =>
            have foreign : pair.1 ≠ id := due_fst due ▸ Ne.symm here
            rw [List.filterMap_cons_some due, meantFor_cons, if_neg foreign, ih distinct later]

theorem sound_tryIo (sound : pool.Sound) (pass : Pass) (id : EventId) :
    (pool.tryIo pass id).2.Sound := by
  have any (progress : Progress pool id (pool.tryIo pass id).2) :
      EventChange (fun _ => True) pool (pool.tryIo pass id).2 :=
    progress.change fun _ _ _ _ _ _ => trivial
  refine (any ?_).sound sound
  cases found : pool.pending.lookup id with
  | none => exact .still (by simp only [tryIo, found])
  | some e =>
      by_cases read : e.kind = .read
      · rw [tryIo_of_read pass found read]
        exact tryRead_progress ..
      by_cases write : e.kind = .write
      · rw [tryIo_of_write pass found write]
        exact tryWrite_progress ..
      · exact .still (by rw [tryIo_of_no_io pass found read write])

theorem sound_tryAll (sound : pool.Sound) (pass : Pass) (ids : List EventId)
    (toDeliver : List (EventId × EventStatus)) : (tryAll pass ids toDeliver pool).2.Sound := by
  induction ids generalizing toDeliver pool with
  | nil => exact sound
  | cons id rest ih =>
      rw [tryAll_cons]
      split
      · exact ih sound _
      · exact ih (sound_tryIo sound pass id) _

theorem sound_deliverAll (sound : pool.Sound) (toDeliver : List (EventId × EventStatus)) :
    (deliverAll toDeliver pool).Sound := by
  induction toDeliver generalizing pool with
  | nil => exact sound
  | cons pair rest ih => exact ih (sound_deliver sound pair.1 pair.2)

theorem sound_runPass (sound : pool.Sound) (pass : Pass) : (pool.runPass pass).Sound :=
  sound_deliverAll (sound_tryAll (drained_event sound pass 0).1 pass _ _) _

/-- What an attempt keeps of its event. -/
theorem tryIo_open (held : pool.Open id e) (pass : Pass) :
    ∃ e', (pool.tryIo pass id).2.Open id e' ∧ e' = { e with buf := e'.buf, wbuf := e'.wbuf } := by
  rcases tryIo_moves pool pass id with still | ⟨e₁, e', _, _, _, _, found, fields, -, -, -, moved⟩
  · exact ⟨e, by rwa [still], rfl⟩
  · obtain rfl := Option.some.inj (held.1.symm.trans found)
    refine ⟨e', ⟨?_, ?_⟩, fields⟩
    · rw [moved, note_pending, lookup_put]
    · rw [fields]
      exact held.2

theorem Passed.of_same {tried tried' : Pool} {status : Option EventStatus}
    (passed : Passed tried' after id status) (same : SameEvent id tried tried') :
    Passed tried after id status := by
  cases passed with
  | kept same' => exact .kept (same.trans same')
  | delivered status e held closed readBuf log =>
      exact .delivered status e ((same.open_iff e).mp held) closed (same.readBuf ▸ readBuf)
        (same.log ▸ log)

/-- **Each event gets its own verdict.** A pass delivers to an open event what its deadline
or its own attempt comes to. -/
theorem runPass_open (sound : pool.Sound) (pass : Pass) (held : (pool.drained pass).Open id e) :
    Passed ((pool.drained pass).attempted pass id) (pool.runPass pass) id
      ((pool.drained pass).verdict pass id) := by
  have sound' := (drained_event sound pass id).1
  rw [runPass_eq]
  generalize pool.drained pass = drained at held sound'
  have listed : id ∈ drained.undelivered pass.order := mem_undelivered.mpr ⟨e, held⟩
  have distinct := nodup_undelivered drained pass.order
  have meant : meantFor id (drained.expired pass) = (drained.due pass.now id).toList :=
    meantFor_due distinct listed
  have triedSound := sound_tryAll sound' pass (drained.undelivered pass.order) (drained.expired pass)
  rw [verdict, attempted]
  cases due : drained.due pass.now id with
  | some pair =>
      obtain ⟨id', status⟩ := pair
      obtain rfl : id' = id := due_fst due
      rw [due, Option.toList_some] at meant
      have settled : (drained.expired pass).any (·.1 = id') = true := by
        rw [← Bool.not_eq_false, ← meantFor_eq_nil, meant]
        exact List.cons_ne_nil _ _
      obtain ⟨same, meant'⟩ := tryAll_other pass drained (.inr settled)
      exact (deliverAll_open triedSound ((same.open_iff e).mpr held) (meant'.trans meant)).of_same same
  | none =>
      rw [due, Option.toList_none] at meant
      obtain ⟨same, meant'⟩ :=
        tryAll_open pass distinct listed drained (meantFor_eq_nil.mp meant)
      obtain ⟨e', held', -⟩ := tryIo_open held pass
      cases status : (drained.tryIo pass id).1 with
      | none =>
          rw [status, Option.map_none, Option.toList_none] at meant'
          exact .kept (same.trans (deliverAll_other triedSound meant'))
      | some status' =>
          rw [status, Option.map_some, Option.toList_some] at meant'
          exact (deliverAll_open triedSound ((same.open_iff e').mpr held') meant').of_same same

/-- A pass leaves an event alone that is not open once the commands are handled. -/
theorem runPass_closed (sound : pool.Sound) (pass : Pass)
    (closed : ∀ e, ¬ (pool.drained pass).Open id e) :
    SameEvent id (pool.drained pass) (pool.runPass pass) := by
  have sound' := (drained_event sound pass id).1
  rw [runPass_eq]
  generalize pool.drained pass = drained at closed sound'
  have unlisted : id ∉ drained.undelivered pass.order := by
    rw [mem_undelivered]
    exact fun ⟨e, held⟩ => closed e held
  obtain ⟨same, meant⟩ := tryAll_other pass drained (.inl unlisted)
  exact same.trans (deliverAll_other (sound_tryAll sound' pass _ _)
    (meant.trans (meantFor_due_of_notMem unlisted)))

/-- A pass leaves an event alone that is not open. -/
theorem runPass_same (sound : pool.Sound) (pass : Pass) (closed : ∀ e, ¬ pool.Open id e) :
    SameEvent id pool (pool.runPass pass) := by
  have drained := (drained_event sound pass id).2
  have after := runPass_closed sound pass fun e held => closed e (drained.open_of_open held).1
  cases drained with
  | same same => exact same.trans after
  | connected e held => exact absurd held (closed e)

/-! ## The calls of a pass -/

/-- The pass calls the handler of an event with a status. -/
def Delivers (pool : Pool) (pass : Pass) (id : EventId) (status : EventStatus) : Prop :=
  calls id (pool.runPass pass).log = calls id pool.log ++ [status]

theorem calls_about (id : EventId) (log : List Effect) : calls id (about id log) = calls id log := by
  rw [calls, calls, about, List.filterMap_filter]
  refine List.filterMap_congr fun effect _ => ?_
  cases effect with
  | called owner event status =>
      by_cases own : owner = id
      · simp only [Effect.event, own, decide_true, ↓reduceIte]
      · simp only [own, ↓reduceIte, ite_self]
  | requested | addressed | silenced | result | received | accepted | sent =>
      simp only [ite_self]

theorem calls_append (id : EventId) (log added : List Effect) :
    calls id (log ++ added) = calls id log ++ calls id added :=
  List.filterMap_append

theorem SameEvent.calls (same : SameEvent id pool after) : calls id after.log = calls id pool.log := by
  rw [← calls_about, same.log, calls_about]

theorem calls_of_about {log log' : List Effect} {status : EventStatus}
    (grown : about id log' = about id log ++ [.called id id status]) :
    calls id log' = calls id log ++ [status] := by
  rw [← calls_about, grown, calls_append, calls_about]
  simp only [calls, List.filterMap_cons, ↓reduceIte, List.filterMap_nil]

theorem calls_tryIo (pool : Pool) (pass : Pass) (id : EventId) :
    calls id (pool.tryIo pass id).2.log = calls id pool.log := by
  rcases tryIo_moves pool pass id with still | ⟨_, _, _, _, _, effect, -, -, -, -, ⟨-, silent⟩, moved⟩
  · rw [still]
  · rw [moved, note_log, put_log, calls_append, calls_eq id [effect],
      outcomes_of_silent (List.forall_mem_singleton.mpr silent)]
    exact List.append_nil _

theorem calls_attempted (pool : Pool) (pass : Pass) (id : EventId) :
    calls id (pool.attempted pass id).log = calls id pool.log := by
  rw [attempted]
  split
  · rfl
  · exact calls_tryIo pool pass id

theorem Passed.calls {tried : Pool} {status : Option EventStatus}
    (passed : Passed tried after id status) :
    calls id after.log = calls id tried.log ++ status.toList := by
  cases passed with
  | kept same => rw [same.calls, Option.toList_none, List.append_nil]
  | delivered status e held closed readBuf log => exact calls_of_about log

/-- **What a pass comes to for an open event**: a result of its connection attempt
ends it, or it gets its verdict. -/
theorem runPass_cases (sound : pool.Sound) (pass : Pass) (held : pool.Open id e) :
    (e.kind = .connect ∧ (∀ e', ¬ (pool.runPass pass).Open id e') ∧
        ∃ status, (status = .success ∨ status = .error) ∧ pool.Delivers pass id status) ∨
      (pool.drained pass).Open id e ∧
        calls id (pool.runPass pass).log =
          calls id pool.log ++ ((pool.drained pass).verdict pass id).toList ∧
        Passed ((pool.drained pass).attempted pass id) (pool.runPass pass) id
          ((pool.drained pass).verdict pass id) := by
  cases (drained_event sound pass id).2 with
  | same same =>
      have held' := (same.open_iff e).mpr held
      have passed := runPass_open sound pass held'
      exact .inr ⟨held', by rw [passed.calls, calls_attempted, same.calls], passed⟩
  | connected e' live kind status ended closed readBuf log =>
      obtain rfl := live.unique held
      have closed' := not_open_of_gone closed
      have after := runPass_closed sound pass closed'
      refine .inl ⟨kind, fun e open' => closed' e ((after.open_iff e).mp open'), status, ended, ?_⟩
      rw [Delivers, after.calls, calls_of_about log]

/-- An event that is open after a pass got no status in it. -/
theorem open_of_runPass (sound : pool.Sound) (pass : Pass) (held : (pool.runPass pass).Open id e) :
    ∃ e', pool.Open id e' ∧ (pool.drained pass).Open id e' ∧
      e = { e' with buf := e.buf, wbuf := e.wbuf } ∧
      (pool.drained pass).verdict pass id = none ∧
      ((pool.drained pass).tryIo pass id).2.Open id e := by
  have opened : ∃ e', (pool.drained pass).Open id e' := by
    by_contra closed
    rw [not_exists] at closed
    exact closed e (((runPass_closed sound pass closed).open_iff e).mp held)
  obtain ⟨e', held'⟩ := opened
  have passed := runPass_open sound pass held'
  cases status : (pool.drained pass).verdict pass id with
  | some status' =>
      rw [status] at passed
      cases passed with
      | delivered _ _ _ closed => exact absurd (closed.symm.trans held.1) nofun
  | none =>
      rw [status] at passed
      cases passed with
      | kept same =>
          have attempted := (same.open_iff e).mp held
          rw [verdict] at status
          rw [Pool.attempted] at attempted
          cases due : (pool.drained pass).due pass.now id with
          | some pair => rw [due] at status; cases status
          | none =>
              rw [due] at attempted
              obtain ⟨e₁, held₁, fields⟩ := tryIo_open held' pass
              obtain rfl := held₁.unique attempted
              have before := ((drained_event sound pass id).2.open_of_open held').1
              exact ⟨e', before, held', fields, rfl, attempted⟩

end Pool

end Wnr.Nsock
