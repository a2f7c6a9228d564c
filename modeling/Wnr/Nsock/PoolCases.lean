import Wnr.Nsock.Pool

/-! # What each function of the pool can do

One lemma a function, with every case of the source and its conditions. Later
proofs take these cases and do not open the functions again.
-/

namespace Wnr.Nsock

open Net

namespace Pool

variable (self : Pool)

/-! ## Notes, calls and single entries -/

@[simp] theorem note_pending (effect : Effect) : (self.note effect).pending = self.pending := rfl

@[simp] theorem note_iods (effect : Effect) : (self.note effect).iods = self.iods := rfl

@[simp] theorem note_eventCounter (effect : Effect) :
    (self.note effect).eventCounter = self.eventCounter := rfl

@[simp] theorem note_log (effect : Effect) : (self.note effect).log = self.log ++ [effect] := rfl

@[simp] theorem call_pending (handler : Handler) (id : EventId) (status : EventStatus) :
    (self.call handler id status).pending = self.pending := by
  cases handler <;> rfl

@[simp] theorem call_iods (handler : Handler) (id : EventId) (status : EventStatus) :
    (self.call handler id status).iods = self.iods := by
  cases handler <;> rfl

@[simp] theorem call_eventCounter (handler : Handler) (id : EventId) (status : EventStatus) :
    (self.call handler id status).eventCounter = self.eventCounter := by
  cases handler <;> rfl

/-- What a call adds to the log. -/
def callEffects (handler : Handler) (id : EventId) (status : EventStatus) : List Effect :=
  match handler with
  | .caller owner => [.called owner id status]
  | .noop => []

@[simp] theorem call_log (handler : Handler) (id : EventId) (status : EventStatus) :
    (self.call handler id status).log = self.log ++ callEffects handler id status := by
  cases handler with
  | caller owner => rfl
  | noop => exact (List.append_nil _).symm

@[simp] theorem put_iods (id : EventId) (e : Pending) : (self.put id e).iods = self.iods := rfl

@[simp] theorem put_eventCounter (id : EventId) (e : Pending) :
    (self.put id e).eventCounter = self.eventCounter := rfl

@[simp] theorem put_log (id : EventId) (e : Pending) : (self.put id e).log = self.log := rfl

@[simp] theorem drop_iods (id : EventId) : (self.drop id).iods = self.iods := rfl

@[simp] theorem drop_eventCounter (id : EventId) :
    (self.drop id).eventCounter = self.eventCounter := rfl

@[simp] theorem drop_log (id : EventId) : (self.drop id).log = self.log := rfl

@[simp] theorem lookup_put (id : EventId) (e : Pending) :
    (self.put id e).pending.lookup id = some e :=
  AList.lookup_insert _

theorem lookup_put_ne {other id : EventId} (ne : other ≠ id) (e : Pending) :
    (self.put id e).pending.lookup other = self.pending.lookup other :=
  AList.lookup_insert_ne ne

@[simp] theorem lookup_drop (id : EventId) : (self.drop id).pending.lookup id = none :=
  AList.lookup_erase _ _

theorem lookup_drop_ne {other id : EventId} (ne : other ≠ id) :
    (self.drop id).pending.lookup other = self.pending.lookup other :=
  AList.lookup_erase_ne ne

/-- An event that is held and not done, with what is held for it. -/
def Open (id : EventId) (e : Pending) : Prop := self.pending.lookup id = some e ∧ e.done = false

variable {self}

theorem isUndelivered_iff {id : EventId} : self.isUndelivered id = true ↔ ∃ e, self.Open id e := by
  rw [isUndelivered]
  cases found : self.pending.lookup id with
  | none => simp [Open, found]
  | some e => simp [Open, found]

theorem not_open_of_gone {id : EventId} (gone : self.pending.lookup id = none) (e : Pending) :
    ¬ self.Open id e := by
  rintro ⟨held, -⟩
  rw [gone] at held
  cases held

theorem Open.unique {id : EventId} {e e' : Pending} (held : self.Open id e)
    (held' : self.Open id e') : e = e' :=
  Option.some.inj (held.1.symm.trans held'.1)

theorem mem_undelivered {order : List Nat} {id : EventId} :
    id ∈ self.undelivered order ↔ ∃ e, self.Open id e := by
  rw [undelivered, List.mem_filter, isUndelivered_iff, Table.mem_walk_iff_lookup]
  exact ⟨And.right, fun ⟨e, held⟩ => ⟨⟨e, held.1⟩, e, held⟩⟩

theorem not_hasPending_iff : self.hasPending = false ↔ ∀ id e, ¬ self.Open id e := by
  rw [hasPending, List.any_eq_false]
  constructor
  · rintro closed id e ⟨found, open'⟩
    exact closed ⟨id, e⟩ (AList.mem_lookup_iff.mp found) (by rw [open']; rfl)
  · rintro closed ⟨id, e⟩ member pending
    exact closed id e ⟨AList.mem_lookup_iff.mpr member, by simpa using pending⟩

/-! ## The cases -/

variable (self)

/-- The parts of a pool that the properties of events speak about. -/
structure SameView (pool after : Pool) : Prop where
  iods : after.iods = pool.iods
  pending : after.pending = pool.pending
  eventCounter : after.eventCounter = pool.eventCounter
  log : after.log = pool.log

theorem SameView.rfl {pool : Pool} : SameView pool pool := ⟨.refl _, .refl _, .refl _, .refl _⟩

theorem arrive_view (attempt : EventId) (outcome : Except Unit (Option SocketAddr)) :
    SameView self (self.arrive attempt outcome) := by
  rw [arrive]
  split
  · exact .rfl
  · exact ⟨rfl, rfl, rfl, rfl⟩

variable {self}

theorem connectTarget_eq_some {order : List Nat} {iodId : Nat} {evid : EventId}
    (found : self.connectTarget order iodId = some evid) :
    ∃ e, self.Open evid e ∧ e.kind = .connect ∧ e.iod = some iodId := by
  have chosen := List.find?_some found
  cases held : self.pending.lookup evid with
  | none => rw [held] at chosen; cases chosen
  | some e =>
      rw [held] at chosen
      simp only [Bool.and_eq_true, decide_eq_true_eq, Bool.not_eq_true'] at chosen
      exact ⟨e, ⟨held, chosen.1.2⟩, chosen.1.1, chosen.2⟩

section Install

variable (self) (result : ConnectResult)

@[simp] theorem install_pending : (self.install result).pending = self.pending := by
  rw [install]; split <;> rfl

@[simp] theorem install_eventCounter :
    (self.install result).eventCounter = self.eventCounter := by
  rw [install]; split <;> rfl

@[simp] theorem install_log : (self.install result).log = self.log := by
  rw [install]; split <;> rfl

end Install

/-- The pool after a result has completed an event. -/
theorem receive_result_of_some {order : List Nat} {result : ConnectResult} {evid : EventId}
    (target : self.connectTarget order result.iod = some evid) :
    ∃ e, self.Open evid e ∧ e.kind = .connect ∧ e.iod = some result.iod ∧
      self.receive order (.connectResult result) =
        let installed := result.stream.filter fun _ => (self.iods.lookup result.iod).isSome
        let after := ((self.install result).note (.result ⟨result,
          self.isUndelivered result.attempt, some evid, installed⟩)).drop evid
        if e.cancelled then after else after.call e.handler evid result.status := by
  obtain ⟨e, held, kind, iod⟩ := connectTarget_eq_some target
  refine ⟨e, held, kind, iod, ?_⟩
  simp only [receive, target, finishConnect, note_pending, install_pending, held.1]

theorem receive_result_of_none {order : List Nat} {result : ConnectResult}
    (target : self.connectTarget order result.iod = none) :
    self.receive order (.connectResult result) =
      self.note (.result ⟨result, self.isUndelivered result.attempt, none, none⟩) := by
  simp only [receive, target]

/-- The statuses that come out of socket calls. -/
def IoStatus (status : Option EventStatus) : Prop :=
  ∀ s, status = some s → s = .success ∨ s = .error ∨ s = .eof

theorem IoStatus.none : IoStatus none := fun _ found => nomatch found

theorem IoStatus.success : IoStatus (some .success) :=
  fun _ found => .inl (Option.some.inj found).symm

theorem IoStatus.error : IoStatus (some .error) :=
  fun _ found => .inr (.inl (Option.some.inj found).symm)

theorem IoStatus.eof : IoStatus (some .eof) :=
  fun _ found => .inr (.inr (Option.some.inj found).symm)

theorem IoStatus.ite (p : Prop) [Decidable p] :
    IoStatus (if p then some .success else Option.none) := by
  split
  · exact .success
  · exact .none

/-- A read either leaves the pool alone or adds received bytes to the event. -/
theorem tryRead_cases (self : Pool) (id : EventId) (outcome : SocketResult (List UInt8)) :
    ∃ status, IoStatus status ∧
      (self.tryRead id outcome = (status, self) ∨
        ∃ e iodId iod buf, ∃ b : List UInt8, self.pending.lookup id = some e ∧
          e.iod = some iodId ∧ self.iods.lookup iodId = some iod ∧
          self.tryRead id outcome = (status,
            ({ self with
                iods := self.iods.insert iodId { iod with readCount := iod.readCount + b.length }
              }.put id { e with buf }).note (.received id iodId b))) := by
  rw [tryRead]
  split
  · exact ⟨_, .none, .inl rfl⟩
  rename_i e held
  split
  · exact ⟨_, .none, .inl rfl⟩
  rename_i iodId named
  split
  · exact ⟨_, .none, .inl rfl⟩
  rename_i iod described
  split
  · split
    · exact ⟨_, .none, .inl rfl⟩
    split
    · rename_i offered
      by_cases ended : offered.take 4096 = []
      · exact ⟨_, .eof, .inl (by simp only [ended, ↓reduceIte])⟩
      · refine ⟨_, .ite (readComplete { e with buf := e.buf ++ offered.take 4096 }), .inr
          ⟨e, iodId, iod, e.buf ++ offered.take 4096, offered.take 4096, held, named, described, ?_⟩⟩
        simp only [ended, ↓reduceIte]
    · exact ⟨_, .none, .inl rfl⟩
    · exact ⟨_, .error, .inl rfl⟩
  · split
    · exact ⟨_, .none, .inl rfl⟩
    split
    · exact ⟨_, .success, .inr ⟨e, iodId, iod, _, _, held, named, described, rfl⟩⟩
    · exact ⟨_, .none, .inl rfl⟩
    · exact ⟨_, .error, .inl rfl⟩

/-- A write leaves the pool alone, or the event's stream accepts the front of what is
left to send, or its datagram goes to the socket's peer. -/
theorem tryWrite_cases (self : Pool) (id : EventId) (outcome : SocketResult Nat) :
    ∃ status, IoStatus status ∧
      (self.tryWrite id outcome = (status, self) ∨
        ∃ e iodId iod data, self.pending.lookup id = some e ∧ e.iod = some iodId ∧
          self.iods.lookup iodId = some iod ∧ e.wbuf = some data ∧
          ((∃ n, 0 < n ∧ n ≤ data.length ∧
            self.tryWrite id outcome = (status,
              ({ self with
                  iods := self.iods.insert iodId { iod with writeCount := iod.writeCount + n }
                }.put id { e with
                  wbuf := if data.drop n = [] then Option.none else some (data.drop n) }).note
                    (.accepted id iodId (data.take n)))) ∨
            ∃ peer, iod.association = some peer ∧
              self.tryWrite id outcome = (status,
                ({ self with
                    iods := self.iods.insert iodId
                      { iod with writeCount := iod.writeCount + data.length }
                  }.put id { e with wbuf := Option.none }).note (.sent id iodId peer data)))) := by
  rw [tryWrite]
  split
  · exact ⟨_, .none, .inl rfl⟩
  rename_i e held
  split
  · exact ⟨_, .none, .inl rfl⟩
  rename_i iodId named
  split
  · exact ⟨_, .none, .inl rfl⟩
  rename_i iod described
  split
  · exact ⟨_, .none, .inl rfl⟩
  rename_i data left
  split
  · split
    · exact ⟨_, .none, .inl rfl⟩
    split
    · rename_i count
      by_cases nothing : min count data.length = 0
      · exact ⟨_, .eof, .inl (by simp only [nothing, ↓reduceIte])⟩
      · refine ⟨_, .ite (data.drop (min count data.length) = []), .inr
          ⟨e, iodId, iod, data, held, named, described, left, .inl
            ⟨min count data.length, Nat.pos_of_ne_zero nothing, Nat.min_le_right _ _, ?_⟩⟩⟩
        simp only [nothing, ↓reduceIte]
    · exact ⟨_, .none, .inl rfl⟩
    · exact ⟨_, .error, .inl rfl⟩
  · split
    · exact ⟨_, .none, .inl rfl⟩
    rename_i sock opened
    split
    · exact ⟨_, .error, .inl rfl⟩
    · rename_i peer _ associated
      have known : iod.association = some peer := by
        rw [Iod.association, opened]
        exact associated
      exact ⟨_, .success, .inr ⟨e, iodId, iod, data, held, named, described, left, .inr
        ⟨peer, known, rfl⟩⟩⟩
    · exact ⟨_, .none, .inl rfl⟩
    · exact ⟨_, .error, .inl rfl⟩

theorem tryRead_status (self : Pool) (id : EventId) (outcome : SocketResult (List UInt8)) :
    IoStatus (self.tryRead id outcome).1 := by
  obtain ⟨status, io, unchanged | ⟨_, _, _, _, _, -, -, -, read⟩⟩ := tryRead_cases self id outcome
  · rw [unchanged]; exact io
  · rw [read]; exact io

theorem tryWrite_status (self : Pool) (id : EventId) (outcome : SocketResult Nat) :
    IoStatus (self.tryWrite id outcome).1 := by
  obtain ⟨status, io, unchanged | ⟨_, _, _, _, -, -, -, -, ⟨_, -, -, wrote⟩ | ⟨_, -, wrote⟩⟩⟩ :=
    tryWrite_cases self id outcome
  · rw [unchanged]; exact io
  · rw [wrote]; exact io
  · rw [wrote]; exact io

/-- What one socket call can do to the buffers of an event, and what is seen of it. -/
inductive IoChange (pool : Pool) (id : EventId) (e : Pending) :
    List UInt8 → Option (List UInt8) → Effect → Prop
  | received (iodId : Nat) (buf b : List UInt8) (named : e.iod = some iodId) :
      IoChange pool id e buf e.wbuf (.received id iodId b)
  | accepted (iodId : Nat) (data : List UInt8) (n : Nat) (named : e.iod = some iodId)
      (left : e.wbuf = some data) (pos : 0 < n) (fits : n ≤ data.length) :
      IoChange pool id e e.buf (if data.drop n = [] then Option.none else some (data.drop n))
        (.accepted id iodId (data.take n))
  | sent (iodId : Nat) (iod : Iod) (data : List UInt8) (peer : SocketAddr)
      (named : e.iod = some iodId) (described : pool.iods.lookup iodId = some iod)
      (associated : iod.association = some peer) (left : e.wbuf = some data) :
      IoChange pool id e e.buf Option.none (.sent id iodId peer data)

/-- What socket I/O does to events: it changes the buffers of one that is held. -/
inductive Progress (pool : Pool) (id : EventId) (after : Pool) : Prop
  | still (same : after = pool)
  | moved (e : Pending) (buf : List UInt8) (wbuf : Option (List UInt8)) (effect : Effect)
      (io : IoChange pool id e buf wbuf effect) (held : pool.pending.lookup id = some e)
      (pending : after.pending = pool.pending.insert id { e with buf, wbuf })
      (eventCounter : after.eventCounter = pool.eventCounter)
      (log : after.log = pool.log ++ [effect])

theorem tryRead_progress (self : Pool) (id : EventId) (outcome : SocketResult (List UInt8)) :
    Progress self id (self.tryRead id outcome).2 := by
  obtain ⟨status, -, unchanged | ⟨e, iodId, iod, buf, b, held, named, -, read⟩⟩ :=
    tryRead_cases self id outcome
  · exact .still (congrArg Prod.snd unchanged)
  · rw [read]
    exact .moved e _ _ _ (.received iodId buf b named) held rfl rfl rfl

theorem tryWrite_progress (self : Pool) (id : EventId) (outcome : SocketResult Nat) :
    Progress self id (self.tryWrite id outcome).2 := by
  obtain ⟨status, -, unchanged | ⟨e, iodId, iod, data, held, named, described, left, wrote⟩⟩ :=
    tryWrite_cases self id outcome
  · exact .still (congrArg Prod.snd unchanged)
  · rcases wrote with ⟨n, pos, fits, accepted⟩ | ⟨peer, associated, sent⟩
    · rw [accepted]
      exact .moved e _ _ _ (.accepted iodId data n named left pos fits) held rfl rfl rfl
    · rw [sent]
      exact .moved e _ _ _ (.sent iodId iod data peer named described associated left) held rfl rfl
        rfl

/-- A delivery leaves the pool alone or ends an open event with one call. -/
theorem deliver_cases (self : Pool) (id : EventId) (status : EventStatus) :
    SameView self (self.deliver id status) ∨
      ∃ e, self.Open id e ∧ e.cancelled = false ∧
        SameView ((self.drop id).call e.handler id status) (self.deliver id status) := by
  rw [deliver]
  split
  · rename_i missing
    refine .inl ⟨rfl, ?_, rfl, rfl⟩
    exact AList.ext (List.kerase_of_notMem_keys (AList.lookup_eq_none.mp missing))
  · rename_i e held
    split
    · exact .inl .rfl
    · rename_i still
      rw [Bool.or_eq_true, not_or, Bool.not_eq_true, Bool.not_eq_true] at still
      refine .inr ⟨e, ⟨held, still.1⟩, still.2, ?_⟩
      split
      · cases e.handler <;> exact ⟨rfl, rfl, rfl, rfl⟩
      · exact .rfl

/-- Cancelling finds nothing, or finds a finished event, or ends an open one with a
call or silently. -/
theorem cancel_cases (self : Pool) (id : EventId) (notify : Bool) :
    self.cancel id notify = (false, self) ∧ self.pending.lookup id = none ∨
      ∃ e after, self.pending.lookup id = some e ∧ after.done = true ∧
        (self.cancel id notify = (true, self.put id after) ∧ e.done = true ∨
          e.done = false ∧
            (self.cancel id notify = (true, (self.put id after).call e.handler id .cancelled) ∧
                notify = true ∨
              self.cancel id notify = (true, (self.put id after).note (.silenced id)) ∧
                notify = false)) := by
  rw [cancel]
  split
  · rename_i missing
    exact .inl ⟨rfl, missing⟩
  · rename_i e held
    right
    cases notify with
    | true =>
        refine ⟨e, { e with cancelled := true, done := true, handler := .noop }, held, rfl, ?_⟩
        cases ended : e.done with
        | true => exact .inl ⟨rfl, rfl⟩
        | false => exact .inr ⟨rfl, .inl ⟨rfl, rfl⟩⟩
    | false =>
        refine ⟨e, { e with cancelled := true, done := true }, held, rfl, ?_⟩
        cases ended : e.done with
        | true => exact .inl ⟨rfl, rfl⟩
        | false => exact .inr ⟨rfl, .inr ⟨rfl, rfl⟩⟩

/-- Killing drops the event, with a call when it is open and not cancelled. -/
theorem killEvent_cases (self : Pool) (id : EventId) :
    SameView (self.drop id) (self.killEvent id) ∧
        (∀ e, self.Open id e → e.cancelled = true) ∨
      ∃ e, self.Open id e ∧ SameView ((self.drop id).call e.handler id .kill) (self.killEvent id)
      := by
  rw [killEvent]
  split
  · rename_i missing
    exact .inl ⟨⟨rfl, rfl, rfl, rfl⟩, fun e held => absurd held (not_open_of_gone missing e)⟩
  · rename_i e held
    split
    · rename_i live
      rw [Bool.and_eq_true, Bool.not_eq_true', Bool.not_eq_true'] at live
      refine .inr ⟨e, ⟨held, live.1⟩, ?_⟩
      have erased (e' : Pending) : (self.pending.insert id e').erase id = self.pending.erase id := by
        apply AList.ext
        change List.kerase id (List.kinsert id e' self.pending.entries) = _
        exact List.kerase_cons_eq rfl
      cases e.handler <;> exact ⟨rfl, erased _, rfl, rfl⟩
    · rename_i finished
      refine .inl ⟨⟨rfl, rfl, rfl, rfl⟩, ?_⟩
      rintro e' ⟨held', live⟩
      obtain rfl := Option.some.inj (held.symm.trans held')
      simpa [live] using finished

/-! ## What the ends of events leave alone -/

theorem iods_deliver (pool : Pool) (id : EventId) (status : EventStatus) :
    (pool.deliver id status).iods = pool.iods := by
  rcases deliver_cases pool id status with same | ⟨e, -, -, same⟩
  · exact same.iods
  · exact same.iods.trans (call_iods ..)

theorem iods_killEvent (pool : Pool) (id : EventId) : (pool.killEvent id).iods = pool.iods := by
  rcases killEvent_cases pool id with ⟨same, -⟩ | ⟨e, -, same⟩
  · exact same.iods
  · exact same.iods.trans (call_iods ..)

theorem iods_cancel (pool : Pool) (id : EventId) (notify : Bool) :
    (pool.cancel id notify).2.iods = pool.iods := by
  rcases cancel_cases pool id notify with ⟨missed, -⟩ | ⟨e, ended, -, -, cases⟩
  · rw [missed]
  · rcases cases with ⟨again, -⟩ | ⟨-, ⟨notified, -⟩ | ⟨silently, -⟩⟩
    · rw [again, put_iods]
    · rw [notified, call_iods, put_iods]
    · rw [silently, note_iods, put_iods]

theorem killEvent_pending (pool : Pool) (id : EventId) :
    (pool.killEvent id).pending = pool.pending.erase id := by
  rcases killEvent_cases pool id with ⟨same, -⟩ | ⟨e, -, same⟩
  · exact same.pending
  · exact same.pending.trans (call_pending ..)

end Pool

end Wnr.Nsock
