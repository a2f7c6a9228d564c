import Wnr.Nsock.ReadLedger

/-! # Nothing that a stream delivers is lost

The bytes of a finished read event stay where `take_read_buf` finds them until they are
taken for the first time (`Pool.Keeping`). What it returns first for each of the read events of
a descriptor, in the order of their requests, is what came in through it
(`Pool.reads_accounted`).
-/

namespace Wnr.Nsock

/-- The operation takes the buffer of an event. -/
def Op.takes (id : EventId) : Op → Bool
  | .takeReadBuf event => event = id
  | _ => false

namespace Pool

variable {pool after : Pool} {op : Op} {ops : List Op} {id iodId : Nat}

/-- The event was requested and is not undelivered any more. -/
def Finished (pool : Pool) (id : EventId) : Prop :=
  pool.Created id ∧ pool.isUndelivered id = false

instance (pool : Pool) (id : EventId) : Decidable (pool.Finished id) :=
  inferInstanceAs (Decidable (_ ∧ _))

/-- The buffer that is returned first for an event once it has finished; where none is
asked for, the one that would be returned in the end. -/
def firstBuffer (id : EventId) : List Op → Pool → List UInt8
  | [], pool => (pool.takeReadBuf id).1
  | op :: rest, pool =>
      if op.takes id = true ∧ pool.Finished id then (pool.takeReadBuf id).1
      else
        match perform op pool with
        | (.running, pool) => (pool.takeReadBuf id).1
        | (_, pool) => firstBuffer id rest pool

/-! ## Events that receive nothing -/

theorem Takes.held_of_attempts {action : Action} (taken : Takes op pool action)
    (attempts : action.Attempts id) :
    (∃ e, pool.Open id e) ∧ ∃ e, (pool.act action).pending.lookup id = some e := by
  have live {kind : EventType} (shaped : pool.shape id = some (kind, false)) :
      ∃ e, pool.Open id e := by
    obtain ⟨e, found, same⟩ := Option.map_eq_some_iff.mp shaped
    exact ⟨e, found, (Prod.mk.inj same).2⟩
  have held {kind : EventType} (shaped : pool.shape id = some (kind, false))
      (progress : Progress pool id (pool.act action)) :
      ∃ e, (pool.act action).pending.lookup id = some e := by
    obtain ⟨e, found, -⟩ := live shaped
    cases progress with
    | still same => exact ⟨e, by rw [same, found]⟩
    | moved e buf wbuf effect io held pending => exact ⟨_, by rw [pending, AList.lookup_insert]⟩
  cases taken with
  | tryRead shaped =>
      obtain rfl : _ = id := attempts
      exact ⟨live shaped, held shaped (tryRead_progress pool _ _)⟩
  | tryWrite shaped =>
      obtain rfl : _ = id := attempts
      exact ⟨live shaped, held shaped (tryWrite_progress pool _ _)⟩
  | _ => exact attempts.elim

theorem Takes.chunksOf {action : Action} (sound : pool.Sound) (taken : Takes op pool action)
    (quiet : ¬ action.Attempts id) :
    chunksOf id (pool.act action).log = chunksOf id pool.log := by
  obtain ⟨added, log, emitted⟩ := (taken.change sound).grown
  have nothing : Nsock.chunksOf id added = [] := by
    refine List.filterMap_eq_nil_iff.mpr fun effect member => ?_
    cases emitted effect member with
    | read held io | wrote held io =>
        cases io with
        | received => exact if_neg quiet
        | accepted | sent => rfl
    | _ => rfl
  rw [log, chunksOf_append, nothing, List.append_nil]

/-- What was received by an event that has finished. -/
theorem stable_chunksOf (before : Pool) (op : Op) (pool : Pool) (action : Action)
    (settled : pool.Sound ∧ pool.Created id ∧ (∀ e, ¬ pool.Open id e) ∧
      chunksOf id pool.log = chunksOf id before.log)
    (taken : Takes op pool action) :
    (pool.act action).Sound ∧ (pool.act action).Created id ∧
      (∀ e, ¬ (pool.act action).Open id e) ∧
      chunksOf id (pool.act action).log = chunksOf id before.log := by
  obtain ⟨sound, created, closed, same⟩ := settled
  have change := taken.change sound
  refine ⟨change.sound sound, change.created_of created, ?_, ?_⟩
  · intro e held
    obtain ⟨e', open'⟩ := taken.open_before sound created held
    exact closed e' open'
  · rw [taken.chunksOf sound, same]
    intro attempts
    obtain ⟨⟨e, held⟩, -⟩ := taken.held_of_attempts attempts
    exact closed e held

theorem chunksOf_of_finished (sound : pool.Sound) (finished : pool.Finished id) (ops : List Op) :
    chunksOf id (execute ops pool).log = chunksOf id pool.log := by
  have closed : ∀ e, ¬ pool.Open id e := by
    intro e held
    have live := isUndelivered_iff.mpr ⟨e, held⟩
    rw [finished.2] at live
    cases live
  exact (execute_invariant (stable_chunksOf pool) ops ⟨sound, finished.1, closed, rfl⟩).2.2.2

/-- No descriptor is given to an event later. -/
theorem stable_readEvents (before : Pool) (op : Op) (pool : Pool) (action : Action)
    (same : pool.Sound ∧ pool.Created id ∧
      (id ∈ readEvents iodId pool.log ↔ id ∈ readEvents iodId before.log))
    (taken : Takes op pool action) :
    (pool.act action).Sound ∧ (pool.act action).Created id ∧
      (id ∈ readEvents iodId (pool.act action).log ↔ id ∈ readEvents iodId before.log) := by
  obtain ⟨sound, created, same⟩ := same
  have change := taken.change sound
  exact ⟨change.sound sound, change.created_of created, (change.mem_readEvents created).trans same⟩

theorem execute_mem_readEvents (sound : pool.Sound) (created : pool.Created id) (ops : List Op) :
    id ∈ readEvents iodId (execute ops pool).log ↔ id ∈ readEvents iodId pool.log :=
  (execute_invariant (stable_readEvents pool) ops ⟨sound, created, Iff.rfl⟩).2.2

theorem perform_mem_readEvents (sound : pool.Sound) (created : pool.Created id) (op : Op) :
    id ∈ readEvents iodId (perform op pool).2.log ↔ id ∈ readEvents iodId pool.log :=
  (perform_invariant (stable_readEvents pool) op ⟨sound, created, Iff.rfl⟩).2.2

theorem SameEvent.mem_readEvents (same : SameEvent id pool after) :
    id ∈ readEvents iodId after.log ↔ id ∈ readEvents iodId pool.log := by
  rw [Nsock.mem_readEvents, Nsock.mem_readEvents]
  refine exists_congr fun wbuf => ?_
  have own : (Effect.requested id .read (some iodId) wbuf).event = some id := Eq.refl _
  rw [← mem_about own, same.log, mem_about own]

theorem SameEvent.receivedBy (same : SameEvent id pool after) :
    receivedBy id after.log = receivedBy id pool.log := by
  rw [← receivedBy_about, same.log, receivedBy_about]

/-! ## Buffers that wait to be taken -/

/-- What a read event of the descriptor has received waits to be taken, also after the
event is gone. -/
structure Keeping (iodId id : Nat) (pool : Pool) : Prop extends Ledger iodId pool where
  kept : id ∈ readEvents iodId pool.log → pool.pending.lookup id = none →
    (pool.readBufs.lookup id).getD [] = receivedBy id pool.log

theorem keeping_new (iodId id : Nat) : Keeping iodId id new where
  toLedger := ledger_new iodId
  kept read := nomatch read

theorem Ledger.receivedBy_of_unopened (ledger : Ledger iodId pool)
    (missing : pool.iods.lookup iodId = none) (read : id ∈ readEvents iodId pool.log) :
    receivedBy id pool.log = [] := by
  have nothing := ledger.intake_eq.trans (ledger.unopened missing)
  exact List.flatMap_eq_nil_iff.mp nothing id read

namespace Keeping

variable (keeping : Keeping iodId id pool)

include keeping

theorem takeReadBuf (read : id ∈ readEvents iodId pool.log) :
    (pool.takeReadBuf id).1 = receivedBy id pool.log := by
  cases held : pool.pending.lookup id with
  | some e =>
      rw [takeReadBuf_of_held keeping.toRetained held]
      rw [keeping.buffered id e held read, flatten_chunksOf]
  | none =>
      rw [← keeping.kept read held, Pool.takeReadBuf, held]
      cases pool.readBufs.lookup id <;> rfl

theorem act {action : Action} (taken : Takes op pool action) (spares : action.Spares iodId pool)
    (untaken : action = .call (.takeReadBuf id) → ¬ pool.Finished id)
    (unkilled : action = .kill id → id ∈ readEvents iodId pool.log →
      receivedBy id pool.log = []) :
    Keeping iodId id (pool.act action) := by
  have change := taken.change keeping.toSound
  refine { keeping.toLedger.act taken spares with kept := fun read gone => ?_ }
  by_cases created : pool.Created id
  · have read' := (change.mem_readEvents created).mp read
    have received : receivedBy id (pool.act action).log = receivedBy id pool.log := by
      rw [← flatten_chunksOf, ← flatten_chunksOf, taken.chunksOf keeping.toSound]
      intro attempts
      obtain ⟨-, e, held⟩ := taken.held_of_attempts attempts
      rw [gone] at held
      cases held
    rw [received]
    cases taken.entry id with
    | kept held readBuf =>
        rw [readBuf]
        exact keeping.kept read' (held.symm.trans gone)
    | created _ _ held | moved _ _ _ _ _ held | cancelled _ _ _ _ _ held =>
        rw [gone] at held
        cases held
    | delivered e live held readBuf =>
        rw [readBuf, if_pos ((keeping.mem_readEvents live.1).mp read').1, Option.getD_some,
          keeping.buffered id e live.1 read', flatten_chunksOf]
    | killed asked held readBuf =>
        rw [readBuf, unkilled asked read']
        rfl
    | taken asked held readBuf =>
        refine absurd ⟨created, ?_⟩ (untaken asked)
        rw [isUndelivered, held.symm.trans gone]
  · obtain ⟨wbuf, member⟩ := mem_readEvents.mp read
    rcases change.mentioned_cases member with old | none | ⟨event, e, about, held, -⟩ |
      ⟨about, -, e, held, -⟩
    · exact absurd (keeping.mentioned _ old id rfl) created
    · cases none
    · obtain rfl := Option.some.inj about
      exact absurd (keeping.created id e held) created
    · obtain rfl := Option.some.inj about
      rw [gone] at held
      cases held

/-- A deletion while the descriptor is missing keeps what is gone. -/
theorem of_absent {op : Op} {condition : Prop} (holds : condition)
    (missing : pool.iods.lookup iodId = none)
    (deletes : ∀ state action, Takes op state action → action.Deletes iodId condition) :
    Keeping iodId id (perform op pool).2 := by
  refine deletion_invariant deletes ?_ (fun _ => missing) keeping
  intro state action keeping missing taken
  have deleting := deletes state action taken
  refine keeping.act taken (deleting.spares missing) ?_
    fun _ read => keeping.receivedBy_of_unopened (missing holds) read
  intro same
  rw [same] at deleting
  exact deleting.elim

theorem of_other (order : List Nat) {key : Nat} (other : key ≠ iodId) :
    Keeping iodId id (perform (.deleteIod order key) pool).2 := by
  have outside : ¬ (Op.deleteIod order key).IsRun := fun run => run
  refine { keeping.toLedger.perform outside fun same => absurd same other with
    kept := fun read gone => ?_ }
  by_cases listed : ∃ e, pool.pending.lookup id = some e ∧ e.iod = some key
  · obtain ⟨e, found, named⟩ := listed
    have created := keeping.created id e found
    have before := (perform_mem_readEvents keeping.toSound created _).mp read
    rw [keeping.mem_readEvents found, named, Option.some.injEq] at before
    exact absurd before.2 other
  · have same : SameEvent id pool (perform (.deleteIod order key) pool).2 :=
      deleteIod_other keeping.toSound order fun e found named => listed ⟨e, found, named⟩
    rw [same.readBuf, same.receivedBy]
    exact keeping.kept (same.mem_readEvents.mp read) (same.held.symm.trans gone)

/-- An operation outside the loop that does not take the buffer keeps it. -/
theorem perform (outside : ¬ op.IsRun) (undisturbed : Undisturbed iodId pool op)
    (untaken : op.takes id = true → ¬ pool.Finished id) :
    Keeping iodId id (Pool.perform op pool).2 := by
  by_cases single : op.IsCall
  · refine keeping.act (Takes.call single) undisturbed (fun taking => untaken ?_) nofun
    obtain rfl := Action.call.inj taking
    exact decide_eq_true rfl
  cases op with
  | run timeout start passes => exact absurd trivial outside
  | arrive attempt outcome => exact keeping.act Takes.arrive trivial nofun nofun
  | deleteIod order key =>
      by_cases here : key = iodId
      · exact keeping.of_absent here (undisturbed here) fun _ _ taken => taken.deletes_deleteIod
      · exact keeping.of_other order here
  | delete iodOrder orders order =>
      exact keeping.of_absent trivial undisturbed fun _ _ taken => taken.deletes_delete
  | _ => exact (single trivial).elim

theorem runPass (pass : Pass) : Keeping iodId id (pool.runPass pass) := by
  refine (runPass_invariant_of (fun state action keeping taken => ?_) pass keeping).2
  refine keeping.act taken ?_ ?_ ?_
  · cases taken with
    | call single => exact single.elim
    | _ => trivial
  · rintro rfl
    cases taken
  · rintro rfl
    cases taken

theorem quit (value : Bool) : Keeping iodId id { pool with quit := value } :=
  keeping.act (Takes.quitRun : Takes (.run 0 0 []) pool (.setQuit value)) trivial nofun nofun

theorem of_op (along : OpThroughout (Undisturbed iodId) (fun _ _ => True) op pool)
    (untaken : op.takes id = true → ¬ pool.Finished id) :
    Keeping iodId id (Pool.perform op pool).2 := by
  by_cases outside : op.IsRun
  · cases op with
    | run timeout start ahead =>
        have passes (limit : Option Nat)
            (along : PassesThroughout (fun _ _ => True) start limit ahead { pool with quit := false }) :
            PassesThroughout (fun _ _ => True) start limit ahead { pool with quit := false } ∧
              Keeping iodId id (runPasses start limit ahead { pool with quit := false }).2 := by
          refine PassesThroughout.invariant ?_ ?_ along (keeping.quit false)
          · exact fun pool value keeping => keeping.quit value
          · exact fun pool pass keeping _ => ⟨trivial, keeping.runPass pass⟩
        exact (passes _ along).2
    | _ => exact outside.elim
  · refine keeping.perform outside ?_ untaken
    cases op with
    | run => exact absurd trivial outside
    | _ => exact along

end Keeping

/-! ## Whole histories -/

/-- What is returned first for a read event is what the event has received in the end. -/
theorem firstBuffer_eq
    (along : Throughout (Undisturbed iodId) (fun _ _ => True) ops pool)
    (keeping : Keeping iodId id pool) (read : id ∈ readEvents iodId (execute ops pool).log) :
    firstBuffer id ops pool = receivedBy id (execute ops pool).log := by
  induction ops generalizing pool with
  | nil => exact keeping.takeReadBuf read
  | cons op rest ih =>
      rw [firstBuffer]
      split
      · rename_i taken
        have before := (execute_mem_readEvents keeping.toSound taken.2.1 _).mp read
        rw [← flatten_chunksOf, chunksOf_of_finished keeping.toSound taken.2, flatten_chunksOf]
        exact keeping.takeReadBuf before
      · rename_i untaken
        have after := keeping.of_op along.1 fun takes finished => untaken ⟨takes, finished⟩
        by_cases running : (perform op pool).1 = .running
        · rw [execute_running running] at read ⊢
          rw [← after.takeReadBuf read]
          split
          · rename_i performed
            rw [performed]
          · rename_i ongoing performed
            rw [performed] at running
            exact absurd running ongoing
        · rw [execute_cons running] at read ⊢
          rw [← ih (along.2 running) after read]
          split
          · rename_i performed
            exact absurd (congrArg Prod.fst performed) running
          · rename_i performed
            rw [performed]

/-- **No byte of a stream is lost, duplicated or reordered.** What the first calls of
`take_read_buf` return for the finished read events of a descriptor, in the order of their
requests, is what the stream's reads returned, and the descriptor has counted it. -/
theorem reads_accounted (iodId : Nat) (ops : List Op)
    (undisturbed : Throughout (Undisturbed iodId) (fun _ _ => True) ops new) :
    let log := (execute ops new).log
    (readEvents iodId log).flatMap (firstBuffer · ops new) = intake iodId log ∧
      ∀ iod, (execute ops new).iods.lookup iodId = some iod →
        iod.readCount = (intake iodId log).length := by
  intro log
  have ledger : Ledger iodId (execute ops new) := (ledger_new iodId).execute undisturbed
  constructor
  · rw [← ledger.intake_eq]
    exact List.flatMap_congr fun id read => firstBuffer_eq undisturbed (keeping_new iodId id) read
  · exact fun iod described => ((counted_new.execute ops).counts iodId iod described).1

/-- A stream of which a pass reads some bytes. -/
def readingPass (bytes : List UInt8) : Pass :=
  { idlePass with reads := fun _ => .ok bytes }

/-- A read of which a part arrives before it is cancelled, and one of the rest. -/
def cancelledRead : List Op :=
  [.createIodTcpFrom ⟨.caller 7, none⟩, .readBytes 1 (-1) 3 0,
    .run 0 0 [readingPass [104, 105]], .cancel 1 true, .takeReadBuf 1, .read 1 (-1) 0,
    .run 0 0 [readingPass [33]]]

theorem cancelledRead_accounted :
    (readEvents 1 (execute cancelledRead new).log).flatMap (firstBuffer · cancelledRead new) =
      [104, 105, 33] := by
  rw [(reads_accounted 1 cancelledRead (by decide)).1]
  decide

end Pool

end Wnr.Nsock
