import Wnr.Nsock.Deadlines
import Wnr.Nsock.EntrySteps

/-! # When a read is complete

A pass attempts an open read event once, unless its deadline has come, and what becomes of
the event depends on what its descriptor has for it (`Pool.runPass_read`). On a stream
the event is delivered with success in the first pass in which its condition holds. A
datagram ends it whatever its length (`Pool.read_exact_iff`).
-/

namespace Wnr.Nsock

namespace Pool

variable {pool after : Pool} {pass : Pass} {id iodId : Nat} {e : Pending} {op : Op}

/-! ## A pass over one event -/

/-- The event ends with a status, after what has moved. -/
structure EndsWith (pool after : Pool) (id : EventId) (moved : List Effect)
    (status : EventStatus) : Prop where
  closed : after.pending.lookup id = none
  log : about id after.log = about id pool.log ++ moved ++ [.called id id status]

/-- The event goes on with a new entry, after what has moved. -/
structure GoesOn (pool after : Pool) (id : EventId) (moved : List Effect) (e : Pending) : Prop where
  held : after.pending.lookup id = some e
  readBuf : after.readBufs.lookup id = pool.readBufs.lookup id
  log : about id after.log = about id pool.log ++ moved

/-- What comes of an event whose entry has become `e`. -/
def Settles (pool after : Pool) (id : EventId) (moved : List Effect) (e : Pending) :
    Option EventStatus → Prop
  | none => GoesOn pool after id moved e
  | some status => EndsWith pool after id moved status ∧
      (e.kind = .read → after.readBufs.lookup id = some e.buf)

theorem drained_same (sound : pool.Sound) (pass : Pass) (held : pool.Open id e)
    (kind : e.kind ≠ .connect) : SameEvent id pool (pool.drained pass) :=
  (drained_event sound pass id).2.same_of_kind held kind

theorem runPass_of_due (sound : pool.Sound) (held : pool.Open id e) (kind : e.kind ≠ .connect)
    {status : EventStatus} (due : dueStatus pass.now e = some status) :
    Settles pool (pool.runPass pass) id [] e (some status) := by
  have same := drained_same sound pass held kind
  have held' := (same.open_iff e).mpr held
  have passed := runPass_open sound pass held'
  have attempted : (pool.drained pass).attempted pass id = pool.drained pass := by
    rw [Pool.attempted, Pool.due, held'.1, Option.bind_some, due, Option.map_some]
  rw [verdict_of_due held' due, attempted] at passed
  cases passed with
  | delivered _ e' live closed readBuf log =>
      obtain rfl := live.unique held'
      refine ⟨⟨closed, by rw [log, same.log, List.append_nil]⟩, fun read => ?_⟩
      rw [readBuf, if_pos read]

theorem runPass_of_attempt (sound : pool.Sound) (held : pool.Open id e) (kind : e.kind ≠ .connect)
    (early : dueStatus pass.now e = none) {status : Option EventStatus} {tried : Pool}
    (attempt : (pool.drained pass).tryIo pass id = (status, tried)) :
    Passed tried (pool.runPass pass) id status := by
  have held' := ((drained_same sound pass held kind).open_iff e).mpr held
  have passed := runPass_open sound pass held'
  have attempted : (pool.drained pass).attempted pass id = tried := by
    rw [Pool.attempted, Pool.due, held'.1, Option.bind_some, early, Option.map_none]
    exact congrArg Prod.snd attempt
  rwa [verdict_of_not_due held' early, attempted, attempt] at passed

/-- An attempt that moves nothing. -/
theorem runPass_of_still (sound : pool.Sound) (held : pool.Open id e) (kind : e.kind ≠ .connect)
    (early : dueStatus pass.now e = none) {status : Option EventStatus}
    (attempt : (pool.drained pass).tryIo pass id = (status, pool.drained pass)) :
    Settles pool (pool.runPass pass) id [] e status := by
  have same := drained_same sound pass held kind
  cases runPass_of_attempt sound held kind early attempt with
  | kept same' =>
      have both := same.trans same'
      exact ⟨both.held.trans held.1, both.readBuf, by rw [both.log, List.append_nil]⟩
  | delivered status e' live closed readBuf log =>
      obtain rfl := live.unique ((same.open_iff e).mpr held)
      refine ⟨⟨closed, by rw [log, same.log, List.append_nil]⟩, fun read => ?_⟩
      rw [readBuf, if_pos read]

/-- An attempt that moves bytes. -/
theorem runPass_of_move (sound : pool.Sound) (held : pool.Open id e) (kind : e.kind ≠ .connect)
    (early : dueStatus pass.now e = none) {status : Option EventStatus} {e' : Pending}
    {iods : Table Iod} {effect : Effect} (about' : effect.event = some id)
    (attempt : (pool.drained pass).tryIo pass id =
      (status, ({ pool.drained pass with iods }.put id e').note effect)) :
    Settles pool (pool.runPass pass) id [effect] e' status := by
  have same := drained_same sound pass held kind
  have log' : about id (({ pool.drained pass with iods }.put id e').note effect).log =
      about id pool.log ++ [effect] := by
    rw [note_log, put_log, about_append, about_of_event about']
    exact congrArg (· ++ [effect]) same.log
  cases runPass_of_attempt sound held kind early attempt with
  | kept same' =>
      refine ⟨same'.held.trans ?_, same'.readBuf.trans same.readBuf, same'.log.trans log'⟩
      rw [note_pending, lookup_put]
  | delivered status e₁ live closed readBuf log =>
      have entry : e₁ = e' := by
        have found := live.1
        rw [note_pending, lookup_put] at found
        exact (Option.some.inj found).symm
      subst entry
      refine ⟨⟨closed, by rw [log, log']⟩, fun read => ?_⟩
      rw [readBuf, if_pos read]

/-! ## A pass over a read event -/

/-- What the descriptor has for a read event, once the commands are handled. -/
def arrivalIn (pool : Pool) (pass : Pass) (iodId : Nat) (id : EventId) : Arrival :=
  match (pool.drained pass).iods.lookup iodId with
  | some iod => iod.arrival (pass.reads id)
  | none => .nothing

/-- What a pass makes of a read event that finds something at its descriptor. -/
def ReadPassed (pool after : Pool) (id iodId : Nat) (e : Pending) : Arrival → Prop
  | .chunk b =>
      if readComplete { e with buf := e.buf ++ b } then
        EndsWith pool after id [.received id iodId b] .success ∧
          after.readBufs.lookup id = some (e.buf ++ b)
      else GoesOn pool after id [.received id iodId b] { e with buf := e.buf ++ b }
  | .datagram b =>
      EndsWith pool after id [.received id iodId b] .success ∧ after.readBufs.lookup id = some b
  | .ended => EndsWith pool after id [] .eof ∧ after.readBufs.lookup id = some e.buf
  | .failed => EndsWith pool after id [] .error ∧ after.readBufs.lookup id = some e.buf
  | .nothing => GoesOn pool after id [] e

theorem runPass_read (sound : pool.Sound) (held : pool.Open id e) (kind : e.kind = .read)
    (named : e.iod = some iodId) (early : dueStatus pass.now e = none) :
    ReadPassed pool (pool.runPass pass) id iodId e (pool.arrivalIn pass iodId id) := by
  have kind' : e.kind ≠ .connect := by
    rw [kind]
    nofun
  have held' := ((drained_same sound pass held kind').open_iff e).mpr held
  have still {status : Option EventStatus}
      (attempt : (pool.drained pass).tryRead id (pass.reads id) = (status, pool.drained pass)) :=
    runPass_of_still sound held kind' early ((tryIo_of_read pass held'.1 kind).trans attempt)
  rw [arrivalIn]
  cases described : (pool.drained pass).iods.lookup iodId with
  | none =>
      refine still (tryRead_of_no_iod held'.1 ?_ _)
      rw [named, Option.bind_some, described]
  | some iod =>
      have attempt := tryRead_eq held'.1 named described (pass.reads id)
      have moves (status : Option EventStatus) (e' : Pending) (b : List UInt8)
          (attempt : (pool.drained pass).tryRead id (pass.reads id) =
            (status, (pool.drained pass).credit id e' iodId iod b)) :=
        runPass_of_move sound held kind' early (show (Effect.received id iodId b).event = _ from rfl)
          ((tryIo_of_read pass held'.1 kind).trans attempt)
      change ReadPassed pool (pool.runPass pass) id iodId e (iod.arrival (pass.reads id))
      cases found : iod.arrival (pass.reads id) with
      | chunk b =>
          rw [found] at attempt
          have moved := moves _ { e with buf := e.buf ++ b } b attempt
          rw [ReadPassed]
          by_cases complete : readComplete { e with buf := e.buf ++ b }
          · rw [if_pos complete] at moved ⊢
            exact ⟨moved.1, moved.2 kind⟩
          · rw [if_neg complete] at moved ⊢
            exact moved
      | datagram b =>
          rw [found] at attempt
          have moved := moves _ { e with buf := b } b attempt
          exact ⟨moved.1, moved.2 kind⟩
      | ended =>
          rw [found] at attempt
          exact ⟨(still attempt).1, (still attempt).2 kind⟩
      | failed =>
          rw [found] at attempt
          exact ⟨(still attempt).1, (still attempt).2 kind⟩
      | nothing =>
          rw [found] at attempt
          exact still attempt

/-! ## The condition of a read -/

/-- The request of `read_bytes`, or of `readlines`. -/
def readOp (lines : Bool) (iodId : Nat) (timeoutMs : Int) (parameter : Nat) (now : Instant) : Op :=
  if lines then .readlines iodId timeoutMs parameter now
  else .readBytes iodId timeoutMs parameter now

/-- There are as many bytes as were asked for, or there is a whole line. -/
def ReadMet (lines : Bool) (parameter : Nat) (buf : List UInt8) : Prop :=
  parameter ≤ buf.length ∨ lines = true ∧ 10 ∈ buf

/-- The pass delivers the event with success exactly when its deadline has not come and
its buffer meets the condition. -/
def DeliversWhenMet (lines : Bool) (parameter : Nat) (deadline : Option Instant) (id : EventId)
    (pool : Pool) (pass : Pass) : Prop :=
  pool.Delivers pass id .success ↔
    (∀ instant, deadline = some instant → pass.now < instant) ∧
      ReadMet lines parameter ((pool.runPass pass).takeReadBuf id).1

/-- The pass finds a datagram for the event only if it meets the condition, and it
finds nothing only if something was asked for. -/
def FindsEnough (lines : Bool) (parameter : Nat) (deadline : Option Instant) (iodId : Nat)
    (id : EventId) (pool : Pool) (pass : Pass) : Prop :=
  (∀ instant, deadline = some instant → pass.now < instant) →
    match pool.arrivalIn pass iodId id with
    | .chunk _ => True
    | .datagram b => ReadMet lines parameter b
    | .ended | .nothing | .failed => 1 ≤ parameter

/-- The request of an event while it is open, which is not complete between passes. -/
structure Reading (lines : Bool) (parameter : Nat) (deadline : Option Instant) (iodId : Nat)
    (id : EventId) (pool : Pool) : Prop extends Retained pool where
  known : pool.Created id
  request : ∀ e, pool.Open id e → e.kind = .read ∧ e.iod = some iodId ∧ e.deadline = deadline ∧
    e.target = max parameter 1 ∧ e.lineRead = lines ∧ readComplete e = false

variable {lines : Bool} {parameter : Nat} {deadline : Option Instant} {buf : List UInt8}

theorem readComplete_iff (target : e.target = max parameter 1) (lineRead : e.lineRead = lines) :
    readComplete e = true ↔ ReadMet lines (max parameter 1) e.buf := by
  unfold readComplete ReadMet
  rw [target, lineRead]
  cases lines with
  | true =>
      simp only [↓reduceIte, Bool.or_eq_true, List.contains_iff_mem, decide_eq_true_eq, true_and]
      exact or_comm
  | false => simp only [Bool.false_eq_true, ↓reduceIte, decide_eq_true_eq, false_and, or_false]

theorem readMet_max (some' : buf ≠ []) :
    ReadMet lines (max parameter 1) buf ↔ ReadMet lines parameter buf := by
  unfold ReadMet
  have pos := List.length_pos_of_ne_nil some'
  refine or_congr_left ?_
  omega

/-- What is not complete meets the condition only if nothing was asked for. -/
theorem readMet_of_not_complete (target : e.target = max parameter 1) (lineRead : e.lineRead = lines)
    (partial' : readComplete e = false) : ReadMet lines parameter e.buf ↔ ¬ 1 ≤ parameter := by
  have short : ¬ ReadMet lines (max parameter 1) e.buf := by
    rw [← readComplete_iff target lineRead, partial']
    exact Bool.false_ne_true
  constructor
  · intro met some'
    rw [Nat.max_eq_left some'] at short
    exact short met
  · intro none
    exact .inl (by omega)

theorem EndsWith.delivers_iff {moved : List Effect} {status other : EventStatus}
    (ends : EndsWith pool (pool.runPass pass) id moved status) (quiet : calls id moved = []) :
    pool.Delivers pass id other ↔ other = status := by
  have grown : calls id (pool.runPass pass).log = calls id pool.log ++ [status] := by
    rw [← calls_about, ends.log, calls_append, calls_append, calls_about, quiet, List.append_nil]
    simp only [calls, List.filterMap_cons, ↓reduceIte, List.filterMap_nil]
  rw [Delivers, grown, List.append_cancel_left_eq, List.cons.injEq, and_iff_left rfl]
  exact eq_comm

theorem GoesOn.not_delivers {moved : List Effect} {status : EventStatus}
    (goes : GoesOn pool (pool.runPass pass) id moved e) (quiet : calls id moved = []) :
    ¬ pool.Delivers pass id status := by
  rw [Delivers, ← calls_about, goes.log, calls_append, calls_about, quiet, List.append_nil]
  intro same
  exact List.cons_ne_nil _ _ (List.append_right_eq_self.mp same.symm)

theorem ne_nil_of_arrivalIn {b : List UInt8} (found : pool.arrivalIn pass iodId id = .chunk b) :
    b ≠ [] := by
  rw [arrivalIn] at found
  split at found
  · exact Iod.ne_nil_of_chunk found
  · cases found

namespace Reading

variable (reading : Reading lines parameter deadline iodId id pool)

include reading

theorem quit (value : Bool) :
    Reading lines parameter deadline iodId id { pool with quit := value } :=
  ⟨reading.toRetained.act (Takes.quitRun : Takes (.run 0 0 []) pool (.setQuit value)),
    reading.known, reading.request⟩

theorem perform (outside : ¬ op.IsRun) :
    Reading lines parameter deadline iodId id (perform op pool).2 where
  toRetained := (reading.toRetained.perform reading.known op).1
  known := (reading.toRetained.perform reading.known op).2
  request e held := reading.request e (open_of_perform outside reading.toSound reading.known held)

/-- What an open event is not, a pass does not leave behind. -/
theorem runPass (pass : Pass) :
    Reading lines parameter deadline iodId id (pool.runPass pass) where
  toRetained := (reading.toRetained.runPass reading.known pass).1
  known := (reading.toRetained.runPass reading.known pass).2
  request e held := by
    obtain ⟨e', before, held', -, given, -⟩ := open_of_runPass reading.toSound pass held
    obtain ⟨kind, named, limit, target, lineRead, short⟩ := reading.request e' before
    have early : dueStatus pass.now e' = none := by
      cases due : dueStatus pass.now e' with
      | none => rfl
      | some status =>
          rw [verdict_of_due held' due] at given
          cases given
    have passed := runPass_read reading.toSound before kind named early
    have ended {moved : List Effect} {status : EventStatus}
        (ends : EndsWith pool (pool.runPass pass) id moved status) : False := by
      cases ends.closed.symm.trans held.1
    cases arrival : pool.arrivalIn pass iodId id with
    | chunk b =>
        rw [arrival, ReadPassed] at passed
        split at passed
        · exact (ended passed.1).elim
        · rename_i short'
          obtain rfl := Option.some.inj (passed.held.symm.trans held.1)
          exact ⟨kind, named, limit, target, lineRead, Bool.eq_false_iff.mpr short'⟩
    | nothing =>
        rw [arrival] at passed
        obtain rfl := Option.some.inj (GoesOn.held passed |>.symm.trans held.1)
        exact ⟨kind, named, limit, target, lineRead, short⟩
    | datagram b | ended | failed =>
        rw [arrival] at passed
        exact (ended passed.1).elim

theorem exact_iff (pass : Pass) (held : pool.Open id e) :
    DeliversWhenMet lines parameter deadline id pool pass ↔
      FindsEnough lines parameter deadline iodId id pool pass := by
  obtain ⟨kind, named, limit, target, lineRead, short⟩ := reading.request e held
  have valid : (pool.runPass pass).Retained := (reading.toRetained.runPass reading.known pass).1
  unfold DeliversWhenMet FindsEnough
  cases due : dueStatus pass.now e with
  | some status =>
      obtain ⟨⟨instant, asked, come⟩, ⟨timer, -⟩ | ⟨-, rfl⟩⟩ := dueStatus_eq_some due
      · rw [kind] at timer
        cases timer
      have late : ¬ ∀ instant, deadline = some instant → pass.now < instant :=
        fun early => Nat.not_lt.mpr come (early instant (limit ▸ asked))
      have ends := (runPass_of_due reading.toSound held (by rw [kind]; nofun) due).1
      refine iff_of_true (iff_of_false ?_ fun met => late met.1) fun early => absurd early late
      rw [ends.delivers_iff rfl]
      nofun
  | none =>
      have early : ∀ instant, deadline = some instant → pass.now < instant :=
        limit ▸ dueStatus_eq_none.mp due
      rw [and_iff_right early, forall_prop_of_true early]
      have passed := runPass_read reading.toSound held kind named due
      cases arrival : pool.arrivalIn pass iodId id with
      | chunk b =>
          rw [arrival, ReadPassed] at passed
          have complete : readComplete { e with buf := e.buf ++ b } = true ↔
              ReadMet lines parameter (e.buf ++ b) := by
            rw [← readMet_max (List.append_ne_nil_of_right_ne_nil _ (ne_nil_of_arrivalIn arrival))]
            exact readComplete_iff target lineRead
          refine iff_of_true ?_ trivial
          split at passed
          · rename_i met
            rw [takeReadBuf_of_retained passed.2]
            exact iff_of_true ((passed.1.delivers_iff rfl).mpr rfl) (complete.mp met)
          · rename_i unmet
            rw [takeReadBuf_of_held valid passed.held]
            exact iff_of_false (passed.not_delivers rfl) (fun met => unmet (complete.mpr met))
      | datagram b =>
          rw [arrival] at passed
          rw [takeReadBuf_of_retained passed.2]
          exact iff_true_left ((passed.1.delivers_iff rfl).mpr rfl)
      | nothing =>
          rw [arrival] at passed
          rw [takeReadBuf_of_held valid (GoesOn.held passed),
            readMet_of_not_complete target lineRead short]
          exact (iff_false_left (GoesOn.not_delivers passed rfl)).trans not_not
      | ended | failed =>
          rw [arrival] at passed
          rw [takeReadBuf_of_retained passed.2, readMet_of_not_complete target lineRead short]
          have other : ¬ pool.Delivers pass id .success := by
            rw [passed.1.delivers_iff rfl]
            nofun
          exact (iff_false_left other).trans not_not

end Reading

theorem reading_new (valid : pool.Retained) (lines : Bool) (iodId : Nat) (timeoutMs : Int)
    (parameter : Nat) (now : Instant) :
    Reading lines parameter (deadlineIn now timeoutMs) iodId (pool.eventCounter + 1)
      (perform (readOp lines iodId timeoutMs parameter now) pool).2 := by
  have scheduled : (perform (readOp lines iodId timeoutMs parameter now) pool).2 =
      (pool.schedule .read (some iodId) (deadlineIn now timeoutMs) none (max parameter 1) lines).2 := by
    cases lines <;> rfl
  refine ⟨perform_invariant (fun _ _ _ valid taken => valid.act taken) _ valid, ?_, ?_⟩
  · rw [scheduled]
    exact ⟨Nat.le_add_left 1 _, Nat.le_refl _⟩
  · intro e held
    rw [scheduled] at held
    obtain rfl := Option.some.inj (held.1.symm.trans (lookup_put _ _ _))
    refine ⟨rfl, rfl, rfl, rfl, rfl, ?_⟩
    unfold readComplete
    have short : ¬ max parameter 1 ≤ ([] : List UInt8).length := by
      rw [List.length_nil]
      omega
    simp only [List.contains_nil, Bool.false_or, decide_eq_false short, ite_self]

/-- **A read is delivered when its condition is met**, in each pass, exactly when a datagram
that the pass finds for it meets the condition and, where nothing was asked for, something
is found. -/
theorem read_exact_iff (earlier later : List Op) (lines : Bool) (iodId : Nat) (timeoutMs : Int)
    (parameter : Nat) (now : Instant) :
    let before := execute earlier new
    let id := before.eventCounter + 1
    let deadline := deadlineIn now timeoutMs
    Throughout (fun _ _ => True)
      (fun pool pass => pool.isUndelivered id = true →
        (DeliversWhenMet lines parameter deadline id pool pass ↔
          FindsEnough lines parameter deadline iodId id pool pass))
      later (perform (readOp lines iodId timeoutMs parameter now) before).2 := by
  intro before id deadline
  have valid : before.Retained := retained_new.execute earlier
  have along : Throughout (fun _ _ => True) (fun _ _ => True) later
      (perform (readOp lines iodId timeoutMs parameter now) before).2 :=
    throughout_of_forall (fun _ _ => trivial) (fun _ _ => trivial) later _
  refine (Throughout.invariant ?_ ?_ ?_ along
    (reading_new valid lines iodId timeoutMs parameter now)).1
  · exact fun pool quit reading => reading.quit quit
  · intro pool pass reading _
    refine ⟨fun undelivered => ?_, reading.runPass pass⟩
    obtain ⟨e, held⟩ := isUndelivered_iff.mp undelivered
    exact reading.exact_iff pass held
  · exact fun pool op outside reading _ => ⟨trivial, reading.perform outside⟩

/-- A pass that finds one byte in a datagram. -/
def datagramPass : Pass := { idlePass with reads := fun _ => .ok [7] }

/-- A descriptor with a datagram socket, and a read of two bytes from it. -/
def readTwo : Pool :=
  execute [.createIodUdpFrom ⟨false, none⟩, .readBytes 1 (-1) 2 0] new

/-- One byte is delivered as two. -/
theorem short_datagram_succeeds :
    readTwo.isUndelivered 1 = true ∧ readTwo.Delivers datagramPass 1 .success ∧
      ((readTwo.runPass datagramPass).takeReadBuf 1).1 = [7] ∧
      ¬ DeliversWhenMet false 2 none 1 readTwo datagramPass := by
  have delivers : readTwo.Delivers datagramPass 1 .success := by
    unfold Delivers
    decide
  have buffer : ((readTwo.runPass datagramPass).takeReadBuf 1).1 = [7] := by decide
  refine ⟨by decide, delivers, buffer, fun promised => ?_⟩
  obtain ⟨-, enough | line⟩ := promised.mp delivers
  · rw [buffer] at enough
    revert enough
    decide
  · exact Bool.false_ne_true line.1

end Pool

end Wnr.Nsock
