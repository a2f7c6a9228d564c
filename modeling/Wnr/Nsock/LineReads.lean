import Wnr.Foundation.Lines
import Wnr.Nsock.ReadAccounting
import Wnr.Nsock.ReadConditions

/-! # Lines and how the stream is chunked

A `readlines` event collects whole chunks until there is a line in them
(`Pool.Gathering`). Its buffer is the next line of the stream, and what comes after the line is
left to the next read event, exactly when a chunk ends where the line ends
(`Pool.line_exact_iff`).
-/

namespace Wnr.Nsock

namespace Pool

variable {pool after : Pool} {op : Op} {pass : Pass} {id iodId maxline : Nat} {e : Pending}
  {deadline : Option Instant} {buf : List UInt8}

/-! ## A line in the making -/

/-- There is a line in the buffer: a newline, or as many bytes as it may have. -/
abbrev HasLine (maxline : Nat) (buf : List UInt8) : Prop := Lines.Complete 10 maxline buf

/-- A `readlines` event gathers chunks until there is a line in them. -/
structure Gathering (maxline : Nat) (deadline : Option Instant) (iodId : Nat) (id : EventId)
    (pool : Pool) : Prop
    extends Reading true maxline deadline iodId id pool, Ledger iodId pool where
  balanced : Accounted pool
  complete : calls id pool.log = [.success] → ∃ earlier last,
    chunksOf id pool.log = earlier ++ [last] ∧ ¬ HasLine (max maxline 1) earlier.flatten ∧
      HasLine (max maxline 1) (earlier ++ [last]).flatten

theorem hasLine_iff (target : e.target = max maxline 1) (lineRead : e.lineRead = true) :
    readComplete e = true ↔ HasLine (max maxline 1) e.buf := by
  rw [readComplete_iff target lineRead]
  exact or_congr_right (and_iff_right rfl)

theorem Accounted.calls_of_open (valid : Accounted pool) (held : pool.Open id e) :
    calls id pool.log = [] := by
  rw [calls_eq, valid.outcomes_of_undelivered (isUndelivered_iff.mpr ⟨e, held⟩)]
  rfl

theorem SameEvent.chunksOf (same : SameEvent id pool after) :
    chunksOf id after.log = chunksOf id pool.log := by
  rw [← chunksOf_about, same.log, chunksOf_about]

theorem chunksOf_received (id iodId : Nat) (bytes : List UInt8) :
    chunksOf id [.received id iodId bytes] = [bytes] :=
  List.filterMap_cons_some (if_pos rfl)

theorem EndsWith.chunksOf {moved : List Effect} {status : EventStatus}
    (ends : EndsWith pool after id moved status) :
    chunksOf id after.log = chunksOf id pool.log ++ chunksOf id moved := by
  rw [← chunksOf_about, ends.log, chunksOf_append, chunksOf_append, chunksOf_about]
  exact List.append_nil _

theorem runPass_accounted (valid : Accounted pool) (pass : Pass) : Accounted (pool.runPass pass) :=
  runPass_invariant (fun _ _ _ valid taken => valid.act taken) pass valid

namespace Gathering

variable (gathering : Gathering maxline deadline iodId id pool)

include gathering

theorem quit (value : Bool) :
    Gathering maxline deadline iodId id { pool with quit := value } := by
  have taken : Takes (.run 0 0 []) pool (.setQuit value) := Takes.quitRun
  exact { gathering.toReading.quit value, gathering.toLedger.quit value with
    balanced := gathering.balanced.act taken
    complete := gathering.complete }

theorem perform (outside : ¬ op.IsRun) (undisturbed : Undisturbed iodId pool op) :
    Gathering maxline deadline iodId id (Pool.perform op pool).2 := by
  have ledger := gathering.toLedger.perform outside undisturbed
  refine { gathering.toReading.perform outside, ledger with
    balanced := (perform_accounted gathering.balanced op).1
    complete := fun success => ?_ }
  obtain ⟨ended, calls', fits⟩ := endsOnly gathering.toSound outside id
  obtain ⟨added, log, dry⟩ := perform_dry gathering.toSound outside
  have none' : ended = [] := by
    refine List.eq_nil_iff_forall_not_mem.mpr fun status member => ?_
    have listed : status ∈ [EventStatus.success] := by
      rw [← success, calls']
      exact List.mem_append_right _ member
    rw [List.mem_singleton.mp listed] at member
    rcases fits _ member with other | other <;> cases other
  rw [calls', none', List.append_nil] at success
  rw [log, chunksOf_of_dry dry]
  exact gathering.complete success

/-- A pass that succeeds has just completed a line. -/
theorem complete_of_open (pass : Pass) (held : pool.Open id e)
    (success : calls id (pool.runPass pass).log = [.success]) :
    ∃ earlier last, chunksOf id (pool.runPass pass).log = earlier ++ [last] ∧
      ¬ HasLine (max maxline 1) earlier.flatten ∧
      HasLine (max maxline 1) (earlier ++ [last]).flatten := by
  obtain ⟨kind, named, -, target, lineRead, short⟩ := gathering.request e held
  have sound := gathering.toSound
  have kind' : e.kind ≠ .connect := by
    rw [kind]
    nofun
  have delivers : pool.Delivers pass id .success := by
    rw [Delivers, gathering.balanced.calls_of_open held, success]
    rfl
  have only {moved : List Effect} {status : EventStatus}
      (ends : EndsWith pool (pool.runPass pass) id moved status) (quiet : calls id moved = []) :
      EventStatus.success = status := (ends.delivers_iff quiet).mp delivers
  cases due : dueStatus pass.now e with
  | some status =>
      have ends := (runPass_of_due sound held kind' due).1
      obtain ⟨-, ⟨timer, -⟩ | ⟨-, rfl⟩⟩ := dueStatus_eq_some due
      · rw [kind] at timer
        cases timer
      · cases only ends rfl
  | none =>
      have passed := runPass_read sound held kind named due
      cases arrival : pool.arrivalIn pass iodId id with
      | chunk b =>
          rw [arrival, ReadPassed] at passed
          have listed : id ∈ readEvents iodId pool.log :=
            (gathering.mem_readEvents held.1).mpr ⟨kind, named⟩
          have buffered := gathering.buffered id e held.1 listed
          split at passed
          · rename_i complete
            have met : HasLine (max maxline 1) (e.buf ++ b) :=
              (hasLine_iff (by exact target) (by exact lineRead)).mp complete
            refine ⟨chunksOf id pool.log, b, ?_, ?_, ?_⟩
            · rw [passed.1.chunksOf, chunksOf_received]
            · rw [← buffered, ← hasLine_iff target lineRead, short]
              exact Bool.false_ne_true
            · rw [List.flatten_concat, ← buffered]
              exact met
          · exact absurd delivers (passed.not_delivers rfl)
      | datagram b =>
          rw [arrivalIn] at arrival
          split at arrival
          · rename_i iod described
            have tcp := (gathering.toLedger.pass pass).1.ofStream iod described
            exact absurd arrival (Iod.arrival_of_tcp tcp _ b)
          · cases arrival
      | nothing =>
          rw [arrival] at passed
          exact absurd delivers (GoesOn.not_delivers passed rfl)
      | ended | failed =>
          rw [arrival] at passed
          cases only passed.1 rfl

theorem runPass (pass : Pass) :
    Gathering maxline deadline iodId id (pool.runPass pass) := by
  refine { gathering.toReading.runPass pass, (gathering.toLedger.pass pass).2 with
    balanced := runPass_accounted gathering.balanced pass
    complete := fun success => ?_ }
  by_cases held : ∃ e, pool.Open id e
  · obtain ⟨e, held⟩ := held
    exact gathering.complete_of_open pass held success
  · have same := runPass_same gathering.toSound pass (not_exists.mp held)
    rw [same.calls] at success
    rw [same.chunksOf]
    exact gathering.complete success

theorem execute {ops : List Op}
    (undisturbed : Throughout (Undisturbed iodId) (fun _ _ => True) ops pool) :
    Gathering maxline deadline iodId id (Pool.execute ops pool) := by
  have kept : Throughout (fun _ _ => True) (fun _ _ => True) ops pool ∧
      Gathering maxline deadline iodId id (Pool.execute ops pool) := by
    refine Throughout.invariant ?_ ?_ ?_ undisturbed gathering
    · exact fun pool value gathering => gathering.quit value
    · exact fun pool pass gathering _ => ⟨trivial, gathering.runPass pass⟩
    · exact fun pool op outside gathering undisturbed =>
        ⟨trivial, gathering.perform outside undisturbed⟩
  exact kept.2

end Gathering

theorem gathering_new (ledger : Ledger iodId pool) (balanced : Accounted pool) (timeoutMs : Int)
    (maxline : Nat) (now : Instant)
    (undisturbed : Undisturbed iodId pool (.readlines iodId timeoutMs maxline now)) :
    Gathering maxline (deadlineIn now timeoutMs) iodId (pool.eventCounter + 1)
      (perform (.readlines iodId timeoutMs maxline now) pool).2 := by
  have outside : ¬ (Op.readlines iodId timeoutMs maxline now).IsRun := fun run => run
  have reading := reading_new ledger.toRetained true iodId timeoutMs maxline now
  refine { reading, ledger.perform outside undisturbed with
    balanced := (perform_accounted balanced _).1
    complete := fun success => ?_ }
  have held : (perform (.readlines iodId timeoutMs maxline now) pool).2.Open (pool.eventCounter + 1)
      _ := ⟨AList.lookup_insert _, rfl⟩
  rw [(perform_accounted balanced _).1.calls_of_open held] at success
  cases success

/-! ## The lines of a stream -/

/-- The part of a stream that has not come in through a descriptor. -/
def unread (pool : Pool) (iodId : Nat) (stream : List UInt8) : List UInt8 :=
  stream.drop (intake iodId pool.log).length

/-- The line that comes next. -/
def nextLine (pool : Pool) (iodId maxline : Nat) (stream : List UInt8) : List UInt8 :=
  Lines.line 10 maxline (pool.unread iodId stream)

/-- The buffer of the event is the next line, and the bytes after the line are what is
unread when the next read event is requested. -/
structure GetsLine (iodId : Nat) (id : EventId) (maxline : Nat) (stream : List UInt8)
    (before after : Pool) (buffer : List UInt8) : Prop where
  whole : buffer = before.nextLine iodId maxline stream
  rest : (readEvents iodId after.log).getLast? = some id →
    after.unread iodId stream =
      (before.unread iodId stream).drop (before.nextLine iodId maxline stream).length

/-- A chunk that was received ends where the next line ends. -/
def BreaksAfterLine (iodId maxline : Nat) (stream : List UInt8) (before after : Pool) : Prop :=
  Lines.EndsAt (chunks iodId after.log)
    ((intake iodId before.log).length + (before.nextLine iodId maxline stream).length)

/-- The chunks of an event follow those that came in before its request. -/
theorem chunks_split {timeoutMs : Int} {now : Instant} {later : List Op}
    (ledger : Ledger iodId pool) (balanced : Accounted pool)
    (undisturbed : Throughout (Undisturbed iodId) (fun _ _ => True)
      (.readlines iodId timeoutMs maxline now :: later) pool) :
    let id := pool.eventCounter + 1
    let log := (execute later (perform (.readlines iodId timeoutMs maxline now) pool).2).log
    ∃ rest, chunks iodId log = chunks iodId pool.log ++ chunksOf id log ++ rest ∧
      ((readEvents iodId log).getLast? = some id → rest = []) := by
  intro id log
  have ongoing : (perform (.readlines iodId timeoutMs maxline now) pool).1 ≠ .running := nofun
  have same : execute (.readlines iodId timeoutMs maxline now :: later) pool =
      execute later (perform (.readlines iodId timeoutMs maxline now) pool).2 :=
    execute_cons ongoing later
  have final : Ledger iodId
      (execute later (perform (.readlines iodId timeoutMs maxline now) pool).2) := by
    rw [← same]
    exact ledger.execute undisturbed
  have reading : pool.isReading iodId = false := undisturbed.1 rfl
  have finished (key : EventId) (listed : key ∈ readEvents iodId pool.log) :
      chunksOf key log = chunksOf key pool.log := by
    refine (congrArg (fun pool => chunksOf key pool.log) same.symm).trans
      (chunksOf_of_finished ledger.toSound ⟨ledger.created_of_read listed, ?_⟩ _)
    refine not_isUndelivered fun e held => ?_
    exact not_isReading reading held ((ledger.mem_readEvents held.1).mp listed)
  obtain ⟨added, grown⟩ := (execute_accounted (perform_accounted balanced
    (.readlines iodId timeoutMs maxline now)).1 later).2
  have events : readEvents iodId log =
      readEvents iodId pool.log ++ [id] ++ readEvents iodId added := by
    have requested : readEvents iodId [.requested id .read (some iodId) none] = [id] :=
      List.filterMap_cons_some (if_pos rfl)
    have begun : (perform (.readlines iodId timeoutMs maxline now) pool).2.log =
        pool.log ++ [.requested id .read (some iodId) none] := rfl
    change readEvents iodId (execute later _).log = _
    rw [← grown, begun, readEvents_append, readEvents_append, requested]
  refine ⟨(readEvents iodId added).flatMap (chunksOf · log), ?_, fun ends => ?_⟩
  · rw [← ledger.accounted, ← List.flatMap_congr finished, ← final.accounted]
    change (readEvents iodId log).flatMap (chunksOf · log) = _
    rw [events, List.flatMap_append, List.flatMap_append, List.flatMap_singleton]
  · rcases List.eq_nil_or_concat (readEvents iodId added) with nothing | ⟨front, last, more⟩
    · rw [nothing]
      rfl
    · have distinct : (readEvents iodId log).Nodup := final.distinct
      rw [events, more, List.concat_eq_append, ← List.append_assoc, List.getLast?_concat] at ends
      obtain rfl := Option.some.inj ends
      rw [events, more, List.concat_eq_append, List.append_assoc, List.nodup_append] at distinct
      have apart := (List.nodup_cons.mp distinct.2.1).1
      exact absurd (List.mem_append_right front List.mem_cons_self) apart

/-- **A `readlines` event gets its line exactly when a chunk ends there.** -/
theorem line_exact_iff (earlier later : List Op) (iodId : Nat) (timeoutMs : Int) (maxline : Nat)
    (now : Instant) (stream : List UInt8) (pos : 1 ≤ maxline)
    (undisturbed : Throughout (Undisturbed iodId) (fun _ _ => True) earlier new)
    (further : Throughout (Undisturbed iodId) (fun _ _ => True)
      (.readlines iodId timeoutMs maxline now :: later) (execute earlier new)) :
    let before := execute earlier new
    let id := before.eventCounter + 1
    let start := (perform (.readlines iodId timeoutMs maxline now) before).2
    let after := execute later start
    calls id after.log = [.success] → intake iodId after.log <+: stream →
      (GetsLine iodId id maxline stream before after (firstBuffer id later start) ↔
        BreaksAfterLine iodId maxline stream before after) := by
  intro before id start after success read
  have ledger : Ledger iodId before := (ledger_new iodId).execute undisturbed
  have balanced : Accounted before := (execute_accounted accounted_new earlier).1
  have ongoing : (perform (.readlines iodId timeoutMs maxline now) before).1 ≠ .running := nofun
  have fresh : id ∉ readEvents iodId before.log := fun listed =>
    not_created_succ before (ledger.created_of_read listed)
  have keeping : Keeping iodId id start :=
    Keeping.perform { ledger with kept := fun listed => absurd listed fresh } (fun run => run)
      further.1 nofun
  obtain ⟨rest, split, last⟩ := chunks_split ledger balanced further
  have gathering := gathering_new ledger balanced timeoutMs maxline now further.1
  obtain ⟨front, chunk, received, short, complete⟩ :=
    (gathering.execute (further.2 ongoing)).complete success
  rw [Nat.max_eq_left pos] at short complete
  -- The buffer is what the event received, and the stream goes on behind it.
  have listed : id ∈ readEvents iodId after.log := by
    refine (execute_mem_readEvents keeping.toSound gathering.known later).mpr ?_
    exact mem_readEvents.mpr ⟨none, List.mem_append_right _ List.mem_cons_self⟩
  have buffer : firstBuffer id later start = (front ++ [chunk]).flatten := by
    rw [firstBuffer_eq (further.2 ongoing) keeping listed, ← flatten_chunksOf, received]
  have intakes : intake iodId after.log =
      intake iodId before.log ++ (front ++ [chunk]).flatten ++ rest.flatten := by
    rw [← flatten_chunks, ← flatten_chunks, ← received, ← List.flatten_append,
      ← List.flatten_append]
    exact congrArg List.flatten split
  obtain ⟨tail, rfl⟩ := read
  have ahead : before.unread iodId (intake iodId after.log ++ tail) =
      (front ++ [chunk]).flatten ++ (rest.flatten ++ tail) := by
    rw [unread, intakes, List.append_assoc, List.append_assoc, List.drop_left]
  have line : before.nextLine iodId maxline (intake iodId after.log ++ tail) =
      Lines.line 10 maxline (front ++ [chunk]).flatten := by
    rw [nextLine, ahead, Lines.line_append complete]
  have fits : (before.nextLine iodId maxline (intake iodId after.log ++ tail)).length ≤
      (front ++ [chunk]).flatten.length := by
    rw [line]
    exact (Lines.line_front _).length_le
  have some' : 0 < (before.nextLine iodId maxline (intake iodId after.log ++ tail)).length := by
    rw [line]
    rcases Lines.complete_line complete with enough | newline
    · exact pos.trans enough
    · exact List.length_pos_of_mem newline
  have whole : (front ++ [chunk]).flatten =
      before.nextLine iodId maxline (intake iodId after.log ++ tail) ↔
        BreaksAfterLine iodId maxline (intake iodId after.log ++ tail) before after := by
    have breaks : Lines.EndsAt (chunks iodId before.log ++ (front ++ [chunk]) ++ rest)
        ((chunks iodId before.log).flatten.length + _) ↔ Lines.EndsAt (front ++ [chunk]) _ :=
      Lines.endsAt_append some' fits
    rw [flatten_chunks, ← received, ← split] at breaks
    rw [BreaksAfterLine, breaks, received]
    exact Lines.flatten_eq_line_iff short complete ⟨_, ahead.symm⟩
  rw [← whole]
  constructor
  · exact fun gets => buffer.symm.trans gets.whole
  · intro same
    refine ⟨buffer.trans same, fun ends => ?_⟩
    rw [← same, ahead, List.drop_left, unread, List.drop_left, last ends]
    rfl

/-- A descriptor with a stream. -/
def streaming : List Op := [.createIodTcpFrom ⟨.caller 7, none⟩]

/-- The end of a line comes in a chunk of its own. -/
def twoChunks : List Op := [.run (-1) 0 [readingPass [97], readingPass [10]]]

theorem twoChunks_line :
    let before := execute streaming new
    let start := (perform (.readlines 1 (-1) 256 0) before).2
    GetsLine 1 1 256 [97, 10, 98, 10] before (execute twoChunks start)
      (firstBuffer 1 twoChunks start) := by
  intro before start
  refine (line_exact_iff streaming twoChunks 1 (-1) 256 0 [97, 10, 98, 10] ?_ ?_ ?_ ?_ ?_).mpr ?_
  · decide
  · decide
  · decide
  · decide
  · decide
  · exact ⟨[[97], [10]], by decide, by decide⟩

/-- Two lines come in one chunk. -/
def oneChunk : List Op := [.run (-1) 0 [readingPass [97, 10, 98, 10]]]

/-- The second line goes to the first event. -/
theorem second_line_taken :
    let before := execute streaming new
    let start := (perform (.readlines 1 (-1) 256 0) before).2
    calls 1 (execute oneChunk start).log = [.success] ∧
      intake 1 (execute oneChunk start).log = [97, 10, 98, 10] ∧
      firstBuffer 1 oneChunk start = [97, 10, 98, 10] ∧
      ¬ GetsLine 1 1 256 [97, 10, 98, 10] before (execute oneChunk start)
        (firstBuffer 1 oneChunk start) := by
  intro before start
  refine ⟨by decide, by decide, by decide, fun gets => ?_⟩
  have whole := gets.whole
  revert whole
  decide

end Pool

end Wnr.Nsock
