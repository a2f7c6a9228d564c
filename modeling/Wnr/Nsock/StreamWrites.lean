import Wnr.Nsock.IodSteps
import Wnr.Nsock.ReadConditions

/-! # Writes to streams

Each pass offers an open write event's stream what is left of its data, and what the stream
takes is taken off (`Pool.runPass_write`). So the bytes accepted are always a front of the
data, and the event ends with success when they are all of it. Data that is empty from the
start is the exception: the stream takes all of it and the event ends as if the stream had
ended (`Pool.write_exact_iff`).
-/

namespace Wnr.Nsock

open Net

namespace Pool

variable {pool after : Pool} {pass : Pass} {id iodId : Nat} {e : Pending} {op : Op}
  {data rest : List UInt8}

/-! ## A pass over a write event -/

/-- What the descriptor does with what a write event offers, once the commands are
handled. -/
def departureIn (pool : Pool) (pass : Pass) (iodId : Nat) (id : EventId) (data : List UInt8) :
    Departure :=
  match (pool.drained pass).iods.lookup iodId with
  | some iod => iod.departure data (pass.writes id)
  | none => .nothing

/-- What a pass makes of a write event that offers `data`. -/
def WritePassed (pool after : Pool) (id iodId : Nat) (e : Pending) (data : List UInt8) :
    Departure → Prop
  | .taken n =>
      if n = 0 then EndsWith pool after id [] .eof
      else if data.drop n = [] then
        EndsWith pool after id [.accepted id iodId (data.take n)] .success
      else GoesOn pool after id [.accepted id iodId (data.take n)]
        { e with wbuf := some (data.drop n) }
  | .sent peer => EndsWith pool after id [.sent id iodId peer data] .success
  | .nothing => GoesOn pool after id [] e
  | .failed => EndsWith pool after id [] .error

theorem runPass_write (sound : pool.Sound) (held : pool.Open id e) (kind : e.kind = .write)
    (named : e.iod = some iodId) (left : e.wbuf = some data)
    (early : dueStatus pass.now e = none) :
    WritePassed pool (pool.runPass pass) id iodId e data (pool.departureIn pass iodId id data) := by
  have kind' : e.kind ≠ .connect := by
    rw [kind]
    nofun
  have held' := ((drained_same sound pass held kind').open_iff e).mpr held
  have still {status : Option EventStatus}
      (attempt : (pool.drained pass).tryWrite id (pass.writes id) = (status, pool.drained pass)) :=
    runPass_of_still sound held kind' early ((tryIo_of_write pass held'.1 kind).trans attempt)
  rw [departureIn]
  cases described : (pool.drained pass).iods.lookup iodId with
  | none =>
      refine still (tryWrite_of_no_iod held'.1 ?_ _)
      rw [named, Option.bind_some, described]
  | some iod =>
      have attempt := tryWrite_eq held'.1 named described left (pass.writes id)
      have moves (status : Option EventStatus) (e' : Pending) (n : Nat) (effect : Effect)
          (own : effect.event = some id)
          (attempt : (pool.drained pass).tryWrite id (pass.writes id) =
            (status, (pool.drained pass).debit id e' iodId iod n effect)) :=
        runPass_of_move sound held kind' early own
          ((tryIo_of_write pass held'.1 kind).trans attempt)
      change WritePassed pool (pool.runPass pass) id iodId e data
        (iod.departure data (pass.writes id))
      cases found : iod.departure data (pass.writes id) with
      | taken n =>
          rw [found] at attempt
          rw [WritePassed]
          by_cases nothing : n = 0
          · simp only [nothing, ↓reduceIte] at attempt ⊢
            exact (still attempt).1
          · simp only [nothing, ↓reduceIte] at attempt ⊢
            by_cases all : data.drop n = []
            · simp only [all, ↓reduceIte] at attempt ⊢
              exact (moves _ { e with wbuf := none } n _ rfl attempt).1
            · simp only [all, ↓reduceIte] at attempt ⊢
              exact moves _ { e with wbuf := some (data.drop n) } n _ rfl attempt
      | sent peer =>
          rw [found] at attempt
          exact (moves _ { e with wbuf := none } data.length _ rfl attempt).1
      | failed =>
          rw [found] at attempt
          exact (still attempt).1
      | nothing =>
          rw [found] at attempt
          exact still attempt

/-! ## What is promised -/

/-- How many bytes the stream takes of what the event offers in a pass, where it is
offered any. -/
def takenIn (pool : Pool) (pass : Pass) (iodId : Nat) (id : EventId) (e : Pending)
    (rest : List UInt8) : Option Nat :=
  match dueStatus pass.now e, pool.departureIn pass iodId id rest with
  | none, .taken n => some n
  | _, _ => none

/-- A pass offers the event's stream the rest of the data; the event ends with success
exactly when the stream has taken all of it, and never as if the stream had ended. -/
def WritesExactly (data : List UInt8) (iodId : Nat) (id : EventId) (pool : Pool) (pass : Pass) :
    Prop :=
  ∀ e, pool.Open id e → ∃ rest, e.wbuf = some rest ∧ acceptedBy id pool.log ++ rest = data ∧
    acceptedBy id (pool.runPass pass).log =
      acceptedBy id pool.log ++ rest.take ((pool.takenIn pass iodId id e rest).getD 0) ∧
    (pool.Delivers pass id .success ↔ (pool.takenIn pass iodId id e rest).isSome = true ∧
      acceptedBy id (pool.runPass pass).log = data) ∧
    ¬ pool.Delivers pass id .eof

/-- The descriptor, if there is one, wraps a stream in a pass. -/
def OnStream (iodId : Nat) (pool : Pool) (pass : Pass) : Prop :=
  ∀ iod, (pool.drained pass).iods.lookup iodId = some iod → iod.kind = .tcp

/-- A stream that takes bytes takes at least one, where it is offered any. -/
def Healthy (id : EventId) (pass : Pass) : Prop := ∀ count, pass.writes id = .ok count → 1 ≤ count

/-- There are data, or the stream is not asked to take them. -/
def SomethingToWrite (data : List UInt8) (iodId : Nat) (id : EventId) (pool : Pool) (pass : Pass) :
    Prop :=
  data = [] → ∀ e, pool.Open id e → pool.takenIn pass iodId id e [] = none

/-- The request of a write while it is open: what is left to send makes up the data with what
was accepted. -/
structure Writing (data : List UInt8) (iodId : Nat) (id : EventId) (pool : Pool) : Prop
    extends Retained pool where
  known : pool.Created id
  front : acceptedBy id pool.log <+: data
  request : ∀ e, pool.Open id e → e.kind = .write ∧ e.iod = some iodId ∧
    ∃ rest, e.wbuf = some rest ∧ acceptedBy id pool.log ++ rest = data ∧ (data ≠ [] → rest ≠ [])

theorem EndsWith.acceptedBy {moved : List Effect} {status : EventStatus}
    (ends : EndsWith pool after id moved status) :
    acceptedBy id after.log = acceptedBy id pool.log ++ acceptedBy id moved := by
  rw [← acceptedBy_about, ends.log, acceptedBy_append, acceptedBy_append, acceptedBy_about]
  exact List.append_nil _

theorem GoesOn.acceptedBy {moved : List Effect} (goes : GoesOn pool after id moved e) :
    acceptedBy id after.log = acceptedBy id pool.log ++ acceptedBy id moved := by
  rw [← acceptedBy_about, goes.log, acceptedBy_append, acceptedBy_about]

theorem acceptedBy_accepted (id iodId : Nat) (bytes : List UInt8) :
    acceptedBy id [.accepted id iodId bytes] = bytes := by
  rw [acceptedBy, List.flatMap_singleton, Effect.acceptedBy, if_pos rfl]

theorem departureIn_of_onStream (stream : OnStream iodId pool pass) (data : List UInt8)
    (peer : SocketAddr) : pool.departureIn pass iodId id data ≠ .sent peer := by
  rw [departureIn]
  split
  · rename_i iod described
    exact Iod.departure_of_tcp (stream iod described) data _ peer
  · nofun

theorem le_of_departureIn {n : Nat} (found : pool.departureIn pass iodId id data = .taken n) :
    n ≤ data.length := by
  rw [departureIn] at found
  split at found
  · exact Iod.le_of_taken found
  · cases found

theorem pos_of_departureIn {n : Nat} (healthy : Healthy id pass) (some' : data ≠ [])
    (found : pool.departureIn pass iodId id data = .taken n) : 0 < n := by
  rw [departureIn] at found
  split at found
  · exact Iod.pos_of_taken healthy some' found
  · cases found

/-- What the bytes that a pass takes leave of the data. -/
theorem split_rest {front : List UInt8} (whole : front ++ rest = data) (n : Nat) :
    front ++ rest.take n ++ rest.drop n = data := by
  rw [List.append_assoc, List.take_append_drop, whole]

theorem takenIn_eq_some {n : Nat} (taken : pool.takenIn pass iodId id e rest = some n) :
    pool.departureIn pass iodId id rest = .taken n := by
  unfold takenIn at taken
  split at taken
  · rename_i found
    obtain rfl := Option.some.inj taken
    exact found
  · cases taken

namespace Writing

variable (writing : Writing data iodId id pool)

include writing

theorem quit (value : Bool) : Writing data iodId id { pool with quit := value } :=
  ⟨writing.toRetained.act (Takes.quitRun : Takes (.run 0 0 []) pool (.setQuit value)),
    writing.known, writing.front, writing.request⟩

theorem perform (outside : ¬ op.IsRun) : Writing data iodId id (perform op pool).2 := by
  obtain ⟨valid, known⟩ := writing.toRetained.perform writing.known op
  obtain ⟨added, log, idle⟩ := perform_idle writing.toSound outside
  have accepted : acceptedBy id (Pool.perform op pool).2.log = acceptedBy id pool.log := by
    rw [log, acceptedBy_append, acceptedBy_of_idle idle, List.append_nil]
  refine ⟨valid, known, accepted ▸ writing.front, fun e held => ?_⟩
  rw [accepted]
  exact writing.request e (open_of_perform outside writing.toSound writing.known held)

/-- What a pass can come to for an open write event, by how many bytes the stream takes. -/
inductive WriteCase (pool after : Pool) (id iodId : Nat) (e : Pending) (rest : List UInt8)
    (peers : SocketAddr → Prop) : Option Nat → Prop
  | ended (moved : List Effect) (status : EventStatus) (ends : EndsWith pool after id moved status)
      (silent : Nsock.acceptedBy id moved = [] ∧ calls id moved = [])
      (cause : status = .timeout ∨ status = .error ∨ ∃ peer, peers peer) :
      WriteCase pool after id iodId e rest peers none
  | still (goes : GoesOn pool after id [] e) : WriteCase pool after id iodId e rest peers none
  | nothing (ends : EndsWith pool after id [] .eof) :
      WriteCase pool after id iodId e rest peers (some 0)
  | all (n : Nat) (fits : 0 < n ∧ n ≤ rest.length) (all : rest.drop n = [])
      (ends : EndsWith pool after id [.accepted id iodId (rest.take n)] .success) :
      WriteCase pool after id iodId e rest peers (some n)
  | part (n : Nat) (fits : 0 < n ∧ n ≤ rest.length) (left : rest.drop n ≠ [])
      (goes : GoesOn pool after id [.accepted id iodId (rest.take n)]
        { e with wbuf := some (rest.drop n) }) :
      WriteCase pool after id iodId e rest peers (some n)

theorem pass_cases (pass : Pass) (held : pool.Open id e) (left : e.wbuf = some rest) :
    WriteCase pool (pool.runPass pass) id iodId e rest
      (fun peer => pool.departureIn pass iodId id rest = .sent peer)
      (pool.takenIn pass iodId id e rest) := by
  obtain ⟨kind, named, -⟩ := writing.request e held
  unfold takenIn
  cases due : dueStatus pass.now e with
  | some status =>
      have ends := (runPass_of_due writing.toSound held (by rw [kind]; nofun) due).1
      obtain ⟨-, ⟨timer, -⟩ | ⟨-, timeout⟩⟩ := dueStatus_eq_some due
      · rw [kind] at timer
        cases timer
      · exact .ended [] status ends ⟨rfl, rfl⟩ (.inl timeout)
  | none =>
      have passed := runPass_write writing.toSound held kind named left due
      cases found : pool.departureIn pass iodId id rest with
      | taken n =>
          rw [found, WritePassed] at passed
          by_cases none : n = 0
          · subst none
            rw [if_pos rfl] at passed
            exact .nothing passed
          · rw [if_neg none] at passed
            have fits : 0 < n ∧ n ≤ rest.length :=
              ⟨Nat.pos_of_ne_zero none, le_of_departureIn found⟩
            by_cases all : rest.drop n = []
            · rw [if_pos all] at passed
              exact .all n fits all passed
            · rw [if_neg all] at passed
              exact .part n fits all passed
      | sent peer =>
          rw [found] at passed
          exact .ended _ _ passed ⟨rfl, rfl⟩ (.inr (.inr ⟨peer, rfl⟩))
      | failed =>
          rw [found] at passed
          exact .ended [] .error passed ⟨rfl, rfl⟩ (.inr (.inl rfl))
      | nothing =>
          rw [found] at passed
          exact .still passed

theorem runPass (pass : Pass) : Writing data iodId id (pool.runPass pass) := by
  obtain ⟨valid, known⟩ := writing.toRetained.runPass writing.known pass
  by_cases opened : ∃ e, pool.Open id e
  · obtain ⟨e, held⟩ := opened
    obtain ⟨kind, named, rest, left, whole, some'⟩ := writing.request e held
    have closed {moved : List Effect} {status : EventStatus}
        (ends : EndsWith pool (pool.runPass pass) id moved status) (e : Pending) :
        ¬ (pool.runPass pass).Open id e := by
      rintro ⟨found, -⟩
      cases ends.closed.symm.trans found
    have passed := writing.pass_cases pass held left
    generalize pool.takenIn pass iodId id e rest = taken at passed
    cases passed with
    | ended moved status ends silent cause =>
        refine ⟨valid, known, ?_, fun e' held' => absurd held' (closed ends e')⟩
        rw [ends.acceptedBy, silent.1, List.append_nil]
        exact writing.front
    | still goes =>
        have accepted := goes.acceptedBy.trans (List.append_nil _)
        refine ⟨valid, known, accepted ▸ writing.front, fun e' held' => ?_⟩
        obtain rfl := Option.some.inj (goes.held.symm.trans held'.1)
        exact ⟨kind, named, rest, left, accepted ▸ whole, some'⟩
    | nothing ends =>
        have accepted := ends.acceptedBy.trans (List.append_nil _)
        exact ⟨valid, known, accepted ▸ writing.front, fun e' held' => absurd held' (closed ends e')⟩
    | all n fits all ends =>
        refine ⟨valid, known, ?_, fun e' held' => absurd held' (closed ends e')⟩
        rw [ends.acceptedBy, acceptedBy_accepted]
        exact ⟨rest.drop n, split_rest whole n⟩
    | part n fits left' goes =>
        have accepted := goes.acceptedBy
        rw [acceptedBy_accepted] at accepted
        refine ⟨valid, known, accepted ▸ ⟨rest.drop n, split_rest whole n⟩, fun e' held' => ?_⟩
        obtain rfl := Option.some.inj (goes.held.symm.trans held'.1)
        exact ⟨kind, named, rest.drop n, rfl, accepted ▸ split_rest whole n, fun _ => left'⟩
  · have same := runPass_same writing.toSound pass fun e held => opened ⟨e, held⟩
    have accepted : acceptedBy id (pool.runPass pass).log = acceptedBy id pool.log := by
      rw [← acceptedBy_about, same.log, acceptedBy_about]
    refine ⟨valid, known, accepted ▸ writing.front, fun e held => ?_⟩
    exact absurd ⟨e, (same.open_iff e).mp held⟩ opened

omit writing in
/-- What a pass has to do for the event that is open. -/
theorem writesExactly_iff {rest : List UInt8} (pass : Pass) (held : pool.Open id e)
    (left : e.wbuf = some rest) (whole : acceptedBy id pool.log ++ rest = data) :
    WritesExactly data iodId id pool pass ↔
      acceptedBy id (pool.runPass pass).log =
        acceptedBy id pool.log ++ rest.take ((pool.takenIn pass iodId id e rest).getD 0) ∧
      (pool.Delivers pass id .success ↔ (pool.takenIn pass iodId id e rest).isSome = true ∧
        acceptedBy id (pool.runPass pass).log = data) ∧
      ¬ pool.Delivers pass id .eof := by
  constructor
  · intro exact'
    obtain ⟨rest', left', -, facts⟩ := exact' e held
    obtain rfl := Option.some.inj (left'.symm.trans left)
    exact facts
  · intro facts e' held'
    obtain rfl := held'.unique held
    exact ⟨rest, left, whole, facts⟩

omit writing in
theorem somethingToWrite_iff (pass : Pass) (held : pool.Open id e) :
    SomethingToWrite data iodId id pool pass ↔
      (data = [] → pool.takenIn pass iodId id e [] = none) := by
  refine imp_congr_right fun _ => ⟨fun all => all e held, fun one e' held' => ?_⟩
  exact held'.unique held ▸ one

theorem exact_iff (pass : Pass) (stream : OnStream iodId pool pass) (healthy : Healthy id pass)
    (held : pool.Open id e) :
    WritesExactly data iodId id pool pass ↔ SomethingToWrite data iodId id pool pass := by
  obtain ⟨-, -, rest, left, whole, some'⟩ := writing.request e held
  have empty (none : data = []) : rest = [] := by
    rw [none, List.append_eq_nil_iff] at whole
    exact whole.2
  rw [writesExactly_iff pass held left whole, somethingToWrite_iff pass held]
  have passed := writing.pass_cases pass held left
  cases taken : pool.takenIn pass iodId id e rest with
  | none =>
      rw [taken] at passed
      refine iff_of_true ?_ fun none => empty none ▸ taken
      cases passed with
      | ended moved status ends silent cause =>
          have quiet := ends.acceptedBy
          rw [silent.1] at quiet
          have other : status ≠ .success ∧ status ≠ .eof := by
            rcases cause with rfl | rfl | ⟨peer, sent⟩
            · exact ⟨nofun, nofun⟩
            · exact ⟨nofun, nofun⟩
            · exact absurd sent (departureIn_of_onStream stream rest peer)
          refine ⟨quiet, iff_of_false ?_ fun met => Bool.false_ne_true met.1, ?_⟩
          · rw [ends.delivers_iff silent.2]
            exact Ne.symm other.1
          · rw [ends.delivers_iff silent.2]
            exact Ne.symm other.2
      | still goes =>
          exact ⟨goes.acceptedBy, iff_of_false (goes.not_delivers rfl)
            fun met => Bool.false_ne_true met.1, goes.not_delivers rfl⟩
  | some n =>
      rw [taken] at passed
      cases passed with
      | nothing ends =>
          refine iff_of_false (fun facts => facts.2.2 ((ends.delivers_iff rfl).mpr rfl)) ?_
          have nothing : rest = [] := by
            by_contra left'
            exact Nat.lt_irrefl 0 (pos_of_departureIn healthy left' (takenIn_eq_some taken))
          intro unasked
          have none : data = [] := by
            by_contra left'
            exact some' left' nothing
          rw [nothing, unasked none] at taken
          cases taken
      | all n fits all ends =>
          have accepted := ends.acceptedBy
          rw [acceptedBy_accepted] at accepted
          refine iff_of_true ⟨accepted, iff_of_true ((ends.delivers_iff rfl).mpr rfl) ⟨rfl, ?_⟩, ?_⟩ ?_
          · rw [accepted, ← List.append_nil (acceptedBy id pool.log ++ rest.take n), ← all]
            exact split_rest whole n
          · rw [ends.delivers_iff rfl]
            nofun
          · intro none
            rw [empty none] at fits
            exact absurd fits.1 (Nat.not_lt.mpr fits.2)
      | part n fits left' goes =>
          have accepted := goes.acceptedBy
          rw [acceptedBy_accepted] at accepted
          refine iff_of_true ⟨accepted, iff_of_false (goes.not_delivers rfl) ?_,
            goes.not_delivers rfl⟩ ?_
          · rintro ⟨-, all⟩
            rw [accepted] at all
            have split := split_rest whole n
            rw [all] at split
            exact left' (List.append_right_eq_self.mp split)
          · intro none
            rw [empty none] at fits
            exact absurd fits.1 (Nat.not_lt.mpr fits.2)

end Writing

theorem writing_new (valid : pool.Retained) (iodId : Nat) (data : List UInt8) (timeoutMs : Int)
    (now : Instant) :
    Writing data iodId (pool.eventCounter + 1)
      (perform (.write iodId data timeoutMs now) pool).2 := by
  have nothing : acceptedBy (pool.eventCounter + 1)
      (perform (.write iodId data timeoutMs now) pool).2.log = [] := by
    have fresh := about_of_not_created valid.toSound (not_created_succ pool)
    change acceptedBy _ (pool.log ++ [_]) = []
    rw [acceptedBy_append, ← acceptedBy_about, fresh]
    rfl
  refine ⟨perform_invariant (fun _ _ _ valid taken => valid.act taken) _ valid,
    ⟨Nat.le_add_left 1 _, Nat.le_refl _⟩, nothing ▸ List.nil_prefix, fun e held => ?_⟩
  obtain rfl := Option.some.inj (held.1.symm.trans (lookup_put _ _ _))
  exact ⟨rfl, rfl, data, rfl, by rw [nothing, List.nil_append], id⟩

/-- **Writes to streams are exact.** In every history a pass over a healthy stream offers it the
rest of the data and ends the event as it should, exactly when there are data or the stream
is not asked; what is accepted is a front of the data, and the descriptor counts it. -/
theorem write_exact_iff (earlier later : List Op) (iodId : Nat) (data : List UInt8)
    (timeoutMs : Int) (now : Instant) :
    let before := execute earlier new
    let id := before.eventCounter + 1
    let start := (perform (.write iodId data timeoutMs now) before).2
    Throughout (fun _ _ => True)
        (fun pool pass => pool.isUndelivered id = true → OnStream iodId pool pass →
          Healthy id pass →
            (WritesExactly data iodId id pool pass ↔ SomethingToWrite data iodId id pool pass))
        later start ∧
      acceptedBy id (execute later start).log <+: data ∧
      ∀ iod, (execute later start).iods.lookup iodId = some iod →
        iod.writeCount = (output iodId (execute later start).log).length := by
  intro before id start
  have valid : before.Retained := retained_new.execute earlier
  have along : Throughout (fun _ _ => True) (fun _ _ => True) later start :=
    throughout_of_forall (fun _ _ => trivial) (fun _ _ => trivial) later _
  have counted : (execute later start).Counted := by
    have act (op : Op) (pool : Pool) (action : Action) (counted : pool.Counted)
        (taken : Takes op pool action) : (pool.act action).Counted := counted.act taken
    exact execute_invariant act later (perform_invariant act _
      (execute_invariant act earlier counted_new))
  have quits (pool : Pool) (quit : Bool) (writing : Writing data iodId id pool) :
      Writing data iodId id { pool with quit } := writing.quit quit
  refine And.imp_right (fun writing => ⟨Writing.front writing, fun iod described =>
    (counted.counts iodId iod described).2⟩) (Throughout.invariant quits ?_ ?_ along
      (writing_new valid iodId data timeoutMs now))
  · intro pool pass writing _
    refine ⟨fun undelivered stream healthy => ?_, writing.runPass pass⟩
    obtain ⟨e, held⟩ := isUndelivered_iff.mp undelivered
    exact writing.exact_iff pass stream healthy held
  · exact fun pool op outside writing _ => ⟨trivial, writing.perform outside⟩

/-- A stream that takes what it is offered. -/
def takingPass : Pass := { idlePass with writes := fun _ => .ok 1 }

/-- A connected stream, and a write of nothing to it. -/
def writeNothing : Pool :=
  execute [.createIodTcpFrom ⟨.caller 0, some (localhost 80)⟩, .write 1 [] (-1) 0] new

/-- Nothing is written to a healthy stream, and its end is reported. -/
theorem empty_write_ends : writeNothing.isUndelivered 1 = true ∧
    OnStream 1 writeNothing takingPass ∧ Healthy 1 takingPass ∧
    writeNothing.Delivers takingPass 1 .eof ∧
    ¬ WritesExactly [] 1 1 writeNothing takingPass := by
  have undelivered : writeNothing.isUndelivered 1 = true := by decide
  have ended : writeNothing.Delivers takingPass 1 .eof := by
    unfold Delivers
    decide
  refine ⟨undelivered, ?_, ?_, ended, fun exact' => ?_⟩
  · have kinds : ((writeNothing.drained takingPass).iods.lookup 1).all (·.kind = .tcp) = true := by
      decide
    intro iod described
    rw [described] at kinds
    exact of_decide_eq_true kinds
  · intro count answered
    exact (SocketResult.ok.inj answered).le
  · obtain ⟨e, held⟩ := isUndelivered_iff.mp undelivered
    obtain ⟨-, -, -, -, -, healthy⟩ := exact' e held
    exact healthy ended

end Pool

end Wnr.Nsock
