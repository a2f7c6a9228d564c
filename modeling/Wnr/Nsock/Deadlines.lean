import Wnr.Nsock.Passes
import Wnr.Nsock.PassOutcomes

/-! # Deadlines

Whatever else a pass handles, it times an event out, or fires a timer, only at or after
the event's deadline by the clock that the pass read, and it leaves no event with such a
deadline undelivered (`Pool.deadlines_exact`).
-/

namespace Wnr.Nsock

namespace Pool

variable {pool after : Pool} {pass : Pass} {id : EventId} {e : Pending} {op : Op}

/-! ## What is promised -/

/-- Outside the loop, handlers are called for events that are cancelled or killed. -/
def EndsOnly (pool : Pool) (op : Op) : Prop :=
  ∀ id, ∃ ended, calls id (perform op pool).2.log = calls id pool.log ++ ended ∧
    ∀ status ∈ ended, status = .cancelled ∨ status = .kill

/-- What a pass promises about deadlines. -/
structure DeadlinesMet (pool : Pool) (pass : Pass) : Prop where
  timeout : ∀ id, pool.Delivers pass id .timeout → ∃ e, pool.Open id e ∧ e.kind ≠ .timer ∧
    ∃ deadline, e.deadline = some deadline ∧ deadline ≤ pass.now
  timer : ∀ id e, pool.Open id e → e.kind = .timer → ∀ status, pool.Delivers pass id status →
    status = .success ∧ ∃ deadline, e.deadline = some deadline ∧ deadline ≤ pass.now
  past : ∀ id e, (pool.runPass pass).Open id e → ∀ deadline, e.deadline = some deadline →
    pass.now < deadline
  kept : ∀ id e, (pool.runPass pass).Open id e →
    ∃ e', pool.Open id e' ∧ e'.kind = e.kind ∧ e'.deadline = e.deadline

/-- The loop ends without events, or leaves some. -/
structure AnswerFits (answer : Answer) (after : Pool) : Prop where
  drained : answer = .status .noEvents → ∀ id e, ¬ after.Open id e
  left : answer = .status .quit ∨ answer = .status .timeout → ∃ id e, after.Open id e

/-! ## One pass -/

theorem verdict_of_due {status : EventStatus} (held : pool.Open id e)
    (due : dueStatus pass.now e = some status) : pool.verdict pass id = some status := by
  rw [verdict, Pool.due, held.1, Option.bind_some, due, Option.map_some]

theorem verdict_of_not_due (held : pool.Open id e) (due : dueStatus pass.now e = none) :
    pool.verdict pass id = (pool.tryIo pass id).1 := by
  rw [verdict, Pool.due, held.1, Option.bind_some, due, Option.map_none]

theorem dueStatus_eq_some {now : Instant} {status : EventStatus}
    (due : dueStatus now e = some status) :
    (∃ deadline, e.deadline = some deadline ∧ deadline ≤ now) ∧
      (e.kind = .timer ∧ status = .success ∨ e.kind ≠ .timer ∧ status = .timeout) := by
  unfold dueStatus at due
  cases deadline : e.deadline with
  | none => rw [deadline] at due; cases due
  | some d =>
      rw [deadline] at due
      by_cases come : d ≤ now
      · refine ⟨⟨d, rfl, come⟩, ?_⟩
        simp only [come, ↓reduceIte, Option.some.injEq] at due
        by_cases timer : e.kind = .timer
        · rw [if_pos timer] at due
          exact .inl ⟨timer, due.symm⟩
        · rw [if_neg timer] at due
          exact .inr ⟨timer, due.symm⟩
      · simp only [come, ↓reduceIte, reduceCtorEq] at due

theorem dueStatus_eq_none {now : Instant} :
    dueStatus now e = none ↔ ∀ deadline, e.deadline = some deadline → now < deadline := by
  unfold dueStatus
  cases e.deadline with
  | none => simp only [reduceCtorEq, false_implies, implies_true]
  | some d => simp only [ite_eq_right_iff, reduceCtorEq, imp_false, Option.some.injEq, not_le,
      forall_eq']

/-- The statuses that an attempt comes to. -/
theorem tryIo_status {status : EventStatus} (held : pool.Open id e)
    (attempted : (pool.tryIo pass id).1 = some status) :
    (e.kind = .read ∨ e.kind = .write) ∧
      (status = .success ∨ status = .error ∨ status = .eof) := by
  by_cases read : e.kind = .read
  · rw [tryIo_of_read pass held.1 read] at attempted
    exact ⟨.inl read, tryRead_status pool id _ status attempted⟩
  by_cases write : e.kind = .write
  · rw [tryIo_of_write pass held.1 write] at attempted
    exact ⟨.inr write, tryWrite_status pool id _ status attempted⟩
  · rw [tryIo_of_no_io pass held.1 read write] at attempted
    cases attempted

/-- The verdict of an event is that of its deadline or that of its socket. -/
theorem verdict_cases {status : EventStatus} (held : pool.Open id e)
    (given : pool.verdict pass id = some status) :
    dueStatus pass.now e = some status ∨
      (e.kind = .read ∨ e.kind = .write) ∧
        (status = .success ∨ status = .error ∨ status = .eof) := by
  cases due : dueStatus pass.now e with
  | some status' =>
      rw [verdict_of_due held due] at given
      exact .inl given
  | none =>
      rw [verdict_of_not_due held due] at given
      exact .inr (tryIo_status held given)

/-- A delivered status is a result of the event's connection attempt or its verdict. -/
theorem Delivers.cases {status : EventStatus} (sound : pool.Sound) (held : pool.Open id e)
    (delivers : pool.Delivers pass id status) :
    e.kind = .connect ∧ (status = .success ∨ status = .error) ∨
      (pool.drained pass).Open id e ∧ (pool.drained pass).verdict pass id = some status := by
  rw [Delivers] at delivers
  rcases runPass_cases sound pass held with ⟨kind, -, status', ended, delivers'⟩ | ⟨held', grown, -⟩
  · have same := List.append_cancel_left (delivers.symm.trans delivers')
    obtain rfl := List.singleton_injective same
    exact .inl ⟨kind, ended⟩
  · have same := List.append_cancel_left (grown.symm.trans delivers)
    exact .inr ⟨held', Option.toList_eq_singleton_iff.mp same⟩

/-- Only an event that is open before a pass is delivered in it. -/
theorem Delivers.opened {status : EventStatus} (sound : pool.Sound)
    (delivers : pool.Delivers pass id status) : ∃ e, pool.Open id e := by
  by_contra closed
  rw [not_exists] at closed
  rw [Delivers, (runPass_same sound pass closed).calls] at delivers
  exact List.cons_ne_nil _ _ (List.append_right_eq_self.mp delivers.symm)

theorem deadlinesMet (sound : pool.Sound) (pass : Pass) : DeadlinesMet pool pass where
  timeout id delivers := by
    obtain ⟨e, held⟩ := delivers.opened sound
    refine ⟨e, held, ?_⟩
    rcases delivers.cases sound held with ⟨-, other | other⟩ | ⟨held', given⟩
    · cases other
    · cases other
    · rcases verdict_cases held' given with due | ⟨-, other | other | other⟩
      · obtain ⟨come, ⟨-, other⟩ | ⟨timer, -⟩⟩ := dueStatus_eq_some due
        · cases other
        · exact ⟨timer, come⟩
      · cases other
      · cases other
      · cases other
  timer id e held timer status delivers := by
    rcases delivers.cases sound held with ⟨kind, -⟩ | ⟨held', given⟩
    · rw [timer] at kind
      cases kind
    · rcases verdict_cases held' given with due | ⟨kind, -⟩
      · obtain ⟨come, ⟨-, success⟩ | ⟨other, -⟩⟩ := dueStatus_eq_some due
        · exact ⟨success, come⟩
        · exact absurd timer other
      · rw [timer] at kind
        rcases kind with kind | kind <;> cases kind
  past id e held deadline asked := by
    obtain ⟨e', -, held', fields, given, -⟩ := open_of_runPass sound pass held
    have due : dueStatus pass.now e' = none := by
      cases due : dueStatus pass.now e' with
      | none => rfl
      | some status =>
          rw [verdict_of_due held' due] at given
          cases given
    refine dueStatus_eq_none.mp due deadline ?_
    rw [← asked, fields]
  kept id e held := by
    obtain ⟨e', held', -, fields, -⟩ := open_of_runPass sound pass held
    exact ⟨e', held', by rw [fields], by rw [fields]⟩

/-! ## The other operations -/

theorem mem_calls {id : EventId} {log : List Effect} {status : EventStatus}
    (called : status ∈ calls id log) : ∃ owner event, .called owner event status ∈ log := by
  obtain ⟨effect, member, found⟩ := List.mem_filterMap.mp called
  cases effect with
  | called owner event status' =>
      simp only [Option.ite_none_right_eq_some, Option.some.injEq] at found
      exact ⟨owner, event, found.2 ▸ member⟩
  | requested | addressed | silenced | result | received | accepted | sent => cases found

/-- The calls of an action that does not belong to the loop. -/
theorem Emission.status_of_called {action : Action} {owner event : EventId} {status : EventStatus}
    (outside : ¬ op.IsRun) (taken : Takes op pool action)
    (emission : Emission pool op action (.called owner event status)) :
    status = .cancelled ∨ status = .kill := by
  cases emission with
  | cancelled => exact .inl rfl
  | killed => exact .inr rfl
  | connected =>
      cases taken
      exact absurd trivial outside
  | delivered =>
      cases taken
      exact absurd trivial outside
  | read held io => cases io
  | wrote held io => cases io

theorem endsOnly (sound : pool.Sound) (outside : ¬ op.IsRun) : EndsOnly pool op := by
  obtain ⟨added, log, emitted⟩ := perform_emitted sound op
  intro id
  refine ⟨calls id added, by rw [log, calls_append], fun status called => ?_⟩
  obtain ⟨owner, event, member⟩ := mem_calls called
  obtain ⟨state, action, -, taken, emission⟩ := emitted _ member
  exact emission.status_of_called outside taken

/-! ## The answer of the loop -/

/-! What each answer says of the events. -/

theorem answerFits_running (after : Pool) : AnswerFits .running after where
  drained answered := by cases answered
  left answered := by rcases answered with quit | timeout <;> contradiction

theorem answerFits_noEvents {after : Pool} (closed : after.hasPending = false) :
    AnswerFits (.status .noEvents) after where
  drained _ := not_hasPending_iff.mp closed
  left answered := by rcases answered with quit | timeout <;> contradiction

theorem answerFits_of_left {status : LoopStatus} {after : Pool} (left : ∃ id e, after.Open id e)
    (events : status ≠ .noEvents) : AnswerFits (.status status) after where
  drained answered := absurd (Answer.status.inj answered) events
  left _ := left

theorem answerFits_runPasses (start : Instant) (limit : Option Nat) (passes : List Pass)
    (pool : Pool) :
    AnswerFits ((runPasses start limit passes pool).1.elim .running .status)
      (runPasses start limit passes pool).2 := by
  induction passes generalizing pool with
  | nil => exact answerFits_running pool
  | cons pass rest ih =>
      rw [runPasses]
      by_cases closed : (pool.runPass pass).hasPending = false
      · simp only [closed, Bool.not_false, ↓reduceIte]
        exact answerFits_noEvents closed
      · have left : ∃ id e, (pool.runPass pass).Open id e := by
          by_contra none
          rw [not_hasPending_iff] at closed
          exact closed fun id e held => none ⟨id, e, held⟩
        rw [Bool.not_eq_false] at closed
        simp only [closed, Bool.not_true, Bool.false_eq_true, ↓reduceIte]
        split
        · exact answerFits_of_left left (by decide)
        split
        · exact answerFits_of_left left (by decide)
        · exact ih _

/-- **Deadlines are exact.** In every history, timeouts and timers are delivered by passes
whose clock has reached the deadline, and every such pass delivers them; the loop answers
that no events are left, or that some are, as it is. -/
theorem deadlines_exact (history : List Op) :
    Throughout EndsOnly DeadlinesMet history new ∧
      ∀ timeout start passes, AnswerFits (perform (.run timeout start passes) (execute history new)).1
        (perform (.run timeout start passes) (execute history new)).2 := by
  constructor
  · have along : Throughout (fun _ _ => True) (fun _ _ => True) history new :=
      throughout_of_forall (fun _ _ => trivial) (fun _ _ => trivial) history new
    refine (Throughout.invariant ?_ ?_ ?_ along sound_new).1
    · exact fun pool quit sound => sound_of_view sound ⟨rfl, rfl, rfl, rfl⟩
    · exact fun pool pass sound _ => ⟨deadlinesMet sound pass, sound_runPass sound pass⟩
    · intro pool op outside sound _
      refine ⟨endsOnly sound outside, perform_invariant ?_ op sound⟩
      exact fun _ _ _ sound taken => (taken.change sound).sound sound
  · exact fun timeout start passes => answerFits_runPasses _ _ _ _

end Pool

end Wnr.Nsock
