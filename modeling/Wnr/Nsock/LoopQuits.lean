import Wnr.Nsock.IterationOrder

/-! # Asking the loop to stop

`loop_quit` leaves a command in the channel that the next loop takes in its first pass. So
each request stops one loop, the next one to run, after one pass, whatever that loop finds;
and a loop returns `Quit` for no other reason (`Wnr.Nsock.Pool.loop_quit_exact`).
-/

namespace Wnr.Nsock

open Net

namespace Pool

variable {pool : Pool} {op : Op} {pass : Pass}

/-- The command to stop waits in the channel. -/
def Asked (pool : Pool) : Prop := Cmd.quit ∈ pool.channel

instance (pool : Pool) : Decidable pool.Asked := inferInstanceAs (Decidable (_ ∈ _))

/-! ## What a pass makes of the request -/

theorem arrive_asked (pool : Pool) (attempt : EventId)
    (outcome : Except Unit (Option SocketAddr)) :
    (pool.arrive attempt outcome).Asked ↔ pool.Asked := by
  unfold Asked
  rcases arrive_cases pool attempt outcome with ⟨still, -⟩ | ⟨thread, -, -, -, sent⟩
  · rw [still]
  · rw [sent, List.mem_append, List.mem_singleton]
    exact or_iff_left nofun

theorem arriveAll_asked (arrivals : List (EventId × Except Unit (Option SocketAddr)))
    (pool : Pool) : (arriveAll arrivals pool).Asked ↔ pool.Asked := by
  induction arrivals generalizing pool with
  | nil => exact Iff.rfl
  | cons arrival rest ih => exact (ih _).trans (arrive_asked pool arrival.1 arrival.2)

/-- The commands that are handled leave the channel alone, and a request among them stops
the loop. -/
theorem receiveAll_asked (orders : List (List Nat)) (cmds : List Cmd) (pool : Pool) :
    (receiveAll orders cmds pool).channel = pool.channel ∧
      ((receiveAll orders cmds pool).quit = true ↔ pool.quit = true ∨ .quit ∈ cmds) := by
  induction cmds generalizing orders pool with
  | nil => exact ⟨rfl, (or_iff_left List.not_mem_nil).symm⟩
  | cons cmd rest ih =>
      obtain ⟨channel, quit⟩ := ih orders.tail (pool.receive (orders.headD []) cmd)
      rw [receiveAll, channel, quit, List.mem_cons]
      cases cmd with
      | quit => exact ⟨rfl, iff_of_true (.inl rfl) (.inr (.inl rfl))⟩
      | connectResult result =>
          have mail := receive_mail pool (orders.headD []) result
          rw [mail.channel, mail.quit, or_iff_right (a := Cmd.quit = .connectResult result) nofun]
          exact ⟨rfl, Iff.rfl⟩

/-- **A pass takes the request.** -/
theorem runPass_asked (pool : Pool) (pass : Pass) :
    ¬ (pool.runPass pass).Asked ∧
      ((pool.runPass pass).quit = true ↔ pool.quit = true ∨ pool.Asked) := by
  have frame := runPass_frame pool pass
  obtain ⟨channel, quit⟩ := receiveAll_asked pass.searches (arriveAll pass.arrivals pool).channel
    { arriveAll pass.arrivals pool with channel := [] }
  have drained : (pool.drained pass).channel = [] := channel
  have stops : (pool.drained pass).quit = true ↔
      (arriveAll pass.arrivals pool).quit = true ∨ (arriveAll pass.arrivals pool).Asked := quit
  constructor
  · rw [Asked, frame.channel, drained]
    exact List.not_mem_nil
  · rw [frame.quit, stops, arriveAll_quit, arriveAll_asked]

/-! ## What the caller does -/

theorem perform_asked (outside : ¬ op.IsRun) (pool : Pool) :
    (perform op pool).2.Asked ↔ pool.Asked ∨ op = .loopQuit := by
  have same (pool' : Pool) (channel : pool'.channel = pool.channel) (other : op ≠ .loopQuit) :
      pool'.Asked ↔ pool.Asked ∨ op = .loopQuit := by
    rw [or_iff_left other, Asked, channel, Asked]
  cases op with
  | run timeout start passes => exact absurd trivial outside
  | loopQuit =>
      refine iff_of_true ?_ (.inr rfl)
      exact List.mem_append_right _ (List.mem_singleton_self _)
  | arrive attempt outcome => exact (arrive_asked pool attempt outcome).trans (or_iff_left nofun).symm
  | deleteIod order id =>
      refine same _ ?_ nofun
      exact (killEvents_frame (pool.eventsOf order id) pool).channel
  | delete iodOrder orders order =>
      exact same _ (delete_frame iodOrder orders order pool).channel nofun
  | cancel id notify =>
      refine same _ ?_ nofun
      change (pool.cancel id notify).2.channel = _
      rcases cancel_cases pool id notify with ⟨still, -⟩ | ⟨e, after, -, -, ⟨still, -⟩ |
        ⟨-, ⟨called, -⟩ | ⟨silenced, -⟩⟩⟩
      · rw [still]
      · rw [still]
        rfl
      · rw [called]
        exact (call_frame _ _ _ _).channel
      · rw [silenced]
        rfl
  | createIodUdp binds =>
      refine same _ ?_ nofun
      cases binds <;> rfl
  | takeReadBuf id =>
      refine same _ ?_ nofun
      change (pool.takeReadBuf id).2.channel = _
      unfold takeReadBuf
      split <;> rfl
  | _ => exact same _ rfl nofun

/-! ## One loop -/

theorem noEvents_ne_quit : some LoopStatus.noEvents ≠ some .quit := by simp

theorem timeout_ne_quit : some LoopStatus.timeout ≠ some .quit := by simp

/-- Without a request a loop does not return `Quit`. -/
theorem runPasses_not_quit (start : Instant) (limit : Option Nat) (passes : List Pass)
    (unasked : ¬ pool.Asked) (going : pool.quit = false) :
    (runPasses start limit passes pool).1 ≠ some .quit ∧
      ¬ (runPasses start limit passes pool).2.Asked := by
  induction passes generalizing pool with
  | nil => exact ⟨Option.some_ne_none _ ∘ Eq.symm, unasked⟩
  | cons pass rest ih =>
      obtain ⟨taken, stops⟩ := runPass_asked pool pass
      have going' : (pool.runPass pass).quit = false := by
        rw [← Bool.not_eq_true, stops]
        exact not_or.mpr ⟨by rw [going]; exact Bool.false_ne_true, unasked⟩
      rw [runPasses]
      simp only [going', Bool.false_eq_true, ↓reduceIte]
      split
      · exact ⟨noEvents_ne_quit, taken⟩
      split
      · exact ⟨timeout_ne_quit, taken⟩
      · exact ih taken going'

variable (timeout : Int) (start : Instant) (rest : List Pass)

/-- **A loop that was asked to stop** ends after one pass, with `Quit` if that leaves an
event; and no other loop returns `Quit`. -/
theorem run_asked (pool : Pool) (pass : Pass) :
    ((pool.run timeout start (pass :: rest)).1 = some .quit ↔
        pool.Asked ∧ ({ pool with quit := false }.runPass pass).hasPending = true) ∧
      (pool.Asked → (pool.run timeout start [pass]).1 ≠ none ∧
        pool.run timeout start (pass :: rest) = pool.run timeout start [pass]) ∧
      ¬ (pool.run timeout start (pass :: rest)).2.Asked := by
  obtain ⟨taken, stops⟩ := runPass_asked { pool with quit := false } pass
  have stops' : ({ pool with quit := false }.runPass pass).quit = true ↔ pool.Asked :=
    stops.trans (or_iff_right Bool.false_ne_true)
  unfold run
  generalize (if timeout < 0 then none else some (millis timeout.toNat)) = limit
  rw [runPasses, runPasses]
  by_cases left : ({ pool with quit := false }.runPass pass).hasPending = true
  · rw [left]
    by_cases asked : pool.Asked
    · have quits := stops'.mpr asked
      simp only [quits, Bool.not_true, Bool.false_eq_true, ↓reduceIte]
      exact ⟨iff_of_true trivial ⟨asked, trivial⟩,
        fun _ => ⟨Option.some_ne_none _, trivial⟩, taken⟩
    · have going : ({ pool with quit := false }.runPass pass).quit = false :=
        Bool.eq_false_iff.mpr fun quits => asked (stops'.mp quits)
      simp only [going, Bool.not_true, Bool.false_eq_true, ↓reduceIte]
      have unasked {P : Prop} : pool.Asked → P := fun given => absurd given asked
      split
      · exact ⟨iff_of_false timeout_ne_quit fun both => asked both.1, unasked, taken⟩
      · obtain ⟨never, later⟩ := runPasses_not_quit start limit rest taken going
        exact ⟨iff_of_false never fun both => asked both.1, unasked, later⟩
  · rw [Bool.not_eq_true] at left
    simp only [left, Bool.not_false, ↓reduceIte]
    exact ⟨iff_of_false noEvents_ne_quit fun both => Bool.false_ne_true both.2,
      fun _ => ⟨Option.some_ne_none _, trivial⟩, taken⟩

/-! ## Whole histories -/

/-- Every loop of a history returned. -/
def Answered : List Op → Pool → Prop
  | [], _ => True
  | op :: rest, pool => (perform op pool).1 ≠ .running ∧ Answered rest (perform op pool).2

/-- Whether a request has been made since the last loop ran. -/
def asksQuit (history : List Op) : Bool :=
  history.foldl (fun asked op => match op with
    | .loopQuit => true
    | .run .. => false
    | _ => asked) false

theorem asksQuit_concat (history : List Op) (op : Op) :
    asksQuit (history ++ [op]) = match op with
      | .loopQuit => true
      | .run .. => false
      | _ => asksQuit history := by
  rw [asksQuit, List.foldl_concat, ← asksQuit]

theorem Answered.concat {history : List Op} (answered : Answered (history ++ [op]) pool) :
    Answered history pool ∧ (perform op (execute history pool)).1 ≠ .running ∧
      execute (history ++ [op]) pool = (perform op (execute history pool)).2 := by
  induction history generalizing pool with
  | nil =>
      refine ⟨trivial, answered.1, ?_⟩
      rw [List.nil_append, execute_cons answered.1]
      rfl
  | cons first history ih =>
      obtain ⟨before, last, executed⟩ := ih answered.2
      rw [execute_cons answered.1]
      refine ⟨⟨answered.1, before⟩, last, ?_⟩
      rw [List.cons_append, execute_cons answered.1]
      exact executed

/-- The channel holds a request exactly if one was made since the last loop ran. -/
theorem asked_iff {history : List Op} (answered : Answered history new) :
    (execute history new).Asked ↔ asksQuit history = true := by
  induction history using List.reverseRecOn with
  | nil => exact iff_of_false List.not_mem_nil Bool.false_ne_true
  | append_singleton history op ih =>
      obtain ⟨before, returned, executed⟩ := answered.concat
      rw [executed, asksQuit_concat]
      by_cases isRun : op.IsRun
      · cases op with
        | run timeout start passes =>
            cases passes with
            | nil => exact absurd rfl returned
            | cons pass rest =>
                exact iff_of_false (run_asked timeout start rest _ pass).2.2 Bool.false_ne_true
        | _ => exact isRun.elim
      · rw [perform_asked isRun, ih before]
        cases op with
        | run timeout start passes => exact absurd trivial isRun
        | loopQuit => exact iff_of_true (.inr rfl) rfl
        | _ => exact or_iff_left nofun

/-- **`loop_quit` stops the next loop, and no other.** After any history whose loops have
returned, a loop returns `Quit` exactly if `loop_quit` was called since the last loop ran
and an event is left after the first pass; a loop so asked ends with that pass in any case. -/
theorem loop_quit_exact (history : List Op) (answered : Answered history new) (pass : Pass) :
    let pool := execute history new
    ((pool.run timeout start (pass :: rest)).1 = some .quit ↔
        asksQuit history = true ∧ ({ pool with quit := false }.runPass pass).hasPending = true) ∧
      (asksQuit history = true → (pool.run timeout start [pass]).1 ≠ none ∧
        pool.run timeout start (pass :: rest) = pool.run timeout start [pass]) := by
  intro pool
  obtain ⟨quits, ends, _⟩ := run_asked timeout start rest pool pass
  rw [← asked_iff answered]
  exact ⟨quits, ends⟩

/-- Two requests before one loop stop that loop only. -/
theorem loop_quit_exact_twice :
    let history : List Op :=
      [.timerCreate 5 0, .loopQuit, .loopQuit, .run (-1) 0 [idlePass, idlePass]]
    let pool := execute history new
    ((pool.run (-1) 0 [idlePass, idlePass]).1 = some .quit ↔
        asksQuit history = true ∧ ({ pool with quit := false }.runPass idlePass).hasPending = true) ∧
      (asksQuit history = true → (pool.run (-1) 0 [idlePass]).1 ≠ none ∧
        pool.run (-1) 0 [idlePass, idlePass] = pool.run (-1) 0 [idlePass]) :=
  loop_quit_exact (-1) 0 [idlePass]
    [.timerCreate 5 0, .loopQuit, .loopQuit, .run (-1) 0 [idlePass, idlePass]]
    ⟨nofun, nofun, nofun, by decide, trivial⟩ idlePass

end Pool

end Wnr.Nsock
