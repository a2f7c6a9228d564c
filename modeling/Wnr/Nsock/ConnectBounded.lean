import Wnr.Nsock.Pool

/-! # The threads that connect

The helper thread of a connect tries until it has a stream or its deadline has come, with a
small backoff after each failure. It answers with the first success before the deadline, and
with an error only once the deadline has come (`Wnr.Nsock.connectBounded_eq_some_iff`); no
failure makes it give up earlier, and it does come to an end
(`Wnr.Nsock.connectBounded_returns`).
-/

namespace Wnr.Nsock

open Net

/-- What a connect fails with: what the last attempt failed with, or that no attempt was
made. -/
inductive ConnectError where
  | os (code : Int)
  /-- "connect timeout" -/
  | timedOut
deriving DecidableEq

/-- One turn of the loop of attempts. -/
structure Try where
  /-- The clock, read by the condition of the loop. -/
  now : Instant
  /-- The clock, read for the time that remains. -/
  asked : Instant
  /-- What `connect_timeout` comes to: a stream with its peer, or an error. -/
  outcome : Except ConnectError (Option SocketAddr)
deriving DecidableEq

namespace Try

variable (self : Try) (deadline : Instant)

/-- The time that `connect_timeout` is given. -/
def remaining : Nat := deadline - self.asked

/-- A turn that tries and fails. -/
def Fails : Prop := self.now < deadline ∧ ∃ error, self.outcome = .error error

/-- The error of a turn. -/
def error? : Option ConnectError :=
  match self.outcome with
  | .ok _ => none
  | .error error => some error

end Try

/-- Connect, retrying until the deadline; none when the thread is still going after all of
the turns. -/
def connectBounded (deadline : Instant) (lastErr : Option ConnectError) :
    List Try → Option (Except ConnectError (Option SocketAddr))
  | [] => none
  | turn :: rest =>
      if turn.now < deadline then
        match turn.outcome with
        | .ok stream => some (.ok stream)
        -- small backoff before retry to avoid thundering herd
        | .error error => connectBounded deadline (some error) rest
      else some (.error (lastErr.getD .timedOut))

/-- How the loop of attempts ends: the turns before the last fail, and the last one succeeds
or finds that the deadline has come. -/
structure Ended (deadline : Instant) (lastErr : Option ConnectError) (earlier : List Try)
    (last : Try) (result : Except ConnectError (Option SocketAddr)) : Prop where
  failed : ∀ turn ∈ earlier, turn.Fails deadline
  ended : last.now < deadline ∧ (∃ stream, last.outcome = .ok stream ∧ result = .ok stream) ∨
    deadline ≤ last.now ∧
      result = .error (((earlier.getLast?.bind Try.error?).or lastErr).getD .timedOut)

variable {deadline : Instant} {lastErr : Option ConnectError} {turn next last : Try}
  {earlier rest turns : List Try} {result : Except ConnectError (Option SocketAddr)} {late : Nat}

theorem connectBounded_of_late (come : deadline ≤ turn.now) :
    connectBounded deadline lastErr (turn :: rest) =
      some (.error (lastErr.getD .timedOut)) := by
  rw [connectBounded, if_neg (Nat.not_lt.mpr come)]

theorem connectBounded_of_ok {stream : Option SocketAddr} (early : turn.now < deadline)
    (opened : turn.outcome = .ok stream) :
    connectBounded deadline lastErr (turn :: rest) = some (.ok stream) := by
  rw [connectBounded, if_pos early, opened]

theorem connectBounded_of_error {error : ConnectError} (early : turn.now < deadline)
    (refused : turn.outcome = .error error) :
    connectBounded deadline lastErr (turn :: rest) = connectBounded deadline (some error) rest := by
  rw [connectBounded, if_pos early, refused]

/-- The error of the turn just before, or of one further back. -/
theorem lastError_cons {error : ConnectError} (refused : turn.outcome = .error error)
    (failed : ∀ turn ∈ earlier, turn.Fails deadline) :
    ((turn :: earlier).getLast?.bind Try.error?).or lastErr =
      (earlier.getLast?.bind Try.error?).or (some error) := by
  cases earlier using List.reverseRecOn with
  | nil => simp only [List.getLast?_singleton, Option.bind_some, Try.error?, refused,
      Option.some_or, List.getLast?_nil, Option.bind_none, Option.none_or]
  | append_singleton earlier last =>
      obtain ⟨-, other, refused'⟩ := failed last List.mem_concat_self
      rw [← List.cons_append, List.getLast?_concat, List.getLast?_concat, Option.bind_some,
        Try.error?, refused']
      rfl

theorem Ended.cons {error : ConnectError} (fails : turn.now < deadline)
    (refused : turn.outcome = .error error)
    (ended : Ended deadline (some error) earlier last result) :
    Ended deadline lastErr (turn :: earlier) last result where
  failed := List.forall_mem_cons.mpr ⟨⟨fails, error, refused⟩, ended.failed⟩
  ended := by
    rw [lastError_cons refused ended.failed]
    exact ended.ended

theorem Ended.answers (ended : Ended deadline lastErr earlier last result) (later : List Try) :
    connectBounded deadline lastErr (earlier ++ last :: later) = some result := by
  induction earlier generalizing lastErr with
  | nil =>
      rcases ended.ended with ⟨early, stream, opened, rfl⟩ | ⟨come, rfl⟩
      · exact connectBounded_of_ok early opened
      · exact connectBounded_of_late come
  | cons turn earlier ih =>
      obtain ⟨⟨early, error, refused⟩, failed⟩ := List.forall_mem_cons.mp ended.failed
      have last := ended.ended
      rw [lastError_cons refused failed] at last
      rw [List.cons_append, connectBounded_of_error early refused]
      exact ih ⟨failed, last⟩

theorem exists_ended (answered : connectBounded deadline lastErr turns = some result) :
    ∃ earlier last later, turns = earlier ++ last :: later ∧
      Ended deadline lastErr earlier last result := by
  induction turns generalizing lastErr with
  | nil => cases answered
  | cons turn rest ih =>
      rcases Nat.lt_or_ge turn.now deadline with early | come
      · cases outcome : turn.outcome with
        | ok stream =>
            rw [connectBounded_of_ok early outcome, Option.some.injEq] at answered
            have last : Ended deadline lastErr [] turn result :=
              ⟨nofun, .inl ⟨early, stream, outcome, answered.symm⟩⟩
            exact ⟨[], turn, rest, rfl, last⟩
        | error error =>
            rw [connectBounded_of_error early outcome] at answered
            obtain ⟨earlier, last, later, rfl, ended⟩ := ih answered
            exact ⟨turn :: earlier, last, later, rfl, ended.cons early outcome⟩
      · rw [connectBounded_of_late come, Option.some.injEq] at answered
        exact ⟨[], turn, rest, rfl, nofun, .inr ⟨come, answered.symm⟩⟩

/-- **What the loop of attempts answers.** It answers with the stream of the first attempt
that succeeds, if it begins before the deadline, and with the error of the last attempt once
a turn finds that the deadline has come. -/
theorem connectBounded_eq_some_iff :
    connectBounded deadline none turns = some result ↔
      ∃ earlier last later, turns = earlier ++ last :: later ∧
        Ended deadline none earlier last result := by
  constructor
  · exact exists_ended
  · rintro ⟨earlier, last, later, rfl, ended⟩
    exact ended.answers later

/-- A thread fails only once its deadline has come. -/
theorem exists_late_of_error {error : ConnectError}
    (answered : connectBounded deadline lastErr turns = some (.error error)) :
    ∃ turn ∈ turns, deadline ≤ turn.now := by
  obtain ⟨earlier, last, later, rfl, ended⟩ := exists_ended answered
  rcases ended.ended with ⟨-, stream, -, other⟩ | ⟨come, -⟩
  · cases other
  · exact ⟨last, List.mem_append_right _ List.mem_cons_self, come⟩

/-! ## The end of the loop -/

/-- The next turn comes after the backoff of a turn that failed. `connect_timeout` gives up
once the time it was given is over; each call comes back `late` too late at most. -/
structure Try.Follows (deadline : Instant) (late : Nat) (turn next : Try) : Prop where
  started : turn.now ≤ turn.asked ∧ turn.asked ≤ turn.now + late
  waited : ∃ failed, turn.asked ≤ failed ∧
    failed ≤ turn.asked + turn.remaining deadline + late ∧
    failed + millis 10 ≤ next.now ∧ next.now ≤ failed + millis 10 + late

/-- The turns follow one another. -/
def TurnsFollow (deadline : Instant) (late : Nat) : List Try → Prop :=
  List.IsChain (Try.Follows deadline late)

theorem add_gaps {first second last gap count : Nat} (step : first + gap ≤ second)
    (steps : second + gap * count ≤ last) : first + gap * (count + 1) ≤ last := by
  rw [Nat.mul_succ]
  omega

/-- A backoff is between any two turns. -/
theorem length_of_follow {first : Try} (follow : TurnsFollow deadline late (first :: rest)) :
    first.now + millis 10 * rest.length ≤ (rest.getLastD first).now := by
  induction rest generalizing first with
  | nil => exact le_rfl
  | cons next rest ih =>
      obtain ⟨follows, follow⟩ := List.isChain_cons_cons.mp follow
      obtain ⟨failed, tried, -, waited, -⟩ := follows.waited
      have step : first.now + millis 10 ≤ next.now :=
        (Nat.add_le_add_right (follows.started.1.trans tried) _).trans waited
      rw [List.getLastD_cons, List.length_cons]
      exact add_gaps step (ih follow)

theorem le_after_backoff {deadline now asked failed next gap late : Nat} (early : now < deadline)
    (started : asked ≤ now + late) (tried : failed ≤ asked + (deadline - asked) + late)
    (waited : next ≤ failed + gap + late) : next ≤ deadline + gap + 3 * late := by
  omega

/-- The turn after one that begins before the deadline is not much later than it. -/
theorem Try.Follows.now_le (follows : turn.Follows deadline late next)
    (early : turn.now < deadline) : next.now ≤ deadline + millis 10 + 3 * late := by
  obtain ⟨failed, -, tried, -, waited⟩ := follows.waited
  exact le_after_backoff early follows.started.2 tried waited

/-- The loop goes on after turns that fail. -/
theorem fails_of_ongoing (ongoing : connectBounded deadline lastErr turns = none) :
    ∀ turn ∈ turns, turn.Fails deadline := by
  induction turns generalizing lastErr with
  | nil => exact nofun
  | cons turn rest ih =>
      rcases Nat.lt_or_ge turn.now deadline with early | come
      · cases outcome : turn.outcome with
        | ok stream =>
            rw [connectBounded_of_ok early outcome] at ongoing
            cases ongoing
        | error error =>
            rw [connectBounded_of_error early outcome] at ongoing
            exact List.forall_mem_cons.mpr ⟨⟨early, error, outcome⟩, ih ongoing⟩
      · rw [connectBounded_of_late come] at ongoing
        cases ongoing

/-- The turns up to the last one of a loop. -/
theorem now_le_of_ended {first : Try} (follow : TurnsFollow deadline late (first :: rest))
    (split : first :: rest = earlier ++ last :: turns)
    (failed : ∀ turn ∈ earlier, turn.Fails deadline) :
    last.now ≤ max first.now (deadline + millis 10 + 3 * late) := by
  induction earlier generalizing first rest with
  | nil =>
      obtain rfl := (List.cons.inj split).1
      exact Nat.le_max_left _ _
  | cons turn earlier ih =>
      obtain ⟨rfl, later⟩ := List.cons.inj split
      obtain ⟨fails, failed⟩ := List.forall_mem_cons.mp failed
      cases rest with
      | nil => exact absurd later.symm (List.append_ne_nil_of_right_ne_nil _ (List.cons_ne_nil _ _))
      | cons next rest =>
          obtain ⟨follows, follow⟩ := List.isChain_cons_cons.mp follow
          have near := follows.now_le fails.1
          exact le_max_of_le_right ((ih follow later failed).trans (max_le near le_rfl))

/-- **The thread comes to an end.** It makes no more attempts than one for each ten
milliseconds up to the deadline and one more, and its last turn is not much later than the
deadline. -/
theorem connectBounded_returns {first : Try} (follow : TurnsFollow deadline late (first :: rest))
    (long : deadline ≤ first.now + millis 10 * rest.length) :
    ∃ earlier last later result, first :: rest = earlier ++ last :: later ∧
      connectBounded deadline none (first :: rest) = some result ∧
      Ended deadline none earlier last result ∧
      last.now ≤ max first.now (deadline + millis 10 + 3 * late) := by
  cases answered : connectBounded deadline none (first :: rest) with
  | none =>
      have failed := fails_of_ongoing answered
      have early := (failed (rest.getLastD first) (List.getLastD_mem_cons ..)).1
      exact absurd (long.trans (length_of_follow follow)) (Nat.not_le.mpr early)
  | some result =>
      obtain ⟨earlier, last, later, split, ended⟩ := exists_ended answered
      exact ⟨earlier, last, later, result, split, rfl, ended,
        now_le_of_ended follow split ended.failed⟩

/-- Two attempts that are refused, and the deadline. -/
def refusals : List Try :=
  [⟨millis 5, millis 5, .error (.os 111)⟩, ⟨millis 15, millis 15, .error (.os 111)⟩,
    ⟨millis 25, millis 25, .error (.os 111)⟩]

theorem connectBounded_returns_refused : ∃ earlier last later result,
    refusals = earlier ++ last :: later ∧
      connectBounded (millis 20) none refusals = some result ∧
      Ended (millis 20) none earlier last result ∧
      last.now ≤ max (millis 5) (millis 20 + millis 10 + 3 * 0) := by
  apply connectBounded_returns _ (by decide)
  refine .cons_cons ⟨by decide, millis 5, by decide, by decide, by decide, by decide⟩ ?_
  refine .cons_cons ⟨by decide, millis 15, by decide, by decide, by decide, by decide⟩ ?_
  exact .singleton _

end Wnr.Nsock
