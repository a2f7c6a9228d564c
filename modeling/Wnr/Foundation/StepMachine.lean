import Mathlib.Logic.Relation

/-! # Deterministic step machines

A machine is a function that takes a state to a next state, to a returned value,
or to an abort. Runs are bounded by fuel; a run that has neither returned nor
aborted when the fuel ends reports the state it stands in. Three rules cover
whole runs: a rank that grows at every step bounds their length
(`StepMachine.runFor_not_next_of_rank`), an invariant of the steps holds at
every reached state (`StepMachine.Reaches.invariant`), and two machines that
agree at every state one of them reaches have equal runs
(`StepMachine.runFor_map_eq_iff`).
-/

/-- What one step of a machine does. -/
inductive StepResult (State Value : Type*) where
  | next (state : State)
  | halt (value : Value)
  | abort
deriving DecidableEq, Repr

namespace StepResult

variable {State Value State' Value' : Type*}

/-- Translate the state and the value of a result. -/
def map (onState : State → State') (onValue : Value → Value') :
    StepResult State Value → StepResult State' Value'
  | .next state => .next (onState state)
  | .halt value => .halt (onValue value)
  | .abort => .abort

variable (onState : State → State') (onValue : Value → Value')

@[simp] theorem map_next (state : State) :
    (StepResult.next state : StepResult State Value).map onState onValue =
      .next (onState state) := rfl

@[simp] theorem map_halt (value : Value) :
    (StepResult.halt value : StepResult State Value).map onState onValue =
      .halt (onValue value) := rfl

@[simp] theorem map_abort :
    (StepResult.abort : StepResult State Value).map onState onValue = .abort := rfl

theorem map_eq_next {result : StepResult State Value} {after : State'}
    (mapped : result.map onState onValue = .next after) :
    ∃ state, result = .next state ∧ onState state = after := by
  cases result with
  | next state => exact ⟨state, rfl, StepResult.next.inj mapped⟩
  | halt value => cases mapped
  | abort => cases mapped

theorem map_eq_halt {result : StepResult State Value} {value' : Value'}
    (mapped : result.map onState onValue = .halt value') :
    ∃ value, result = .halt value ∧ onValue value = value' := by
  cases result with
  | next state => cases mapped
  | halt value => exact ⟨value, rfl, StepResult.halt.inj mapped⟩
  | abort => cases mapped

end StepResult

namespace StepMachine

variable {State Value : Type*} (step : State → StepResult State Value)

/-- Run at most `fuel` steps. -/
def runFor : Nat → State → StepResult State Value
  | 0, state => .next state
  | fuel + 1, state =>
      match step state with
      | .next after => runFor fuel after
      | .halt value => .halt value
      | .abort => .abort

/-- The states a run from `start` passes through. -/
def Reaches (start state : State) : Prop :=
  Relation.ReflTransGen (fun before after => step before = .next after) start state

/-- A run from `start` ends with `value`. -/
def Returns (start : State) (value : Value) : Prop := ∃ fuel, runFor step fuel start = .halt value

@[simp] theorem runFor_zero (state : State) : runFor step 0 state = .next state := rfl

variable {step}

theorem runFor_succ_of_next {state after : State} (stepped : step state = .next after)
    (fuel : Nat) : runFor step (fuel + 1) state = runFor step fuel after := by
  simp only [runFor, stepped]

theorem runFor_succ_of_halt {state : State} {value : Value} (stepped : step state = .halt value)
    (fuel : Nat) : runFor step (fuel + 1) state = .halt value := by
  simp only [runFor, stepped]

theorem runFor_succ_of_abort {state : State} (stepped : step state = .abort) (fuel : Nat) :
    runFor step (fuel + 1) state = .abort := by
  simp only [runFor, stepped]

/-- The last step of a run that was still going is a step of the machine. -/
theorem runFor_succ_last {fuel : Nat} {start state : State}
    (running : runFor step fuel start = .next state) :
    runFor step (fuel + 1) start = step state := by
  induction fuel generalizing start with
  | zero =>
      obtain rfl := StepResult.next.inj running
      cases stepped : step start with
      | next after => exact runFor_succ_of_next stepped 0
      | halt value => exact runFor_succ_of_halt stepped 0
      | abort => exact runFor_succ_of_abort stepped 0
  | succ fuel ih =>
      cases stepped : step start with
      | next after =>
          rw [runFor_succ_of_next stepped] at running ⊢
          exact ih running
      | halt value => rw [runFor_succ_of_halt stepped] at running; cases running
      | abort => rw [runFor_succ_of_abort stepped] at running; cases running

/-- More fuel does not change a returned value. -/
theorem runFor_halt_mono {fuel more : Nat} {start : State} {value : Value}
    (returned : runFor step fuel start = .halt value) (le : fuel ≤ more) :
    runFor step more start = .halt value := by
  induction fuel generalizing start more with
  | zero => cases returned
  | succ fuel ih =>
      obtain ⟨rest, rfl⟩ : ∃ rest, more = rest + 1 := ⟨more - 1, by omega⟩
      cases stepped : step start with
      | next after =>
          rw [runFor_succ_of_next stepped] at returned ⊢
          exact ih returned (by omega)
      | halt other =>
          rw [runFor_succ_of_halt stepped] at returned ⊢
          exact returned
      | abort => rw [runFor_succ_of_abort stepped] at returned; cases returned

/-- A run returns at most one value. -/
theorem Returns.unique {start : State} {first second : Value} (left : Returns step start first)
    (right : Returns step start second) : first = second := by
  obtain ⟨fuel, returned⟩ := left
  obtain ⟨fuel', returned'⟩ := right
  have early := runFor_halt_mono returned (Nat.le_max_left fuel fuel')
  have late := runFor_halt_mono returned' (Nat.le_max_right fuel fuel')
  exact StepResult.halt.inj (early.symm.trans late)

theorem Reaches.refl (start : State) : Reaches step start start := Relation.ReflTransGen.refl

theorem Reaches.tail {start state after : State} (reached : Reaches step start state)
    (stepped : step state = .next after) : Reaches step start after :=
  Relation.ReflTransGen.tail reached stepped

theorem Reaches.head {start after state : State} (stepped : step start = .next after)
    (reached : Reaches step after state) : Reaches step start state :=
  Relation.ReflTransGen.head stepped reached

/-- A property of the start that every step preserves holds at every reached state. -/
theorem Reaches.invariant {start state : State} (reached : Reaches step start state)
    (property : State → Prop) (initially : property start)
    (preserved : ∀ before after, property before → step before = .next after → property after) :
    property state := by
  induction reached with
  | refl => exact initially
  | tail _ stepped ih => exact preserved _ _ ih stepped

theorem reaches_of_runFor {fuel : Nat} {start state : State}
    (running : runFor step fuel start = .next state) : Reaches step start state := by
  induction fuel generalizing start with
  | zero => cases running; exact .refl _
  | succ fuel ih =>
      cases stepped : step start with
      | next after =>
          rw [runFor_succ_of_next stepped] at running
          exact (ih running).head stepped
      | halt value => rw [runFor_succ_of_halt stepped] at running; cases running
      | abort => rw [runFor_succ_of_abort stepped] at running; cases running

theorem runFor_of_reaches {start state : State} (reached : Reaches step start state) :
    ∃ fuel, runFor step fuel start = .next state := by
  induction reached with
  | refl => exact ⟨0, rfl⟩
  | tail _ stepped ih =>
      obtain ⟨fuel, running⟩ := ih
      exact ⟨fuel + 1, (runFor_succ_last running).trans stepped⟩

/-- A run that comes to a state whose step returns ends with what that step returns. -/
theorem Reaches.returns {start state : State} {value : Value} (reached : Reaches step start state)
    (stepped : step state = .halt value) : Returns step start value := by
  obtain ⟨fuel, running⟩ := runFor_of_reaches reached
  exact ⟨fuel + 1, (runFor_succ_last running).trans stepped⟩

theorem runFor_succ_eq_next {fuel : Nat} {start state : State}
    (running : runFor step (fuel + 1) start = .next state) :
    ∃ last, runFor step fuel start = .next last ∧ step last = .next state := by
  induction fuel generalizing start with
  | zero =>
      cases stepped : step start with
      | next after =>
          rw [runFor_succ_of_next stepped] at running
          cases running
          exact ⟨start, rfl, stepped⟩
      | halt value => rw [runFor_succ_of_halt stepped] at running; cases running
      | abort => rw [runFor_succ_of_abort stepped] at running; cases running
  | succ fuel ih =>
      cases stepped : step start with
      | next after =>
          rw [runFor_succ_of_next stepped] at running ⊢
          exact ih running
      | halt value => rw [runFor_succ_of_halt stepped] at running; cases running
      | abort => rw [runFor_succ_of_abort stepped] at running; cases running

/-- An aborted run aborts in a state it reached. -/
theorem exists_step_of_abort {fuel : Nat} {start : State}
    (aborted : runFor step fuel start = .abort) :
    ∃ state, Reaches step start state ∧ step state = .abort := by
  induction fuel generalizing start with
  | zero => cases aborted
  | succ fuel ih =>
      cases stepped : step start with
      | next after =>
          rw [runFor_succ_of_next stepped] at aborted
          obtain ⟨state, reached, last⟩ := ih aborted
          exact ⟨state, reached.head stepped, last⟩
      | halt value => rw [runFor_succ_of_halt stepped] at aborted; cases aborted
      | abort => exact ⟨start, .refl _, stepped⟩

/-- A returned value is returned by a step in a state that the run reached. -/
theorem exists_step_of_halt {fuel : Nat} {start : State} {value : Value}
    (returned : runFor step fuel start = .halt value) :
    ∃ state, Reaches step start state ∧ step state = .halt value := by
  induction fuel generalizing start with
  | zero => cases returned
  | succ fuel ih =>
      cases stepped : step start with
      | next after =>
          rw [runFor_succ_of_next stepped] at returned
          obtain ⟨state, reached, last⟩ := ih returned
          exact ⟨state, reached.head stepped, last⟩
      | halt other =>
          rw [runFor_succ_of_halt stepped] at returned
          exact ⟨start, .refl _, stepped.trans returned⟩
      | abort => rw [runFor_succ_of_abort stepped] at returned; cases returned

section Rank

variable {start : State} (rank : State → Nat)

/-- While every step of a run raises the rank, the rank counts the steps. -/
theorem add_le_rank
    (grows : ∀ state, Reaches step start state → ∀ after, step state = .next after →
      rank state < rank after)
    {fuel : Nat} {state : State} (running : runFor step fuel start = .next state) :
    rank start + fuel ≤ rank state := by
  induction fuel generalizing start with
  | zero => cases running; simp only [Nat.add_zero, Nat.le_refl]
  | succ fuel ih =>
      cases stepped : step start with
      | next after =>
          rw [runFor_succ_of_next stepped] at running
          have first := grows start (.refl start) after stepped
          have rest := ih (fun mid reached => grows mid (reached.head stepped)) running
          omega
      | halt value => rw [runFor_succ_of_halt stepped] at running; cases running
      | abort => rw [runFor_succ_of_abort stepped] at running; cases running

/-- When every step raises the rank and is taken below `bound`, a run has
stopped once its fuel exceeds the distance to `bound`. -/
theorem runFor_not_next_of_rank {bound : Nat}
    (grows : ∀ state, Reaches step start state → ∀ after, step state = .next after →
      rank state < rank after)
    (below : ∀ state, Reaches step start state → ∀ after, step state = .next after →
      rank state < bound)
    {fuel : Nat} (enough : bound ≤ rank start + fuel) (state : State) :
    runFor step (fuel + 1) start ≠ .next state := by
  intro running
  obtain ⟨last, before, stepped⟩ := runFor_succ_eq_next running
  have counted := add_le_rank rank grows before
  have bounded := below last (reaches_of_runFor before) state stepped
  omega

end Rank

section Agreement

variable {State' Value' : Type*} {step' : State' → StepResult State' Value'}
  (onState : State → State') (onValue : Value → Value')

/-- Machines that agree at every state the second one reaches have equal runs. -/
theorem runFor_map_of_agree {start : State}
    (agree : ∀ state, Reaches step' (onState start) (onState state) →
      (step state).map onState onValue = step' (onState state)) (fuel : Nat) :
    (runFor step fuel start).map onState onValue = runFor step' fuel (onState start) := by
  induction fuel generalizing start with
  | zero => rfl
  | succ fuel ih =>
      have here := agree start (.refl _)
      cases stepped : step start with
      | next after =>
          rw [stepped, StepResult.map_next] at here
          rw [runFor_succ_of_next stepped, runFor_succ_of_next here.symm]
          exact ih fun state reached => agree state (reached.head here.symm)
      | halt value =>
          rw [stepped, StepResult.map_halt] at here
          rw [runFor_succ_of_halt stepped, runFor_succ_of_halt here.symm, StepResult.map_halt]
      | abort =>
          rw [stepped, StepResult.map_abort] at here
          rw [runFor_succ_of_abort stepped, runFor_succ_of_abort here.symm, StepResult.map_abort]

/-- Machines whose runs agree for every amount of fuel agree at every state
the second one reaches. -/
theorem agree_of_runFor_map (faithful : Function.Injective onState) {start : State}
    (same : ∀ fuel, (runFor step fuel start).map onState onValue =
      runFor step' fuel (onState start))
    {state : State} (reached : Reaches step' (onState start) (onState state)) :
    (step state).map onState onValue = step' (onState state) := by
  obtain ⟨fuel, running'⟩ := runFor_of_reaches reached
  obtain ⟨other, running, equal⟩ :=
    StepResult.map_eq_next onState onValue ((same fuel).trans running')
  obtain rfl := faithful equal
  rw [← runFor_succ_last running, ← runFor_succ_last running']
  exact same (fuel + 1)

/-- Two machines have equal runs exactly when they agree at every state one of
them reaches. -/
theorem runFor_map_eq_iff (faithful : Function.Injective onState) (start : State) :
    (∀ fuel, (runFor step fuel start).map onState onValue =
      runFor step' fuel (onState start)) ↔
    ∀ state, Reaches step' (onState start) (onState state) →
      (step state).map onState onValue = step' (onState state) :=
  ⟨fun same _ reached => agree_of_runFor_map onState onValue faithful same reached,
    runFor_map_of_agree onState onValue⟩

end Agreement

end StepMachine
