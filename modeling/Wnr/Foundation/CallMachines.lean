import Mathlib.Data.List.Basic

/-! # Handles that answer calls

A handle answers one call after the other, and each call may change it. Two rules cover
whole runs: a handle that answers each call as a simpler one does answers all calls as it
does (`CallMachine.Simulates.answers`), and a register that some calls write holds what was
written last (`CallMachine.register`).
-/

namespace CallMachine

variable {State State' Call Answer Answer' Value : Type*}

/-- The answers to calls. -/
def answers (step : State → Call → Answer × State) : List Call → State → List Answer
  | [], _ => []
  | call :: rest, state => (step state call).1 :: answers step rest (step state call).2

/-- The handle after calls. -/
def after (step : State → Call → Answer × State) (calls : List Call) (state : State) : State :=
  calls.foldl (fun state call => (step state call).2) state

/-- The calls with their answers. -/
def exchanges (step : State → Call → Answer × State) (calls : List Call) (state : State) :
    List (Call × Answer) :=
  calls.zip (answers step calls state)

/-- Each call is answered, as far as the view tells, as by the related handle. -/
structure Simulates (step : State → Call → Answer × State) (step' : State' → Call → Answer' × State')
    (view : Answer → Answer') (related : State → State' → Prop) : Prop where
  answer : ∀ state state' call, related state state' →
    view (step state call).1 = (step' state' call).1
  related : ∀ state state' call, related state state' →
    related (step state call).2 (step' state' call).2

variable {step : State → Call → Answer × State} {step' : State' → Call → Answer' × State'}
  {view : Answer → Answer'} {related : State → State' → Prop}

/-- **Whole runs** are answered alike. -/
theorem Simulates.answers (simulates : Simulates step step' view related) {state : State}
    {state' : State'} (start : related state state') (calls : List Call) :
    (answers step calls state).map view = CallMachine.answers step' calls state' := by
  induction calls generalizing state state' with
  | nil => rfl
  | cons call rest ih =>
      have later := ih (simulates.related state state' call start)
      exact congrArg₂ List.cons (simulates.answer state state' call start) later

/-- **A register** holds what was written last, in states that an invariant keeps to. -/
theorem register (invariant : State → Prop) {read : State → Value}
    {writes : Call × Answer → Option Value}
    (kept : ∀ state call, invariant state → invariant (step state call).2)
    (written : ∀ state call, invariant state → read (step state call).2 =
      (writes (call, (step state call).1)).getD (read state))
    (calls : List Call) {state : State} (holds : invariant state) :
    read (after step calls state) =
      (((exchanges step calls state).filterMap writes).getLast?).getD (read state) := by
  induction calls generalizing state with
  | nil => rfl
  | cons call rest ih =>
      have later := ih (kept state call holds)
      have exchanged : exchanges step (call :: rest) state =
          (call, (step state call).1) :: exchanges step rest (step state call).2 := rfl
      rw [exchanged, List.filterMap_cons]
      refine later.trans ?_
      rw [written state call holds]
      cases writes (call, (step state call).1) with
      | none => rfl
      | some value => rw [Option.getD_some, List.getLast?_cons, Option.getD_some]

end CallMachine
