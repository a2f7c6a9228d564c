import Mathlib.Logic.Relation

/-! # Systems of guarded actions

A system changes its state by actions, each of them allowed in some states only.
`ActionSystem.Steps` relates the states between which allowed actions lead. A
property that every allowed action preserves holds in every state that is reached
(`ActionSystem.Steps.invariant`).
-/

namespace ActionSystem

variable {State Action : Type*} {act : State → Action → State}
  {guard guard' : State → Action → Prop} {first second third : State}

/-- Allowed actions lead from the one state to the other. -/
def Steps (act : State → Action → State) (guard : State → Action → Prop) : State → State → Prop :=
  Relation.ReflTransGen fun before after => ∃ action, guard before action ∧ act before action = after

theorem Steps.refl (state : State) : Steps act guard state state := Relation.ReflTransGen.refl

theorem Steps.single {action : Action} (allowed : guard first action) :
    Steps act guard first (act first action) :=
  Relation.ReflTransGen.single ⟨action, allowed, rfl⟩

theorem Steps.trans (left : Steps act guard first second) (right : Steps act guard second third) :
    Steps act guard first third :=
  Relation.ReflTransGen.trans left right

/-- Weaker guards allow more. -/
theorem Steps.mono (weaker : ∀ state action, guard state action → guard' state action)
    (steps : Steps act guard first second) : Steps act guard' first second := by
  induction steps with
  | refl => exact .refl _
  | tail _ moved ih =>
      obtain ⟨action, allowed, rfl⟩ := moved
      exact ih.trans (.single (weaker _ _ allowed))

/-- A property of the start that every allowed action preserves holds at the end. -/
theorem Steps.invariant (steps : Steps act guard first second) (property : State → Prop)
    (initially : property first)
    (preserved : ∀ state action, property state → guard state action →
      property (act state action)) :
    property second := by
  induction steps with
  | refl => exact initially
  | tail _ moved ih =>
      obtain ⟨action, allowed, rfl⟩ := moved
      exact preserved _ _ ih allowed

end ActionSystem
