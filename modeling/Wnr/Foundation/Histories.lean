import Mathlib.Data.List.Infix

/-! # Histories of operations

A history is a list of operations that are performed one after the other. A
condition on each operation, read in the state just before it, may restrict a
history (`History.Along`); what the operations under the condition preserve holds
in every state reached (`History.invariant`).
-/

namespace History

variable {State Op : Type*} {perform : State → Op → State} {guard : State → Op → Prop}

/-- The condition holds of each operation of a history. -/
def Along (perform : State → Op → State) (guard : State → Op → Prop) : List Op → State → Prop
  | [], _ => True
  | op :: rest, state => guard state op ∧ Along perform guard rest (perform state op)

instance decidableAlong [∀ state op, Decidable (guard state op)] :
    ∀ (ops : List Op) (state : State), Decidable (Along perform guard ops state)
  | [], _ => .isTrue trivial
  | op :: rest, state =>
      have := decidableAlong rest (perform state op)
      inferInstanceAs (Decidable (_ ∧ _))

variable {state : State} {ops earlier later : List Op}

theorem along_append :
    Along perform guard (earlier ++ later) state ↔
      Along perform guard earlier state ∧
        Along perform guard later (earlier.foldl perform state) := by
  induction earlier generalizing state with
  | nil => exact (and_iff_right trivial).symm
  | cons op earlier ih =>
      rw [List.cons_append, Along, ih, Along, and_assoc]
      rfl

theorem Along.of_prefix (along : Along perform guard ops state) (first : earlier <+: ops) :
    Along perform guard earlier state := by
  obtain ⟨later, rfl⟩ := first
  exact (along_append.mp along).1

/-- A history that ends with an operation. -/
theorem along_concat {op : Op} :
    Along perform guard (ops ++ [op]) state ↔
      Along perform guard ops state ∧ guard (ops.foldl perform state) op := by
  rw [along_append]
  exact and_congr_right fun _ => and_iff_left trivial

/-- What the operations under the condition preserve holds at the end. -/
theorem invariant {property : State → Prop} (along : Along perform guard ops state)
    (initially : property state)
    (preserved : ∀ state op, property state → guard state op → property (perform state op)) :
    property (ops.foldl perform state) := by
  induction ops generalizing state with
  | nil => exact initially
  | cons op ops ih => exact ih along.2 (preserved state op initially along.1)

/-- The condition holds all along a history when it holds after every part of it. -/
theorem along_of_forall
    (conditions : ∀ earlier op, earlier ++ [op] <+: ops → guard (earlier.foldl perform state) op) :
    Along perform guard ops state := by
  induction ops using List.reverseRecOn with
  | nil => exact trivial
  | append_singleton ops op ih =>
      refine along_concat.mpr ⟨ih fun earlier op' first => ?_, conditions ops op List.prefix_rfl⟩
      exact conditions earlier op' (first.trans (List.prefix_append ops [op]))

end History
