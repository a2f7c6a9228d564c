import Mathlib.Data.List.Count
import Mathlib.Data.List.Nodup
import Mathlib.Data.List.Perm.Basic

/-! # Lists of values under keys

A list of values, each under a key, is known up to its order once the values under each key
are known (`Grouping.perm_of_valuesOf`).
-/

namespace Grouping

variable {κ α : Type*} [DecidableEq κ]

/-- The values under a key. -/
def valuesOf (key : κ) (rows : List (κ × α)) : List α :=
  rows.filterMap fun row => if row.1 = key then some row.2 else none

theorem valuesOf_cons (key : κ) (row : κ × α) (rows : List (κ × α)) :
    valuesOf key (row :: rows) =
      if row.1 = key then row.2 :: valuesOf key rows else valuesOf key rows := by
  rw [valuesOf, List.filterMap_cons]
  split
  · rename_i other
    rw [ite_eq_right_iff] at other
    rw [if_neg fun same => Option.some_ne_none _ (other same)]
    rfl
  · rename_i value own
    rw [Option.ite_none_right_eq_some, Option.some.injEq] at own
    rw [if_pos own.1, own.2]
    rfl

theorem count_eq [DecidableEq α] (key : κ) (value : α) (rows : List (κ × α)) :
    rows.count (key, value) = (valuesOf key rows).count value := by
  induction rows with
  | nil => rfl
  | cons row rows ih =>
      obtain ⟨key', value'⟩ := row
      rw [valuesOf_cons, List.count_cons, ih]
      by_cases here : key' = key
      · rw [if_pos here, List.count_cons]
        simp only [here, beq_iff_eq, Prod.mk.injEq, true_and]
      · simp only [here, beq_iff_eq, Prod.mk.injEq, false_and, ↓reduceIte, Nat.add_zero]

/-- **Lists of the same values** under every key differ in their order only. -/
theorem perm_of_valuesOf [DecidableEq α] {first second : List (κ × α)}
    (same : ∀ key, valuesOf key first = valuesOf key second) : first.Perm second := by
  rw [List.perm_iff_count]
  intro row
  rw [count_eq, count_eq, same]

theorem valuesOf_append (key : κ) (first second : List (κ × α)) :
    valuesOf key (first ++ second) = valuesOf key first ++ valuesOf key second :=
  List.filterMap_append

theorem mem_valuesOf {key : κ} {value : α} {rows : List (κ × α)} :
    value ∈ valuesOf key rows ↔ (key, value) ∈ rows := by
  rw [valuesOf, List.mem_filterMap]
  constructor
  · intro found
    obtain ⟨row, member, own⟩ := found
    rw [Option.ite_none_right_eq_some, Option.some.injEq] at own
    rwa [← own.1, ← own.2]
  · intro member
    exact ⟨_, member, if_pos rfl⟩

/-- A key comes as often as there are values under it. -/
theorem count_keys (key : κ) (rows : List (κ × α)) :
    (rows.map Prod.fst).count key = (valuesOf key rows).length := by
  induction rows with
  | nil => rfl
  | cons row rows ih =>
      rw [List.map_cons, List.count_cons, valuesOf_cons, ih]
      by_cases here : row.1 = key
      · simp only [here, beq_self_eq_true, ↓reduceIte, List.length_cons]
      · simp only [here, beq_iff_eq, ↓reduceIte, Nat.add_zero]

theorem valuesOf_eq_nil {key : κ} {rows : List (κ × α)} (absent : ∀ row ∈ rows, row.1 ≠ key) :
    valuesOf key rows = [] := by
  rw [valuesOf, List.filterMap_eq_nil_iff]
  intro row member
  exact if_neg (absent row member)

/-- One value under each of some keys. -/
theorem valuesOf_map {keys : List κ} (distinct : keys.Nodup) (value : κ → α) (key : κ) :
    valuesOf key (keys.map fun key => (key, value key)) = if key ∈ keys then [value key] else [] := by
  induction keys with
  | nil => rfl
  | cons first keys ih =>
      obtain ⟨new, distinct⟩ := List.nodup_cons.mp distinct
      rw [List.map_cons, valuesOf_cons, ih distinct]
      by_cases here : first = key
      · subst here
        rw [if_pos rfl, if_neg new, if_pos List.mem_cons_self]
      · have same : key ∈ first :: keys ↔ key ∈ keys :=
          ⟨fun member => (List.mem_cons.mp member).resolve_left (Ne.symm here),
            List.mem_cons_of_mem first⟩
        rw [if_neg here]
        simp only [same]

end Grouping
