import Mathlib.Data.List.MinMax

/-! # The best element of a list

The element with the greatest key, the last one where several have it. Lists with
the same elements, no two of one key, have the same best element
(`BestMatch.maxByKey_congr`).
-/

namespace BestMatch

variable {α κ : Type*} [LinearOrder κ]

/-- Among the candidates no key is greater than that of the element. -/
structure IsBest (candidates : Set α) (key : α → κ) (best : α) : Prop where
  candidate : best ∈ candidates
  greatest : ∀ other ∈ candidates, key other ≤ key best

/-- `Iterator::max_by_key`. -/
def maxByKey (key : α → κ) (elements : List α) : Option α := elements.reverse.argmax key

variable {key : α → κ} {elements elements' : List α}

theorem isBest_of_maxByKey {best : α} (found : maxByKey key elements = some best) :
    IsBest {a | a ∈ elements} key best where
  candidate := List.mem_reverse.mp (List.argmax_mem found)
  greatest := fun _ member => List.le_of_mem_argmax (List.mem_reverse.mpr member) found

theorem maxByKey_eq_none_iff : maxByKey key elements = none ↔ elements = [] := by
  rw [maxByKey, List.argmax_eq_none, List.reverse_eq_nil_iff]

theorem isSome_maxByKey_iff : (maxByKey key elements).isSome ↔ ∃ a, a ∈ elements := by
  rw [Option.isSome_iff_ne_none, ne_eq, maxByKey_eq_none_iff, List.eq_nil_iff_forall_not_mem,
    not_forall_not]

/-- The best element does not depend on the order of elements with different keys. -/
theorem maxByKey_congr (same : ∀ a, a ∈ elements ↔ a ∈ elements')
    (distinct : ∀ a ∈ elements, ∀ b ∈ elements, key a = key b → a = b) :
    maxByKey key elements = maxByKey key elements' := by
  cases found : maxByKey key elements with
  | none =>
      have empty := maxByKey_eq_none_iff.mp found
      have empty' : elements' = [] := by
        apply List.eq_nil_iff_forall_not_mem.mpr
        intro a member
        rw [← same, empty] at member
        cases member
      exact (maxByKey_eq_none_iff.mpr empty').symm
  | some best =>
      have isBest := isBest_of_maxByKey found
      cases found' : maxByKey key elements' with
      | none =>
          have member := (same best).mp isBest.candidate
          rw [maxByKey_eq_none_iff.mp found'] at member
          cases member
      | some best' =>
          have isBest' := isBest_of_maxByKey found'
          have member := (same best').mpr isBest'.candidate
          have equal := le_antisymm (isBest'.greatest best ((same best).mp isBest.candidate))
            (isBest.greatest best' member)
          rw [distinct best isBest.candidate best' member equal]

theorem maxByKey_cons (a : α) (rest : List α) :
    maxByKey key (a :: rest) =
      match maxByKey key rest with
      | none => some a
      | some best => if key best < key a then some a else some best := by
  rw [maxByKey, List.reverse_cons, List.argmax_concat, maxByKey]
  cases rest.reverse.argmax key <;> rfl

/-- **The exact choice.** In a list that is ordered in some way, the best element is the one
that every other has a smaller key than, or the same key and an earlier place. -/
theorem maxByKey_eq_some_iff {before : α → α → Prop} (ordered : elements.Pairwise before)
    (asymm : ∀ a ∈ elements, ∀ b ∈ elements, before a b → ¬ before b a) {best : α} :
    maxByKey key elements = some best ↔
      best ∈ elements ∧ ∀ other ∈ elements, other ≠ best →
        key other < key best ∨ key other = key best ∧ before other best := by
  have chosen {elements : List α} (ordered : elements.Pairwise before) {best : α}
      (found : maxByKey key elements = some best) : ∀ other ∈ elements, other ≠ best →
        key other < key best ∨ key other = key best ∧ before other best := by
    induction elements generalizing best with
    | nil => exact fun _ member => absurd member List.not_mem_nil
    | cons a rest ih =>
        obtain ⟨first, ordered⟩ := List.pairwise_cons.mp ordered
        rw [maxByKey_cons] at found
        intro other member differs
        cases later : maxByKey key rest with
        | none =>
            rw [later] at found
            obtain rfl := Option.some.inj found
            rw [maxByKey_eq_none_iff.mp later] at member
            exact absurd (List.mem_singleton.mp member) differs
        | some c =>
            simp only [later] at found
            have isBest := isBest_of_maxByKey later
            split at found
            · rename_i less
              obtain rfl := Option.some.inj found
              have inRest := (List.mem_cons.mp member).resolve_left differs
              exact .inl (lt_of_le_of_lt (isBest.greatest other inRest) less)
            · rename_i notLess
              obtain rfl := Option.some.inj found
              rcases List.mem_cons.mp member with rfl | inRest
              · rcases lt_or_eq_of_le (not_lt.mp notLess) with less | same
                · exact .inl less
                · exact .inr ⟨same, first c isBest.candidate⟩
              · exact ih ordered later other inRest differs
  constructor
  · intro found
    exact ⟨(isBest_of_maxByKey found).candidate, chosen ordered found⟩
  · rintro ⟨member, others⟩
    have some : (maxByKey key elements).isSome := isSome_maxByKey_iff.mpr ⟨best, member⟩
    obtain ⟨found, isFound⟩ := Option.isSome_iff_exists.mp some
    have inside := (isBest_of_maxByKey isFound).candidate
    by_cases same : found = best
    · rw [isFound, same]
    · rcases others found inside same with less | ⟨equal, earlier⟩
      · have greatest := (isBest_of_maxByKey isFound).greatest best member
        exact absurd less (not_lt.mpr greatest)
      · rcases chosen ordered isFound best member (Ne.symm same) with less | ⟨-, later⟩
        · exact absurd less (not_lt.mpr equal.le)
        · exact absurd later (asymm found inside best member earlier)

end BestMatch
