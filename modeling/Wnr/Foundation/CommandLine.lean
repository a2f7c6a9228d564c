import Mathlib.Data.List.Basic
import Mathlib.Data.List.Induction

/-! # Command lines

The words of a command line are options with their operands and words that stand alone.
Which options take an operand determines the reading (`CommandLine.items_eq_iff`).
-/

namespace CommandLine

variable {Word α : Type*}

/-- A part of a command line. -/
inductive Item (Word : Type*) where
  | valued (name operand : Word)
  | alone (word : Word)

/-- The words that a part is written as. -/
def Item.written : Item Word → List Word
  | .valued name operand => [name, operand]
  | .alone word => [word]

variable (takes : Word → Bool)

/-- Read words from left to right: an option that takes an operand takes the next word,
where there is one. -/
def items : List Word → List (Item Word)
  | [] => []
  | [last] => [.alone last]
  | first :: second :: rest =>
      if takes first then .valued first second :: items rest
      else .alone first :: items (second :: rest)

/-- An option that takes an operand has one, unless it is the last word. -/
def Regular : List (Item Word) → Prop
  | [] => True
  | .valued name _ :: rest => takes name = true ∧ Regular rest
  | [.alone _] => True
  | .alone word :: next :: rest => takes word = false ∧ Regular (next :: rest)

variable {takes}

theorem Regular.tail {item : Item Word} {rest : List (Item Word)}
    (regular : Regular takes (item :: rest)) : Regular takes rest := by
  cases item with
  | valued name operand => exact regular.2
  | alone word =>
      cases rest with
      | nil => trivial
      | cons next rest => exact regular.2

theorem written_ne_nil (item : Item Word) : item.written ≠ [] := by
  cases item <;> exact List.cons_ne_nil _ _

/-- What is read is what is written. -/
theorem flatMap_written_items (words : List Word) :
    (items takes words).flatMap Item.written = words := by
  fun_induction items takes words with
  | case1 => rfl
  | case2 last => rfl
  | case3 first second rest takesOne ih =>
      rw [List.flatMap_cons, ih]
      rfl
  | case4 first second rest takesNone ih =>
      rw [List.flatMap_cons, ih]
      rfl

theorem items_ne_nil (first : Word) (rest : List Word) : items takes (first :: rest) ≠ [] := by
  intro nothing
  have written := @flatMap_written_items _ takes (first :: rest)
  rw [nothing] at written
  cases written

theorem regular_items (words : List Word) : Regular takes (items takes words) := by
  fun_induction items takes words with
  | case1 => trivial
  | case2 last => trivial
  | case3 first second rest takesOne ih => exact ⟨takesOne, ih⟩
  | case4 first second rest takesNone ih =>
      have some : items takes (second :: rest) ≠ [] := items_ne_nil second rest
      obtain ⟨next, later, split⟩ := List.exists_cons_of_ne_nil some
      rw [split] at ih ⊢
      exact ⟨Bool.eq_false_iff.mpr takesNone, ih⟩

/-- Parts that are written and regular are what is read. -/
theorem items_flatMap_written {parts : List (Item Word)} (regular : Regular takes parts) :
    items takes (parts.flatMap Item.written) = parts := by
  induction parts with
  | nil => rfl
  | cons item parts ih =>
      have later := ih regular.tail
      rw [List.flatMap_cons]
      cases item with
      | valued name operand =>
          refine (if_pos regular.1).trans ?_
          exact congrArg _ later
      | alone word =>
          cases parts with
          | nil => rfl
          | cons next parts =>
              obtain ⟨second, rest, split⟩ := List.exists_cons_of_ne_nil (written_ne_nil next)
              have takesNone : ¬ takes word = true := Bool.eq_false_iff.mp regular.1
              rw [List.flatMap_cons, split] at later ⊢
              refine (if_neg takesNone).trans ?_
              exact congrArg _ later

/-- **The reading** of a command line is the only regular one. -/
theorem items_eq_iff {words : List Word} {parts : List (Item Word)} :
    items takes words = parts ↔ parts.flatMap Item.written = words ∧ Regular takes parts := by
  constructor
  · rintro rfl
    exact ⟨flatMap_written_items words, regular_items words⟩
  · intro reading
    obtain ⟨rfl, regular⟩ := reading
    exact items_flatMap_written regular

/-! ## What the parts come to -/

/-- Of the parts that say something the last one counts. -/
theorem foldl_or (say : Item Word → Option α) (parts : List (Item Word)) (before : Option α) :
    parts.foldl (fun known part => (say part).or known) before =
      ((parts.filterMap say).getLast?).or before := by
  induction parts using List.reverseRecOn with
  | nil => rfl
  | append_singleton parts part ih =>
      rw [List.foldl_concat, ih, List.filterMap_append]
      cases said : say part with
      | none =>
          rw [List.filterMap_cons_none said, List.filterMap_nil, List.append_nil, Option.none_or]
      | some value =>
          rw [List.filterMap_cons_some said, List.filterMap_nil, List.getLast?_concat,
            Option.some_or, Option.some_or]

/-- What the parts say one after the other adds up. -/
theorem foldl_append (say : Item Word → List α) (parts : List (Item Word)) (before : List α) :
    parts.foldl (fun known part => known ++ say part) before = before ++ parts.flatMap say := by
  induction parts generalizing before with
  | nil => rw [List.flatMap_nil, List.append_nil, List.foldl_nil]
  | cons part parts ih => rw [List.foldl_cons, ih, List.flatMap_cons, List.append_assoc]

end CommandLine
