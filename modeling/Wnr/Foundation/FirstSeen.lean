import Mathlib.Data.Finset.Insert

/-! # Elements in the order in which they are first seen

A set of the elements that were seen is kept beside the list of them. What is
inserted one by one comes out without its later repetitions
(`FirstSeen.out_insertAll`).
-/

namespace FirstSeen

variable {α : Type*} [DecidableEq α]

/-- The elements seen so far, in their order. -/
structure Seen (α : Type*) [DecidableEq α] where
  seen : Finset α
  out : List α
  same : ∀ a, a ∈ seen ↔ a ∈ out
  distinct : out.Nodup

namespace Seen

def empty : Seen α := ⟨∅, [], fun a => iff_of_false (Finset.notMem_empty a) List.not_mem_nil, .nil⟩

/-- A new element is put at the end. -/
def insert (self : Seen α) (a : α) : Seen α :=
  if known : a ∈ self.seen then self
  else
    { seen := Insert.insert a self.seen
      out := self.out ++ [a]
      same := fun b => by
        rw [Finset.mem_insert, self.same, List.mem_append, List.mem_singleton, or_comm]
      distinct := by
        rw [← List.concat_eq_append]
        exact self.distinct.concat ((self.same a).not.mp known) }

/-- Insert the elements one after the other. -/
def insertAll (self : Seen α) (elements : List α) : Seen α := elements.foldl insert self

theorem out_insert (self : Seen α) (a : α) :
    (self.insert a).out = if a ∈ self.out then self.out else self.out ++ [a] := by
  unfold insert
  split
  · rename_i known
    rw [if_pos ((self.same a).mp known)]
  · rename_i known
    rw [if_neg ((self.same a).not.mp known)]

end Seen

/-- An element at the end is kept when it is new. -/
theorem eraseDups_concat (elements : List α) (a : α) :
    (elements ++ [a]).eraseDups =
      if a ∈ elements.eraseDups then elements.eraseDups else elements.eraseDups ++ [a] := by
  rw [List.eraseDups_append]
  by_cases known : a ∈ elements
  · have none : [a].removeAll elements = [] := by simp [List.removeAll, known]
    rw [if_pos (List.mem_eraseDups.mpr known), none, List.eraseDups_nil, List.append_nil]
  · have new : [a].removeAll elements = [a] := by simp [List.removeAll, known]
    rw [if_neg (mt List.mem_eraseDups.mp known), new]
    rfl

/-- **First occurrences.** What is inserted comes out with each element at its first
occurrence. -/
theorem out_insertAll (elements : List α) :
    (Seen.empty.insertAll elements).out = elements.eraseDups := by
  induction elements using List.reverseRecOn with
  | nil => rfl
  | append_singleton elements a ih =>
      rw [Seen.insertAll, List.foldl_concat, Seen.out_insert]
      rw [Seen.insertAll] at ih
      rw [ih, eraseDups_concat]

end FirstSeen
