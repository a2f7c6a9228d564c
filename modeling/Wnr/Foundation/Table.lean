import Mathlib.Data.List.AList
import Mathlib.Data.List.Dedup

/-! # Tables with an iteration order of the environment's choosing

A hash map promises to visit every key once and promises no order. A table is
walked along an order given from outside: the keys that the order lists come
first, in its order, and the others after them. Every permutation of the keys is
such a walk (`Table.walk_of_perm`), and every walk is one (`Table.walk_perm`).
-/

/-- A finite map from identifiers, each of them bound at most once. -/
abbrev Table (α : Type*) := AList fun _ : Nat => α

namespace Table

variable {α : Type*} (order : List Nat) (self : Table α)

/-- The keys in the order in which an iteration meets them. -/
def walk : List Nat :=
  order.dedup.filter (· ∈ self.keys) ++ self.keys.filter (· ∉ order)

/-- Change the value at a key, where there is one. -/
def modify (key : Nat) (change : α → α) : Table α :=
  match self.lookup key with
  | some value => self.insert key (change value)
  | none => self

@[simp] theorem mem_walk {key : Nat} : key ∈ self.walk order ↔ key ∈ self := by
  rw [walk, List.mem_append, List.mem_filter, List.mem_filter, List.mem_dedup,
    decide_eq_true_iff, decide_eq_true_iff, AList.mem_keys]
  tauto

theorem nodup_walk : (self.walk order).Nodup := by
  refine List.Nodup.append (order.nodup_dedup.filter _) (self.keys_nodup.filter _) ?_
  intro key listed other
  rw [List.mem_filter, List.mem_dedup] at listed
  rw [List.mem_filter, decide_eq_true_iff] at other
  exact other.2 listed.1

theorem walk_perm : (self.walk order).Perm self.keys := by
  rw [List.perm_ext_iff_of_nodup (self.nodup_walk order) self.keys_nodup]
  intro key
  rw [mem_walk, AList.mem_keys]

theorem walk_of_perm (perm : order.Perm self.keys) : self.walk order = order := by
  have listed : order.filter (· ∈ self.keys) = order := by
    rw [List.filter_eq_self]
    intro key member
    exact decide_eq_true (perm.mem_iff.mp member)
  have others : self.keys.filter (· ∉ order) = [] := by
    rw [List.filter_eq_nil_iff]
    intro key member
    rw [decide_eq_true_iff, not_not]
    exact perm.mem_iff.mpr member
  rw [walk, (perm.nodup_iff.mpr self.keys_nodup).dedup, listed, others, List.append_nil]

/-- Any key may come first. -/
theorem walk_singleton {key : Nat} (member : key ∈ self) :
    ∃ rest, self.walk [key] = key :: rest := by
  refine ⟨self.keys.filter (· ∉ [key]), ?_⟩
  have listed : [key].filter (· ∈ self.keys) = [key] :=
    List.filter_cons_of_pos (decide_eq_true (AList.mem_keys.mp member))
  rw [walk, (List.nodup_singleton key).dedup, listed, List.singleton_append]

theorem mem_walk_iff_lookup {key : Nat} :
    key ∈ self.walk order ↔ ∃ value, self.lookup key = some value := by
  rw [mem_walk, ← AList.lookup_isSome, Option.isSome_iff_exists]

variable {self} {key : Nat} (change : α → α)

theorem lookup_modify : (self.modify key change).lookup key = (self.lookup key).map change := by
  rw [modify]
  cases found : self.lookup key with
  | some value => exact AList.lookup_insert self
  | none => exact found

theorem lookup_modify_ne {other : Nat} (ne : other ≠ key) :
    (self.modify key change).lookup other = self.lookup other := by
  rw [modify]
  cases found : self.lookup key with
  | some value => exact AList.lookup_insert_ne ne
  | none => rfl

end Table
