import Mathlib.Data.UInt
import Mathlib.Data.Set.Basic

/-! # Comparators that return a number

A comparator returns a number whose sign is the order of its arguments. One that
agrees with a lawful order on a set is a total order of the set
(`Comparator.ordersAs_of_sign`). A difference that is narrowed to 32 bits has the
right sign in both directions exactly when it is smaller than `2 ^ 31`
(`Comparator.sign_ofInt_iff`).
-/

namespace Comparator

variable {α : Type*} {cmp : α → α → Int32} {order : α → α → Ordering} {elements : Set α}

/-- Which way a comparison went. -/
def sign (result : Int32) : Ordering := compare result.toInt 0

/-- On a set, the comparator is a total order, and it is the order that is given. -/
structure OrdersAs (cmp : α → α → Int32) (order : α → α → Ordering) (elements : Set α) : Prop where
  equal : ∀ a ∈ elements, ∀ b ∈ elements, cmp a b = 0 ↔ a = b
  opposite : ∀ a ∈ elements, ∀ b ∈ elements, sign (cmp b a) = (sign (cmp a b)).swap
  trans : ∀ a ∈ elements, ∀ b ∈ elements, ∀ c ∈ elements,
    cmp a b ≤ 0 → cmp b c ≤ 0 → cmp a c ≤ 0
  agrees : ∀ a ∈ elements, ∀ b ∈ elements, sign (cmp a b) = order a b

theorem sign_eq_eq_iff {result : Int32} : sign result = .eq ↔ result = 0 := by
  rw [sign, compare_eq_iff_eq, ← Int32.toInt_zero, Int32.toInt_inj]

theorem isLE_sign_iff {result : Int32} : (sign result).isLE ↔ result ≤ 0 := by
  rw [sign, Std.isLE_compare, Int32.le_iff_toInt_le, Int32.toInt_zero]

/-- **The order of a comparator.** Where its signs are those of a lawful order, it is one. -/
theorem ordersAs_of_sign [Std.TransCmp order] [Std.LawfulEqCmp order]
    (agrees : ∀ a ∈ elements, ∀ b ∈ elements, sign (cmp a b) = order a b) :
    OrdersAs cmp order elements where
  equal a here b there := by
    rw [← sign_eq_eq_iff, agrees a here b there, Std.LawfulEqCmp.compare_eq_iff_eq]
  opposite a here b there := by
    rw [agrees a here b there, agrees b there a here]
    exact Std.OrientedCmp.eq_swap
  trans a first b second c third le le' := by
    rw [← isLE_sign_iff, agrees _ ‹_› _ ‹_›] at le le' ⊢
    exact Std.TransCmp.isLE_trans le le'
  agrees := agrees

/-- Numbers stand for the values that they order. -/
theorem compareOfLessAndEq_toNat {Value : Type*} [LT Value] [DecidableLT Value]
    [DecidableEq Value] {toNat : Value → Nat} {a b : Value} (less : a < b ↔ toNat a < toNat b)
    (same : toNat a = toNat b ↔ a = b) :
    compareOfLessAndEq a b = compare (toNat a) (toNat b) := by
  change compareOfLessAndEq a b = compareOfLessAndEq (toNat a) (toNat b)
  rw [compareOfLessAndEq, compareOfLessAndEq]
  simp only [less, same]

/-! ## Narrowed differences -/

/-- A difference that fits keeps its sign. -/
theorem sign_ofInt {difference : Int} (low : -2 ^ 31 ≤ difference) (high : difference < 2 ^ 31) :
    sign (.ofInt difference) = compare difference 0 := by
  rw [sign, Int32.toInt_ofInt_of_le low high]

/-- The sign of a difference is the order of the numbers. -/
theorem compare_sub (a b : Nat) : compare ((a : Int) - b) 0 = compare a b := by
  rcases Nat.lt_trichotomy a b with less | equal | greater
  · rw [compare_lt_iff_lt.mpr less, compare_lt_iff_lt]
    omega
  · rw [compare_eq_iff_eq.mpr equal, compare_eq_iff_eq]
    omega
  · rw [compare_gt_iff_gt.mpr greater, compare_gt_iff_gt]
    omega

/-- A large difference comes out negative. -/
theorem sign_ofInt_of_large {difference : Int} (low : 2 ^ 31 ≤ difference)
    (high : difference < 2 ^ 32) : sign (.ofInt difference) ≠ compare difference 0 := by
  have wrapped : (Int32.ofInt difference).toInt = difference - 2 ^ 32 := by
    rw [Int32.toInt_ofInt, Int.bmod_def, Int32.size]
    omega
  have negative : sign (.ofInt difference) = .lt := by
    rw [sign, wrapped, compare_lt_iff_lt]
    omega
  have positive : compare difference 0 = .gt := by
    rw [compare_gt_iff_gt]
    omega
  rw [negative, positive]
  exact nofun

/-- **Narrowing.** A difference of 32-bit numbers keeps its sign in both directions
exactly when it is smaller than `2 ^ 31`. -/
theorem sign_ofInt_iff {difference : Int} (bound : |difference| < 2 ^ 32) :
    sign (.ofInt difference) = compare difference 0 ∧
        sign (.ofInt (-difference)) = compare (-difference) 0 ↔
      |difference| < 2 ^ 31 := by
  have bounds := abs_lt.mp bound
  constructor
  · rintro ⟨forth, back⟩
    by_contra large
    rcases le_abs.mp (not_lt.mp large) with positive | negative
    · exact sign_ofInt_of_large positive (by omega) forth
    · exact sign_ofInt_of_large negative (by omega) back
  · intro small
    have bounds := abs_lt.mp small
    exact ⟨sign_ofInt (by omega) (by omega), sign_ofInt (by omega) (by omega)⟩

end Comparator
