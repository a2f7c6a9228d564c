import Wnr.Dnet.AddrLaws
import Wnr.Foundation.Comparators

/-! # The order of addresses

Addresses are compared by family, then by prefix length, then by their bytes. The
differences of prefix lengths and of bytes fit the result, the difference of families
is narrowed: the comparison is the lexicographic order of exactly those sets of
addresses whose families differ by less than `2 ^ 31`
(`Wnr.Dnet.Addr.ordersLex_iff`).
-/

namespace Wnr.Dnet

open Comparator

namespace Addr

/-- Family, then prefix length, then bytes. -/
def lexCmp : Addr → Addr → Ordering :=
  compareLex (compareOn addrType) (compareLex (compareOn addrBits) (compareOn (·.data.toList)))

instance : Std.TransCmp lexCmp :=
  inferInstanceAs (Std.TransCmp (compareLex _ (compareLex _ _)))

theorem lexCmp_eq (a b : Addr) : lexCmp a b = (compare a.addrType b.addrType).then
    ((compare a.addrBits b.addrBits).then (compare a.data.toList b.data.toList)) := rfl

instance : Std.LawfulEqCmp lexCmp where
  eq_of_compare {a b} equal := by
    rw [lexCmp_eq, Ordering.then_eq_eq, Ordering.then_eq_eq] at equal
    cases a
    cases b
    cases Std.LawfulEqOrd.eq_of_compare equal.1
    cases Std.LawfulEqOrd.eq_of_compare equal.2.1
    cases Vector.toList_inj.mp (Std.LawfulEqOrd.eq_of_compare equal.2.2)
    rfl

/-! ## The parts of the comparison -/

/-- Bytes are compared by their difference. -/
theorem sign_byteDifference (x y : UInt8) :
    sign (.ofInt ((x.toNat : Int) - y.toNat)) = compare x y := by
  have xBound := x.toNat_lt
  have yBound := y.toNat_lt
  rw [sign_ofInt (by omega) (by omega), compare_sub]
  exact (compareOfLessAndEq_toNat UInt8.lt_iff_toNat_lt UInt8.toNat_inj).symm

/-- Prefix lengths are compared by their difference. -/
theorem sign_bitsDifference (x y : UInt16) :
    sign (.ofInt ((x.toNat : Int) - y.toNat)) = compare x y := by
  have xBound := x.toNat_lt
  have yBound := y.toNat_lt
  rw [sign_ofInt (by omega) (by omega), compare_sub]
  exact (compareOfLessAndEq_toNat UInt16.lt_iff_toNat_lt UInt16.toNat_inj).symm

/-- Byte strings of one length are compared at the first bytes that differ. -/
theorem sign_cmpBytes {left right : List UInt8} (same : left.length = right.length) :
    sign (cmpBytes (left.zip right)) = compare left right := by
  induction left generalizing right with
  | nil =>
      cases List.length_eq_zero_iff.mp same.symm
      rfl
  | cons x left ih =>
      cases right with
      | nil => cases same
      | cons y right =>
          have byParts : compare (x :: left) (y :: right) =
              (compare x y).then (compare left right) := List.compareLex_cons_cons
          rw [List.zip_cons_cons, cmpBytes, byParts]
          by_cases equal : x = y
          · rw [if_neg (not_not_intro equal), ih (Nat.succ.inj same), equal,
              Std.ReflOrd.compare_self, Ordering.eq_then]
          · rw [if_pos equal, sign_byteDifference]
            cases decided : compare x y with
            | lt => rfl
            | gt => rfl
            | eq => exact absurd (Std.LawfulEqOrd.eq_of_compare decided) equal

variable {a b : Addr}

/-- Addresses of one family are compared lexicographically. -/
theorem sign_addrCmp_of_family (family : a.addrType = b.addrType) :
    sign (addrCmp a b) = lexCmp a b := by
  rw [lexCmp_eq, family, Std.ReflOrd.compare_self, Ordering.eq_then]
  by_cases bits : a.addrBits = b.addrBits
  · rw [addrCmp_eq_cmpBytes family bits, bits, Std.ReflOrd.compare_self, Ordering.eq_then]
    apply sign_cmpBytes
    rw [Vector.length_toList, Vector.length_toList]
  · rw [addrCmp, if_neg (not_not_intro family), if_pos bits, sign_bitsDifference]
    cases decided : compare a.addrBits b.addrBits with
    | lt => rfl
    | gt => rfl
    | eq => exact absurd (Std.LawfulEqOrd.eq_of_compare decided) bits

/-- The difference of the families, as the source widens it. -/
def familyDifference (a b : Addr) : Int := (a.addrType.toNat : Int) - b.addrType.toNat

theorem abs_familyDifference_lt (a b : Addr) : |familyDifference a b| < 2 ^ 32 := by
  have aBound := a.addrType.toNat_lt
  have bBound := b.addrType.toNat_lt
  rw [familyDifference, abs_lt]
  omega

theorem neg_familyDifference (a b : Addr) : -familyDifference a b = familyDifference b a := by
  rw [familyDifference, familyDifference, neg_sub]

/-- Between families, the narrowed difference stands for the order. -/
theorem sign_addrCmp_eq_iff (family : a.addrType ≠ b.addrType) :
    sign (addrCmp a b) = lexCmp a b ↔
      sign (.ofInt (familyDifference a b)) = compare (familyDifference a b) 0 := by
  have order : lexCmp a b = compare (familyDifference a b) 0 := by
    have families : compare a.addrType b.addrType = compare (familyDifference a b) 0 := by
      rw [familyDifference, compare_sub]
      exact compareOfLessAndEq_toNat UInt32.lt_iff_toNat_lt UInt32.toNat_inj
    rw [lexCmp_eq, ← families]
    cases decided : compare a.addrType b.addrType with
    | lt => rfl
    | gt => rfl
    | eq => exact absurd (Std.LawfulEqOrd.eq_of_compare decided) family
  rw [addrCmp, if_pos family, order, familyDifference]

/-- Two addresses are compared lexicographically in both directions exactly when their
families are near. -/
theorem sign_addrCmp_iff (a b : Addr) :
    sign (addrCmp a b) = lexCmp a b ∧ sign (addrCmp b a) = lexCmp b a ↔
      |familyDifference a b| < 2 ^ 31 := by
  by_cases family : a.addrType = b.addrType
  · have none : familyDifference a b = 0 := by rw [familyDifference, family, sub_self]
    refine iff_of_true ⟨sign_addrCmp_of_family family, sign_addrCmp_of_family family.symm⟩ ?_
    rw [none]
    decide
  · rw [sign_addrCmp_eq_iff family, sign_addrCmp_eq_iff (Ne.symm family),
      ← neg_familyDifference a b]
    exact sign_ofInt_iff (abs_familyDifference_lt a b)

/-- **The order of addresses.** The comparison is a total order of a set of addresses, the
lexicographic one, exactly when the families in it differ by less than `2 ^ 31`. -/
theorem ordersLex_iff (addrs : Set Addr) :
    OrdersAs addrCmp lexCmp addrs ↔
      ∀ a ∈ addrs, ∀ b ∈ addrs, |familyDifference a b| < 2 ^ 31 := by
  constructor
  · intro orders a here b there
    exact (sign_addrCmp_iff a b).mp ⟨orders.agrees a here b there, orders.agrees b there a here⟩
  · intro near
    apply ordersAs_of_sign
    intro a here b there
    exact ((sign_addrCmp_iff a b).mpr (near a here b there)).1

/-- Only equal addresses compare as equal, whatever their families are. -/
theorem addrCmp_eq_zero_iff (a b : Addr) : addrCmp a b = 0 ↔ a = b := by
  by_cases family : a.addrType = b.addrType
  · rw [← sign_eq_eq_iff, sign_addrCmp_of_family family, Std.LawfulEqCmp.compare_eq_iff_eq]
  · refine iff_of_false (fun zero => ?_) (mt (congrArg addrType) family)
    have bounds := abs_lt.mp (abs_familyDifference_lt a b)
    rw [addrCmp, if_pos family, ← Int32.toInt_inj, Int32.toInt_ofInt, Int32.toInt_zero,
      Int.bmod_def, Int32.size] at zero
    rw [familyDifference] at bounds
    exact family (UInt32.toNat_inj.mp (by omega))

/-- An address of any family. -/
def ofFamily (addrType : UInt32) : Addr := { (default : Addr) with addrType }

/-- The families 0 and `2 ^ 31` are each less than the other, and the family 0 is greater
than the last one. -/
theorem addrCmp_wraps :
    ¬ OrdersAs addrCmp lexCmp Set.univ ∧
      addrCmp (ofFamily 0) (ofFamily 0x80000000) < 0 ∧
      addrCmp (ofFamily 0x80000000) (ofFamily 0) < 0 ∧
      0 < addrCmp (ofFamily 0) (ofFamily 0xffffffff) := by
  have first : addrCmp (ofFamily 0) (ofFamily 0x80000000) < 0 := by decide
  have second : addrCmp (ofFamily 0x80000000) (ofFamily 0) < 0 := by decide
  refine ⟨fun orders => ?_, first, second, by decide⟩
  have opposite := orders.opposite _ (Set.mem_univ (ofFamily 0)) _
    (Set.mem_univ (ofFamily 0x80000000))
  revert opposite
  decide

end Addr

end Wnr.Dnet
