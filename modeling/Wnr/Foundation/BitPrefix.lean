import Mathlib.Data.UInt

/-! # Leading bits of byte strings

Bits are counted from the most significant bit of the first byte. Byte strings
that are masked with the same leading bits are equal exactly when they agree on
these bits (`BitPrefix.zipWith_and_eq_iff`).
-/

namespace BitPrefix

/-- A bit of a byte, counted from the most significant one. -/
def bit (byte : UInt8) (k : Nat) : Bool := byte.toBitVec.getMsbD k

theorem eq_of_bit {a b : UInt8} (same : ∀ k < 8, bit a k = bit b k) : a = b :=
  UInt8.toBitVec_inj.mp (BitVec.eq_of_getMsbD_eq same)

theorem bit_and (a b : UInt8) (k : Nat) : bit (a &&& b) k = (bit a k && bit b k) := by
  rw [bit, UInt8.toBitVec_and, BitVec.getMsbD_and]
  rfl

theorem bit_or (a b : UInt8) (k : Nat) : bit (a ||| b) k = (bit a k || bit b k) := by
  rw [bit, UInt8.toBitVec_or, BitVec.getMsbD_or]
  rfl

theorem bit_not (a : UInt8) {k : Nat} (small : k < 8) : bit (~~~a) k = !bit a k := by
  rw [bit, UInt8.toBitVec_not, BitVec.getMsbD_not, decide_eq_true small, Bool.true_and]
  rfl

/-! ## Clearing and setting what a mask leaves out -/

theorem and_and_self (a mask : UInt8) : a &&& mask &&& mask = a &&& mask := by
  rw [UInt8.and_assoc, UInt8.and_self]

/-- Clearing what a mask leaves out undoes setting it. -/
theorem or_not_and (a mask : UInt8) : (a ||| ~~~mask) &&& mask = a &&& mask := by
  refine eq_of_bit fun k small => ?_
  rw [bit_and, bit_or, bit_not mask small, bit_and]
  cases bit a k <;> cases bit mask k <;> rfl

/-- Setting what a mask leaves out undoes clearing it. -/
theorem and_or_not (a mask : UInt8) : a &&& mask ||| ~~~mask = a ||| ~~~mask := by
  refine eq_of_bit fun k small => ?_
  rw [bit_or, bit_and, bit_not mask small, bit_or, bit_not mask small]
  cases bit a k <;> cases bit mask k <;> rfl

theorem and_le (a mask : UInt8) : a &&& mask ≤ a := by
  rw [UInt8.le_iff_toNat_le, UInt8.toNat_and]
  exact Nat.and_le_left

theorem le_or (a b : UInt8) : a ≤ a ||| b := by
  rw [UInt8.le_iff_toNat_le, UInt8.toNat_or]
  exact Nat.left_le_or

/-- Masked bytes are equal when the bytes agree on the bits of the mask. -/
theorem and_eq_and_iff (a b mask : UInt8) :
    a &&& mask = b &&& mask ↔ ∀ k < 8, bit mask k = true → bit a k = bit b k := by
  constructor
  · intro same k _ masked
    have bits := congrArg (bit · k) same
    simpa only [bit_and, masked, Bool.and_true] using bits
  · intro agree
    refine eq_of_bit fun k small => ?_
    rw [bit_and, bit_and]
    cases masked : bit mask k with
    | false => rw [Bool.and_false, Bool.and_false]
    | true => rw [agree k small masked]

variable {size : Nat}

/-- A bit of a byte string. -/
def bitAt (bytes : Vector UInt8 size) (i : Nat) : Bool :=
  match bytes[i / 8]? with
  | some byte => bit byte (i % 8)
  | none => false

theorem bitAt_eq {bytes : Vector UInt8 size} {i : Nat} (inside : i / 8 < size) :
    bitAt bytes i = bit bytes[i / 8] (i % 8) := by
  rw [bitAt, Vector.getElem?_eq_getElem inside]

/-- The byte strings have the same first `count` bits. -/
def Agree (count : Nat) (a b : Vector UInt8 size) : Prop := ∀ i < count, bitAt a i = bitAt b i

instance (count : Nat) (a b : Vector UInt8 size) : Decidable (Agree count a b) :=
  inferInstanceAs (Decidable (∀ i < count, bitAt a i = bitAt b i))

/-- The mask has one bits in the first `count` places and no others. -/
def IsMask (count : Nat) (mask : Vector UInt8 size) : Prop :=
  ∀ i < 8 * size, bitAt mask i = decide (i < count)

/-- **Masking.** Byte strings under a mask of leading bits are equal exactly when
they agree on these bits. -/
theorem zipWith_and_eq_iff {count : Nat} {mask : Vector UInt8 size} (isMask : IsMask count mask)
    (fits : count ≤ 8 * size) (a b : Vector UInt8 size) :
    Vector.zipWith (· &&& ·) a mask = Vector.zipWith (· &&& ·) b mask ↔ Agree count a b := by
  constructor
  · intro same i early
    have inside : i / 8 < size := by omega
    have byte : a[i / 8] &&& mask[i / 8] = b[i / 8] &&& mask[i / 8] := by
      have masked := congrArg (·[i / 8]) same
      simpa only [Vector.getElem_zipWith] using masked
    have masked : bit mask[i / 8] (i % 8) = true := by
      rw [← bitAt_eq inside, isMask i (by omega), decide_eq_true early]
    rw [bitAt_eq inside, bitAt_eq inside]
    exact (and_eq_and_iff _ _ _).mp byte (i % 8) (Nat.mod_lt i (by decide)) masked
  · intro agree
    refine Vector.ext fun j inside => ?_
    rw [Vector.getElem_zipWith, Vector.getElem_zipWith, and_eq_and_iff]
    intro k small masked
    have place : (8 * j + k) / 8 = j := by omega
    have rest : (8 * j + k) % 8 = k := by omega
    have read (bytes : Vector UInt8 size) : bitAt bytes (8 * j + k) = bit bytes[j] k := by
      rw [bitAt, place, rest, Vector.getElem?_eq_getElem inside]
    have early : 8 * j + k < count := by
      have one := isMask (8 * j + k) (by omega)
      rw [read, masked] at one
      exact of_decide_eq_true one.symm
    rw [← read a, ← read b]
    exact agree _ early

end BitPrefix
