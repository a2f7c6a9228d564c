import Mathlib.Data.UInt
import Mathlib.Tactic.Ring

/-! # Fixed-width integers as bytes

A number below `256 ^ width` and its `width` bytes determine each other, in
either byte order.
-/

namespace Bytes

/-- The value of a byte string, least significant byte first. -/
def fromLe : List UInt8 → Nat
  | [] => 0
  | byte :: rest => byte.toNat + 256 * fromLe rest

/-- The value of a byte string, most significant byte first. -/
def fromBe (bytes : List UInt8) : Nat := fromLe bytes.reverse

/-- The low `width` bytes of a number, least significant byte first. -/
def toLe : Nat → Nat → List UInt8
  | 0, _ => []
  | width + 1, value => UInt8.ofNat (value % 256) :: toLe width (value / 256)

/-- The low `width` bytes of a number, most significant byte first. -/
def toBe (width value : Nat) : List UInt8 := (toLe width value).reverse

@[simp] theorem length_toLe (width value : Nat) : (toLe width value).length = width := by
  induction width generalizing value with
  | zero => rfl
  | succ width ih => simp only [toLe, List.length_cons, ih]

@[simp] theorem length_toBe (width value : Nat) : (toBe width value).length = width := by
  simp only [toBe, List.length_reverse, length_toLe]

theorem fromLe_lt (bytes : List UInt8) : fromLe bytes < 256 ^ bytes.length := by
  induction bytes with
  | nil => exact Nat.one_pos
  | cons byte rest ih =>
      have bound := byte.toNat_lt
      rw [fromLe, List.length_cons, pow_succ]
      omega

theorem fromBe_lt (bytes : List UInt8) : fromBe bytes < 256 ^ bytes.length := by
  simpa only [fromBe, List.length_reverse] using fromLe_lt bytes.reverse

theorem fromLe_toLe (width value : Nat) (bound : value < 256 ^ width) :
    fromLe (toLe width value) = value := by
  induction width generalizing value with
  | zero =>
      rw [pow_zero] at bound
      simp only [toLe, fromLe]
      omega
  | succ width ih =>
      have high : value / 256 < 256 ^ width := by
        rw [pow_succ] at bound
        omega
      have low : (UInt8.ofNat (value % 256)).toNat = value % 256 := by
        rw [UInt8.toNat_ofNat']
        omega
      rw [toLe, fromLe, ih _ high, low]
      omega

theorem fromBe_toBe (width value : Nat) (bound : value < 256 ^ width) :
    fromBe (toBe width value) = value := by
  rw [fromBe, toBe, List.reverse_reverse, fromLe_toLe width value bound]

/-- Byte strings of one length with one value are equal. -/
theorem fromLe_inj {left right : List UInt8} (same : left.length = right.length)
    (value : fromLe left = fromLe right) : left = right := by
  induction left generalizing right with
  | nil => exact (List.eq_nil_of_length_eq_zero same.symm).symm
  | cons byte rest ih =>
      cases right with
      | nil => cases same
      | cons byte' rest' =>
          have bound := byte.toNat_lt
          have bound' := byte'.toNat_lt
          rw [fromLe, fromLe] at value
          have high : fromLe rest = fromLe rest' := by omega
          have low : byte.toNat = byte'.toNat := by omega
          rw [ih (Nat.succ.inj same) high, UInt8.toNat_inj.mp low]

theorem fromBe_inj {left right : List UInt8} (same : left.length = right.length)
    (value : fromBe left = fromBe right) : left = right := by
  refine List.reverse_injective (fromLe_inj ?_ value)
  rw [List.length_reverse, List.length_reverse, same]

/-- `u32::to_le_bytes` and its three siblings, and their inverses. -/
def u32ToLe (value : UInt32) : List UInt8 := toLe 4 value.toNat

def u16ToLe (value : UInt16) : List UInt8 := toLe 2 value.toNat

def u32FromLe (bytes : List UInt8) : UInt32 := UInt32.ofNat (fromLe bytes)

def u32FromBe (bytes : List UInt8) : UInt32 := UInt32.ofNat (fromBe bytes)

def u16FromLe (bytes : List UInt8) : UInt16 := UInt16.ofNat (fromLe bytes)

def u16FromBe (bytes : List UInt8) : UInt16 := UInt16.ofNat (fromBe bytes)

@[simp] theorem length_u32ToLe (value : UInt32) : (u32ToLe value).length = 4 := length_toLe 4 _

@[simp] theorem length_u16ToLe (value : UInt16) : (u16ToLe value).length = 2 := length_toLe 2 _

@[simp] theorem u32FromLe_u32ToLe (value : UInt32) : u32FromLe (u32ToLe value) = value := by
  rw [u32FromLe, u32ToLe, fromLe_toLe 4 _ value.toNat_lt, UInt32.ofNat_toNat]

@[simp] theorem u16FromLe_u16ToLe (value : UInt16) : u16FromLe (u16ToLe value) = value := by
  rw [u16FromLe, u16ToLe, fromLe_toLe 2 _ value.toNat_lt, UInt16.ofNat_toNat]

/-- The part of a byte string from one offset up to another. -/
def slice (bytes : List UInt8) (first last : Nat) : List UInt8 :=
  (bytes.drop first).take (last - first)

theorem length_slice {bytes : List UInt8} {first last : Nat} (inside : last ≤ bytes.length) :
    (slice bytes first last).length = last - first := by
  rw [slice, List.length_take, List.length_drop]
  omega

theorem slice_append (bytes : List UInt8) {first middle last : Nat} (le : first ≤ middle)
    (le' : middle ≤ last) : slice bytes first middle ++ slice bytes middle last =
      slice bytes first last := by
  obtain ⟨front, rfl⟩ := Nat.exists_eq_add_of_le le
  obtain ⟨back, rfl⟩ := Nat.exists_eq_add_of_le le'
  rw [slice, slice, slice, Nat.add_sub_cancel_left, Nat.add_sub_cancel_left, Nat.add_assoc,
    Nat.add_sub_cancel_left, List.take_add, List.drop_drop]

theorem slice_length (bytes : List UInt8) : slice bytes 0 bytes.length = bytes := by
  rw [slice, List.drop_zero, Nat.sub_zero, List.take_length]

/-- The number that the `width` bytes at an offset hold, most significant byte
first, if there are that many. -/
def fieldAt (bytes : List UInt8) (offset width : Nat) : Option Nat :=
  if offset + width ≤ bytes.length then some (fromBe (slice bytes offset (offset + width)))
  else none

theorem fieldAt_of_le {bytes : List UInt8} {offset width : Nat}
    (inside : offset + width ≤ bytes.length) :
    fieldAt bytes offset width = some (fromBe (slice bytes offset (offset + width))) :=
  if_pos inside

theorem lt_of_fieldAt {bytes : List UInt8} {offset width value : Nat}
    (field : fieldAt bytes offset width = some value) : value < 256 ^ width := by
  unfold fieldAt at field
  split at field
  · rename_i inside
    obtain rfl := Option.some.inj field
    have bound := fromBe_lt (slice bytes offset (offset + width))
    rwa [length_slice inside, Nat.add_sub_cancel_left] at bound
  · cases field

/-- A field holds the value of a byte string of its width exactly when its bytes are these. -/
theorem fieldAt_eq_fromBe_iff {bytes : List UInt8} {offset : Nat} (value : List UInt8)
    (inside : offset + value.length ≤ bytes.length) :
    fieldAt bytes offset value.length = some (fromBe value) ↔
      slice bytes offset (offset + value.length) = value := by
  rw [fieldAt_of_le inside, Option.some_inj]
  refine ⟨fun same => fromBe_inj ?_ same, fun same => by rw [same]⟩
  rw [length_slice inside, Nat.add_sub_cancel_left]

theorem fieldAt_drop (bytes : List UInt8) (off offset : Nat) {width : Nat} (wide : 0 < width) :
    fieldAt (bytes.drop off) offset width = fieldAt bytes (off + offset) width := by
  have inside : offset + width ≤ (bytes.drop off).length ↔
      off + offset + width ≤ bytes.length := by
    rw [List.length_drop]
    omega
  have same : slice (bytes.drop off) offset (offset + width) =
      slice bytes (off + offset) (off + offset + width) := by
    rw [slice, slice, List.drop_drop, Nat.add_sub_cancel_left, Nat.add_sub_cancel_left]
  unfold fieldAt
  rw [same]
  exact if_congr inside rfl rfl

/-- A field that lies in a front of the bytes is read from the front. -/
theorem fieldAt_take (bytes : List UInt8) {offset width size : Nat} (inside : offset + width ≤ size) :
    fieldAt (bytes.take size) offset width = fieldAt bytes offset width := by
  have within : offset + width ≤ (bytes.take size).length ↔ offset + width ≤ bytes.length := by
    rw [List.length_take]
    omega
  have same : slice (bytes.take size) offset (offset + width) =
      slice bytes offset (offset + width) := by
    rw [slice, slice, List.drop_take, List.take_take, Nat.min_eq_left]
    omega
  unfold fieldAt
  rw [same]
  exact if_congr within rfl rfl

theorem fieldAt_of_lt {bytes : List UInt8} {offset width : Nat}
    (outside : bytes.length < offset + width) : fieldAt bytes offset width = none :=
  if_neg (Nat.not_le.mpr outside)

theorem toUInt32_u16FromBe (high low : UInt8) :
    (u16FromBe [high, low]).toUInt32 = UInt32.ofNat (fromBe [high, low]) := by
  have bound : fromBe [high, low] < 65536 := by simpa using fromBe_lt [high, low]
  apply UInt32.toNat_inj.mp
  rw [UInt16.toNat_toUInt32, u16FromBe, UInt16.toNat_ofNat_of_lt' bound,
    UInt32.toNat_ofNat_of_lt' (lt_trans bound (by decide))]

theorem toUInt32_eq_fromBe (byte : UInt8) : byte.toUInt32 = UInt32.ofNat (fromBe [byte]) := by
  have bound : fromBe [byte] < 256 := by simpa using fromBe_lt [byte]
  apply UInt32.toNat_inj.mp
  rw [UInt8.toNat_toUInt32, UInt32.toNat_ofNat_of_lt' (lt_trans bound (by decide))]
  rfl

theorem u16FromBe_toBe (value : UInt16) : u16FromBe (toBe 2 value.toNat) = value := by
  rw [u16FromBe, fromBe_toBe 2 _ value.toNat_lt, UInt16.ofNat_toNat]

theorem toBe_u16FromBe {bytes : List UInt8} (two : bytes.length = 2) :
    toBe 2 (u16FromBe bytes).toNat = bytes := by
  have bound : fromBe bytes < 2 ^ 16 := by simpa [two] using fromBe_lt bytes
  refine fromBe_inj ((length_toBe 2 _).trans two.symm) ?_
  rw [u16FromBe, UInt16.toNat_ofNat_of_lt' bound]
  exact fromBe_toBe 2 _ bound

/-! ## Either byte order -/

/-- Which end of a number is stored first. -/
inductive ByteOrder where
  | little
  | big
deriving DecidableEq, Repr

namespace ByteOrder

def u32 : ByteOrder → UInt32 → List UInt8
  | .little, value => u32ToLe value
  | .big, value => toBe 4 value.toNat

def u16 : ByteOrder → UInt16 → List UInt8
  | .little, value => u16ToLe value
  | .big, value => toBe 2 value.toNat

def readU32 : ByteOrder → List UInt8 → UInt32
  | .little => u32FromLe
  | .big => u32FromBe

def readU16 : ByteOrder → List UInt8 → UInt16
  | .little => u16FromLe
  | .big => u16FromBe

@[simp] theorem length_u32 (order : ByteOrder) (value : UInt32) : (order.u32 value).length = 4 := by
  cases order with
  | little => exact length_u32ToLe value
  | big => exact length_toBe 4 _

@[simp] theorem length_u16 (order : ByteOrder) (value : UInt16) : (order.u16 value).length = 2 := by
  cases order with
  | little => exact length_u16ToLe value
  | big => exact length_toBe 2 _

@[simp] theorem readU32_u32 (order : ByteOrder) (value : UInt32) :
    order.readU32 (order.u32 value) = value := by
  cases order with
  | little => exact u32FromLe_u32ToLe value
  | big => rw [readU32, u32, u32FromBe, fromBe_toBe 4 _ value.toNat_lt, UInt32.ofNat_toNat]

/-- Four bytes are the layout of the number that they hold. -/
theorem u32_readU32 (order : ByteOrder) {bytes : List UInt8} (four : bytes.length = 4) :
    order.u32 (order.readU32 bytes) = bytes := by
  cases order with
  | little =>
      have bound : fromLe bytes < 2 ^ 32 := by simpa [four] using fromLe_lt bytes
      refine fromLe_inj ((length_u32ToLe _).trans four.symm) ?_
      rw [u32, u32ToLe, readU32, u32FromLe, UInt32.toNat_ofNat_of_lt' bound]
      exact fromLe_toLe 4 _ bound
  | big =>
      have bound : fromBe bytes < 2 ^ 32 := by simpa [four] using fromBe_lt bytes
      refine fromBe_inj ((length_toBe 4 _).trans four.symm) ?_
      rw [u32, readU32, u32FromBe, UInt32.toNat_ofNat_of_lt' bound]
      exact fromBe_toBe 4 _ bound

@[simp] theorem readU16_u16 (order : ByteOrder) (value : UInt16) :
    order.readU16 (order.u16 value) = value := by
  cases order with
  | little => exact u16FromLe_u16ToLe value
  | big => exact u16FromBe_toBe value

/-- Two bytes are the layout of the number that they hold. -/
theorem u16_readU16 (order : ByteOrder) {bytes : List UInt8} (two : bytes.length = 2) :
    order.u16 (order.readU16 bytes) = bytes := by
  cases order with
  | little =>
      have bound : fromLe bytes < 2 ^ 16 := by simpa [two] using fromLe_lt bytes
      refine fromLe_inj ((length_u16ToLe _).trans two.symm) ?_
      rw [u16, u16ToLe, readU16, u16FromLe, UInt16.toNat_ofNat_of_lt' bound]
      exact fromLe_toLe 2 _ bound
  | big => exact toBe_u16FromBe two

end ByteOrder

end Bytes
