import Wnr.Foundation.Bytes

/-! # Writing into buffers

A write at an offset fails when the buffer ends before it does, and leaves the rest of
the buffer as it was. A format of a fixed size is one whose values are written to the
front of a buffer and read back from there; it round-trips when reading gives the value
that was written and writing gives the bytes that were read (`Buffers.IsLayout.roundTrips`).
-/

namespace Buffers

open Bytes

/-- Overwrite the part of a buffer from an offset on. -/
def write (offset : Nat) (bytes buf : List UInt8) : Option (List UInt8) :=
  if offset + bytes.length ≤ buf.length then
    some (buf.take offset ++ (bytes ++ buf.drop (offset + bytes.length)))
  else none

variable {offset size : Nat} {bytes more buf : List UInt8}

theorem write_eq_none_iff : write offset bytes buf = none ↔ buf.length < offset + bytes.length := by
  rw [write, ite_eq_right_iff, ← Nat.not_le]
  exact imp_congr_right fun _ => iff_of_false nofun id

/-- A write replaces as many bytes as it writes. -/
theorem write_append {front old back : List UInt8} (same : old.length = bytes.length) :
    write front.length bytes (front ++ (old ++ back)) = some (front ++ (bytes ++ back)) := by
  have inside : front.length + bytes.length ≤ (front ++ (old ++ back)).length := by
    rw [List.length_append, List.length_append, same]
    omega
  have tail : (front ++ (old ++ back)).drop (front.length + bytes.length) = back := by
    rw [← same, ← List.append_assoc, ← List.length_append, List.drop_left]
  rw [write, if_pos inside, List.take_left, tail]

theorem length_of_write {written : List UInt8} (wrote : write offset bytes buf = some written) :
    written.length = buf.length := by
  unfold write at wrote
  split at wrote
  · cases wrote
    rw [List.length_append, List.length_append, List.length_take, List.length_drop]
    omega
  · cases wrote

/-- A buffer that is written to has a part that is replaced. -/
theorem exists_parts (inside : offset + size ≤ buf.length) : ∃ front old back : List UInt8,
    buf = front ++ (old ++ back) ∧ front.length = offset ∧ old.length = size := by
  refine ⟨buf.take offset, (buf.drop offset).take size, (buf.drop offset).drop size, ?_, ?_, ?_⟩
  · rw [List.take_append_drop, List.take_append_drop]
  · rw [List.length_take]
    omega
  · rw [List.length_take, List.length_drop]
    omega

/-- Writes that follow each other are one write. -/
theorem write_write (next : offset + bytes.length = size) :
    ((write offset bytes buf).bind (write size more)) = write offset (bytes ++ more) buf := by
  subst next
  by_cases all : offset + (bytes ++ more).length ≤ buf.length
  · obtain ⟨front, old, back, rfl, rfl, length⟩ := exists_parts all
    rw [List.length_append] at length
    have zero : 0 + bytes.length ≤ old.length := by omega
    obtain ⟨none, first, second, rfl, isNone, same⟩ := exists_parts zero
    obtain rfl := List.eq_nil_of_length_eq_zero isNone
    rw [List.nil_append, List.length_append] at length
    have whole : (first ++ second).length = (bytes ++ more).length := by
      rw [List.length_append, List.length_append]
      omega
    have after : write (front.length + bytes.length) more (front ++ (bytes ++ (second ++ back))) =
        some (front ++ (bytes ++ (more ++ back))) := by
      have placed := @write_append more (front ++ bytes) second back (by omega)
      rwa [List.length_append, List.append_assoc, List.append_assoc] at placed
    rw [List.nil_append, write_append whole, List.append_assoc, write_append same,
      Option.bind_some, after, List.append_assoc]
  · rw [write_eq_none_iff.mpr (Nat.not_le.mp all)]
    rw [List.length_append] at all
    cases written : write offset bytes buf with
    | none => rfl
    | some buf' =>
        rw [Option.bind_some, write_eq_none_iff, length_of_write written]
        omega

/-- Two writes that follow each other are one, whatever comes after them. -/
theorem write_bind {α : Type*} {rest : List UInt8 → Option α}
    (next : offset + bytes.length = size) :
    ((write offset bytes buf).bind fun buf => (write size more buf).bind rest) =
      (write offset (bytes ++ more) buf).bind rest := by
  rw [← write_write next, Option.bind_assoc]

/-- A write at the front. -/
theorem write_front : write 0 bytes buf =
    if bytes.length ≤ buf.length then some (bytes ++ buf.drop bytes.length) else none := by
  rw [write, Nat.zero_add, List.take_zero, List.nil_append]

/-- The array of a slice of a buffer. -/
def arrayAt (buf : List UInt8) (first count : Nat) (inside : first + count ≤ buf.length) :
    Vector UInt8 count :=
  ⟨(slice buf first (first + count)).toArray, by
    rw [List.size_toArray, length_slice inside, Nat.add_sub_cancel_left]⟩

theorem toList_arrayAt {first count : Nat} (inside : first + count ≤ buf.length) :
    (arrayAt buf first count inside).toList = slice buf first (first + count) := rfl

theorem slice_self (buf : List UInt8) (first : Nat) : slice buf first first = [] := by
  rw [slice, Nat.sub_self, List.take_zero]

/-- A slice starts with its first byte. -/
theorem slice_cons {first last : Nat} (less : first < last) (inside : first < buf.length) :
    slice buf first last = buf[first] :: slice buf (first + 1) last := by
  have count : last - first = last - (first + 1) + 1 := by omega
  rw [slice, slice, List.drop_eq_getElem_cons inside, count, List.take_succ_cons]

theorem slice_one {first : Nat} (inside : first < buf.length) :
    slice buf first (first + 1) = [buf[first]] := by
  rw [slice_cons (Nat.lt_succ_self first) inside, slice_self]

theorem slice_two {first : Nat} (inside : first + 1 < buf.length) :
    slice buf first (first + 2) = [buf[first], buf[first + 1]] := by
  rw [slice_cons (by omega) (by omega), slice_one inside]

theorem slice_front (buf : List UInt8) (size : Nat) : slice buf 0 size = buf.take size := by
  rw [slice, List.drop_zero, Nat.sub_zero]

/-! ## Formats -/

variable {α : Type*} {parse : List UInt8 → Option α} {encode : α → List UInt8 → Option (List UInt8)}
  {valid : α → Prop} {layout : α → List UInt8}

/-- Reading and writing are inverse on the first `size` bytes of a buffer; the rest of the
buffer stays, and shorter buffers are not read. -/
structure RoundTrips (size : Nat) (valid : α → Prop) (parse : List UInt8 → Option α)
    (encode : α → List UInt8 → Option (List UInt8)) : Prop where
  parse_encode : ∀ value, valid value → ∀ buf : List UInt8, size ≤ buf.length →
    ∃ written, encode value buf = some written ∧ parse written = some value ∧
      written.length = buf.length ∧ written.drop size = buf.drop size
  encode_parse : ∀ read : List UInt8, size ≤ read.length →
    ∃ value, parse read = some value ∧ ∀ buf : List UInt8, size ≤ buf.length →
      ∃ written, encode value buf = some written ∧ written.take size = read.take size ∧
        written.drop size = buf.drop size
  short : ∀ buf : List UInt8, buf.length < size → parse buf = none

/-- The values have a layout of `size` bytes, which is what is written and what is read. -/
structure IsLayout (size : Nat) (valid : α → Prop) (layout : α → List UInt8)
    (parse : List UInt8 → Option α) (encode : α → List UInt8 → Option (List UInt8)) : Prop where
  length : ∀ value, (layout value).length = size
  writes : ∀ value buf, encode value buf = write 0 (layout value) buf
  reads : ∀ value, valid value → ∀ rest, parse (layout value ++ rest) = some value
  read : ∀ buf : List UInt8, size ≤ buf.length →
    ∃ value, parse buf = some value ∧ layout value = buf.take size
  short : ∀ buf : List UInt8, buf.length < size → parse buf = none

/-- **A layout** round-trips. -/
theorem IsLayout.roundTrips (isLayout : IsLayout size valid layout parse encode) :
    RoundTrips size valid parse encode where
  parse_encode value isValid buf long := by
    have size := isLayout.length value
    refine ⟨layout value ++ buf.drop (layout value).length, ?_, ?_, ?_, ?_⟩
    · rw [isLayout.writes, write_front, if_pos (size ▸ long)]
    · exact isLayout.reads value isValid _
    · rw [List.length_append, List.length_drop]
      omega
    · rw [← size, List.drop_left]
  encode_parse read long := by
    obtain ⟨value, parsed, same⟩ := isLayout.read read long
    have size := isLayout.length value
    refine ⟨value, parsed, fun buf inside => ?_⟩
    refine ⟨layout value ++ buf.drop (layout value).length, ?_, ?_, ?_⟩
    · rw [isLayout.writes, write_front, if_pos (size ▸ inside)]
    · rw [← same, ← size, List.take_left]
    · rw [← size, List.drop_left]
  short := isLayout.short

end Buffers
