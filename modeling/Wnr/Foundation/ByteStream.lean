import Wnr.Foundation.Bytes

/-! # Reading a file from front to back

A stream is what is left of an opened file. A read of an exact number of bytes
either takes them off the front or fails and uses the rest up.
-/

/-- What went wrong in an input or output operation. -/
inductive IoErrorKind where
  | unexpectedEof
  | invalidData
  | other
deriving DecidableEq, Repr

structure IoError where
  kind : IoErrorKind
  message : String
deriving DecidableEq, Repr

/-- `std`'s error of `read_exact` at the end of the file. -/
def IoError.unexpectedEof : IoError := ⟨.unexpectedEof, "failed to fill whole buffer"⟩

/-- The bytes still to be read, and the error that the system reports after
them in place of the end of the file, if any. -/
structure ByteStream where
  bytes : List UInt8
  failure : Option IoError
deriving DecidableEq, Repr

namespace ByteStream

/-- `read_exact` into a buffer of `count` bytes. -/
def readExact (self : ByteStream) (count : Nat) : Except IoError (List UInt8) × ByteStream :=
  if count ≤ self.bytes.length then
    (.ok (self.bytes.take count), { self with bytes := self.bytes.drop count })
  else (.error (self.failure.getD .unexpectedEof), { self with bytes := [] })

variable (self : ByteStream) (count : Nat)

theorem readExact_append (front rest : List UInt8) (failure : Option IoError) :
    readExact ⟨front ++ rest, failure⟩ front.length = (.ok front, ⟨rest, failure⟩) := by
  have enough : front.length ≤ (front ++ rest).length := by
    rw [List.length_append]
    exact Nat.le_add_right _ _
  rw [readExact, if_pos enough, List.take_left, List.drop_left]

theorem readExact_short {self : ByteStream} {count : Nat} (short : self.bytes.length < count) :
    self.readExact count =
      (.error (self.failure.getD .unexpectedEof), { self with bytes := [] }) :=
  if_neg (Nat.not_le.mpr short)

/-- A read that succeeds takes its bytes off the front. -/
theorem bytes_of_readExact {self after : ByteStream} {count : Nat} {taken : List UInt8}
    (read : self.readExact count = (.ok taken, after)) :
    taken.length = count ∧ self.bytes = taken ++ after.bytes ∧ after.failure = self.failure := by
  by_cases enough : count ≤ self.bytes.length
  · rw [readExact, if_pos enough] at read
    cases read
    exact ⟨List.length_take_of_le enough, (List.take_append_drop _ _).symm, rfl⟩
  · rw [readExact, if_neg enough] at read
    cases read

end ByteStream
