import Wnr.Pcap.SavefileRecords

/-! # Truncated savefiles

A capture that is cut off, by a crash or because it is still being written, ends
at an arbitrary byte. The reader returns the records before the cut and reports a
cut inside the data of a record, but takes a cut inside a record header for the
end of the file (`Wnr.Pcap.reads_truncated_iff`).
-/

namespace Wnr.Pcap

open Bytes

/-- The bytes of a savefile. -/
def PcapFileHeader.savefile (self : PcapFileHeader) (records : List Record) : List UInt8 :=
  self.encode ++ records.flatMap (Record.encode self.order)

def Record.size (record : Record) : Nat := 16 + record.data.length

/-- The records that lie wholly in the first bytes of their layout, and the number
of bytes after them. -/
def wholeBefore : List Record → Nat → List Record × Nat
  | [], _ => ([], 0)
  | record :: records, count =>
      if record.size ≤ count then
        let later := wholeBefore records (count - record.size)
        (record :: later.1, later.2)
      else ([], count)

/-- The first bytes of a layout are the whole records and a part of the next one. -/
theorem wholeBefore_spec (order : ByteOrder) (records : List Record) (count : Nat) :
    ∃ rest, records = (wholeBefore records count).1 ++ rest ∧
      (records.flatMap (Record.encode order)).take count =
        (wholeBefore records count).1.flatMap (Record.encode order) ++
          (rest.flatMap (Record.encode order)).take (wholeBefore records count).2 ∧
      ((rest = [] ∧ (wholeBefore records count).2 = 0) ∨
        ∃ next later, rest = next :: later ∧ (wholeBefore records count).2 < next.size) := by
  induction records generalizing count with
  | nil => exact ⟨[], rfl, List.take_nil, .inl ⟨rfl, rfl⟩⟩
  | cons record records ih =>
      rw [wholeBefore]
      split
      · rename_i fits
        obtain ⟨rest, split, layout, next⟩ := ih (count - record.size)
        refine ⟨rest, congrArg (record :: ·) split, ?_, next⟩
        have length : (record.encode order).length = record.size := record.length_encode order
        rw [List.flatMap_cons, List.take_append, length,
          List.take_of_length_le (le_of_eq_of_le length fits), layout, List.flatMap_cons,
          List.append_assoc]
      · rename_i exceeds
        exact ⟨record :: records, rfl, rfl, .inr ⟨record, records, rfl, Nat.not_le.mp exceeds⟩⟩

namespace SavefileReader

variable {header : PcapFileHeader}

/-- A part of a record is no packet. Only where its header is whole is this an error. -/
theorem readToEnd_part {next : Record} (admitted : header.Admits next) {count : Nat}
    (cut : count < next.size) :
    readToEnd ⟨header, ⟨(next.encode header.order).take count, none⟩⟩ =
      ([], if count < 16 then .ok () else .error .unexpectedEof) := by
  by_cases inHeader : count < 16
  · have short : ((next.encode header.order).take count).length < 16 :=
      lt_of_le_of_lt (List.length_take_le _ _) inHeader
    rw [if_pos inHeader]
    exact readToEnd_of_none (Prod.ext (nextPacket_part header short none) rfl)
  · rw [if_neg inHeader]
    have split : (next.encode header.order).take count =
        next.encodeHeader header.order ++ next.data.take (count - 16) := by
      rw [Record.encode, List.take_append, next.length_encodeHeader, List.take_of_length_le]
      rw [next.length_encodeHeader]
      omega
    have short : (next.data.take (count - 16)).length < next.data.length := by
      rw [Record.size] at cut
      rw [List.length_take]
      omega
    have data : ByteStream.readExact ⟨next.data.take (count - 16), none⟩ next.data.length = _ :=
      ByteStream.readExact_short short
    have failed : nextPacket ⟨header, ⟨(next.encode header.order).take count, none⟩⟩ =
        (.error .unexpectedEof, ⟨header, ⟨[], none⟩⟩) := by
      rw [split, nextPacket_encodeHeader, if_neg admitted, data]
      rfl
    exact readToEnd_of_error failed

/-- What is read of the first bytes of a layout. -/
theorem readToEnd_take {records : List Record}
    (admitted : ∀ record ∈ records, header.Admits record) (count : Nat) :
    readToEnd ⟨header, ⟨(records.flatMap (Record.encode header.order)).take count, none⟩⟩ =
      ((wholeBefore records count).1.map Record.packet,
        if (wholeBefore records count).2 < 16 then .ok () else .error .unexpectedEof) := by
  obtain ⟨rest, split, layout, next⟩ := wholeBefore_spec header.order records count
  have whole : ∀ record ∈ (wholeBefore records count).1, header.Admits record := by
    intro record member
    apply admitted
    rw [split]
    exact List.mem_append_left rest member
  rw [layout, readToEnd_encode whole]
  rcases next with ⟨rfl, nothing⟩ | ⟨next, later, rfl, cut⟩
  · rw [nothing, List.take_zero, readToEnd_of_none (nextPacket_end header), List.append_nil]
    rfl
  · have admittedNext : header.Admits next := by
      apply admitted
      rw [split]
      exact List.mem_append_right _ List.mem_cons_self
    have length : (next.encode header.order).length = next.size := next.length_encode header.order
    rw [List.flatMap_cons, List.take_append_of_le_length (by omega), readToEnd_part admittedNext cut,
      List.append_nil]

end SavefileReader

/-- What is asked of the reader of a savefile that is cut: the packets of the
whole records, and then the end of the file exactly if the cut is between two
records, else an error. -/
def ReadsTruncated (header : PcapFileHeader) (records : List Record) (cut : Nat) : Prop :=
  ∃ reader, SavefileReader.openFile ⟨(header.savefile records).take cut, none⟩ = .ok reader ∧
    ∃ ending, reader.readToEnd = ((wholeBefore records (cut - 24)).1.map Record.packet, ending) ∧
      (if (wholeBefore records (cut - 24)).2 = 0 then ending = .ok () else ∃ e, ending = .error e)

/-- **Truncation.** Of a savefile that is cut after its header, the whole records
are read, and the kind of the cut is told exactly if it is not inside a record
header. -/
theorem reads_truncated_iff {header : PcapFileHeader} {records : List Record} {cut : Nat}
    (known : header.Known) (admitted : ∀ record ∈ records, header.Admits record)
    (after : 24 ≤ cut) :
    ReadsTruncated header records cut ↔
      (wholeBefore records (cut - 24)).2 = 0 ∨ 16 ≤ (wholeBefore records (cut - 24)).2 := by
  have opened : SavefileReader.openFile ⟨(header.savefile records).take cut, none⟩ =
      .ok ⟨header, ⟨(records.flatMap (Record.encode header.order)).take (cut - 24), none⟩⟩ := by
    rw [PcapFileHeader.savefile, List.take_append, header.length_encode,
      List.take_of_length_le (le_of_eq_of_le header.length_encode after)]
    exact SavefileReader.openFile_encode _ none known
  have read := SavefileReader.readToEnd_take admitted (cut - 24)
  constructor
  · rintro ⟨reader, opened', ending, read', told⟩
    rw [opened] at opened'
    obtain rfl := Except.ok.inj opened'
    rw [read] at read'
    have same := (Prod.mk.inj read').2
    by_contra inside
    rw [not_or] at inside
    rw [if_neg inside.1] at told
    rw [if_pos (Nat.not_le.mp inside.2)] at same
    obtain ⟨e, failed⟩ := told
    rw [failed] at same
    cases same
  · intro outside
    refine ⟨_, opened, _, read, ?_⟩
    rcases outside with boundary | inData
    · rw [if_pos boundary, boundary]
      rfl
    · rw [if_neg (by omega), if_neg (Nat.not_lt.mpr inData)]
      exact ⟨_, rfl⟩

/-- A record of four bytes. -/
def fourBytes : Record := ⟨1000, 500, 4, [0xde, 0xad, 0xbe, 0xef], by decide⟩

theorem admits_fourBytes :
    ∀ record ∈ [fourBytes, fourBytes], (PcapFileHeader.new 65535 1).Admits record := by
  simp only [List.forall_mem_cons, List.not_mem_nil, false_implies, implies_true, and_true, and_self]
  rintro ⟨longer, -, -⟩
  exact absurd longer (by decide)

theorem reads_truncated_iff_data :
    ReadsTruncated (PcapFileHeader.new 65535 1) [fourBytes, fourBytes] 62 ↔
      (wholeBefore [fourBytes, fourBytes] 38).2 = 0 ∨
        16 ≤ (wholeBefore [fourBytes, fourBytes] 38).2 :=
  reads_truncated_iff (.inl rfl) admits_fourBytes (by decide)

/-- A cut inside the second record header passes for the end of the file. -/
theorem truncation_unnoticed :
    ¬ ∀ (header : PcapFileHeader) (records : List Record) (cut : Nat), header.Known →
      (∀ record ∈ records, header.Admits record) → 24 ≤ cut →
        ReadsTruncated header records cut := by
  intro told
  obtain ⟨reader, opened, ending, read, failed⟩ :=
    told (PcapFileHeader.new 65535 1) [fourBytes, fourBytes] 52 (.inl rfl) admits_fourBytes
      (by decide)
  have reader' : reader = ⟨PcapFileHeader.new 65535 1,
      ⟨([fourBytes, fourBytes].flatMap (Record.encode .little)).take 28, none⟩⟩ :=
    (Except.ok.inj opened).symm
  have read' := SavefileReader.readToEnd_take admits_fourBytes 28
  subst reader'
  have same := (Prod.mk.inj (read.symm.trans read')).2
  obtain ⟨e, rfl⟩ := failed
  cases same

end Wnr.Pcap
