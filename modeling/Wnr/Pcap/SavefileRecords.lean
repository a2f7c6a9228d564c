import Wnr.Pcap.SavefileFormat

/-! # The records of a savefile

Reading a savefile to its end gives its packets and how it ended. Whatever the
reader takes for a packet is the layout of a record
(`Wnr.Pcap.SavefileReader.encode_of_nextPacket`), so a file that is read to a
clean end consists of records and at most a part of a record header
(`Wnr.Pcap.SavefileReader.readToEnd_eq_ok_iff`).
-/

namespace Wnr.Pcap

open Bytes

theorem Record.length_encode (order : ByteOrder) (record : Record) :
    (record.encode order).length = 16 + record.data.length := by
  rw [Record.encode, List.length_append, Record.length_encodeHeader]

namespace SavefileReader

/-! ## One record -/

/-- **One call** uses the file up without a packet, refuses a record header and goes on
after it, or returns a record and goes on after it. -/
theorem nextPacket_cases (header : PcapFileHeader) (bytes : List UInt8)
    (failure : Option IoError) :
    (∃ result, nextPacket ⟨header, ⟨bytes, failure⟩⟩ = (result, ⟨header, ⟨[], failure⟩⟩) ∧
      ∀ pkt, result ≠ .ok (some pkt)) ∨
    (∃ (head : RecordHead) (rest : List UInt8), bytes = head.encode header.order ++ rest ∧
      (head.caplen > header.snaplen ∧ !header.isNano ∧ head.caplen > 0x1000000) ∧
      nextPacket ⟨header, ⟨bytes, failure⟩⟩ =
        (.error caplenTooLarge, ⟨header, ⟨rest, failure⟩⟩)) ∨
    ∃ (record : Record) (rest : List UInt8), bytes = record.encode header.order ++ rest ∧
      header.Admits record ∧
      nextPacket ⟨header, ⟨bytes, failure⟩⟩ =
        (.ok (some record.packet), ⟨header, ⟨rest, failure⟩⟩) := by
  obtain short | ⟨head, rest, rfl⟩ := RecordHead.split header.order bytes
  · have first : ByteStream.readExact ⟨bytes, failure⟩ 16 = _ := ByteStream.readExact_short short
    rw [nextPacket, nextPacketAllocating, first]
    simp only
    split
    · exact .inl ⟨_, rfl, fun pkt returned => by cases returned⟩
    · exact .inl ⟨_, rfl, fun pkt returned => by cases returned⟩
  · by_cases refused : head.caplen > header.snaplen ∧ !header.isNano ∧ head.caplen > 0x1000000
    · refine .inr (.inl ⟨head, rest, rfl, refused, ?_⟩)
      rw [nextPacket_head, if_pos refused]
    · by_cases enough : head.caplen.toNat ≤ rest.length
      · obtain ⟨record, caplen, layout⟩ := head.exists_record header.order enough
        have admitted : header.Admits record := by
          rw [PcapFileHeader.Admits, caplen]
          exact refused
        refine .inr (.inr ⟨record, _, layout, admitted, ?_⟩)
        rw [layout, nextPacket_encode _ _ admitted]
      · refine .inl ⟨.error (failure.getD .unexpectedEof), ?_, ?_⟩
        · rw [nextPacket_head, if_neg refused, ByteStream.readExact_short (Nat.not_le.mp enough)]
        · intro pkt returned
          cases returned

/-- **What is read as a packet is a record** that the header admits, laid out in
the byte order of the header. -/
theorem encode_of_nextPacket {self after : SavefileReader} {pkt : PcapPacket}
    (read : self.nextPacket = (.ok (some pkt), after)) :
    ∃ record, self.header.Admits record ∧ pkt = record.packet ∧
      self.reader.bytes = record.encode self.header.order ++ after.reader.bytes ∧
      after.header = self.header ∧ after.reader.failure = self.reader.failure := by
  obtain ⟨header, bytes, failure⟩ := self
  obtain ⟨result, ended, none⟩ | ⟨head, rest, _, _, refused⟩ |
    ⟨record, rest, layout, admitted, given⟩ := nextPacket_cases header bytes failure
  · rw [ended] at read
    cases read
    exact absurd rfl (none pkt)
  · rw [refused] at read
    cases read
  · rw [given] at read
    cases read
    exact ⟨record, admitted, rfl, layout, rfl, rfl⟩

/-- Reading a packet uses the file up. -/
theorem length_of_nextPacket {self after : SavefileReader} {pkt : PcapPacket}
    (read : self.nextPacket = (.ok (some pkt), after)) :
    after.reader.bytes.length < self.reader.bytes.length ∧ after.header = self.header ∧
      pkt.data.length = pkt.caplen.toNat := by
  obtain ⟨record, -, rfl, bytes, header, -⟩ := encode_of_nextPacket read
  refine ⟨?_, header, record.toNat_caplen.symm⟩
  rw [bytes, List.length_append, Record.length_encode]
  omega

/-! ## To the end -/

/-- The packets of repeated calls of `next_packet` and what the call after them
returns: the end of the file or an error. -/
def readToEnd (self : SavefileReader) : List PcapPacket × Except IoError Unit :=
  match fetched : self.nextPacket with
  | (.ok (some pkt), after) =>
      have : after.reader.bytes.length < self.reader.bytes.length :=
        (length_of_nextPacket fetched).1
      (pkt :: (readToEnd after).1, (readToEnd after).2)
  | (.ok none, _) => ([], .ok ())
  | (.error e, _) => ([], .error e)
termination_by self.reader.bytes.length

section

variable {self after : SavefileReader}

/-- Reading to the end by the result of the first call. -/
theorem readToEnd_step (self : SavefileReader) :
    self.readToEnd = match self.nextPacket with
      | (.ok (some pkt), after) => (pkt :: after.readToEnd.1, after.readToEnd.2)
      | (.ok none, _) => ([], .ok ())
      | (.error e, _) => ([], .error e) := by
  fun_cases readToEnd self with
  | case1 pkt after fetched => rw [fetched]
  | case2 after fetched => rw [fetched]
  | case3 e after fetched => rw [fetched]

theorem readToEnd_of_some {pkt : PcapPacket} (fetched : self.nextPacket = (.ok (some pkt), after)) :
    self.readToEnd = (pkt :: after.readToEnd.1, after.readToEnd.2) := by
  rw [readToEnd_step, fetched]

theorem readToEnd_of_none (fetched : self.nextPacket = (.ok none, after)) :
    self.readToEnd = ([], .ok ()) := by
  rw [readToEnd_step, fetched]

theorem readToEnd_of_error {e : IoError} (fetched : self.nextPacket = (.error e, after)) :
    self.readToEnd = ([], .error e) := by
  rw [readToEnd_step, fetched]

/-- The results of the calls, one after another. -/
theorem nextPackets_readToEnd (self : SavefileReader) :
    self.nextPackets (self.readToEnd.1.length + 1) =
      self.readToEnd.1.map (.ok ∘ some) ++ [self.readToEnd.2.map fun _ => none] := by
  fun_induction readToEnd self with
  | case1 self pkt after fetched shorter ih =>
      rw [List.length_cons, nextPackets, fetched, ih]
      rfl
  | case2 self after fetched =>
      rw [List.length_nil, nextPackets, fetched]
      rfl
  | case3 self e after fetched =>
      rw [List.length_nil, nextPackets, fetched]
      rfl

end

variable {header : PcapFileHeader}

/-- Reading goes through the records that the header admits. -/
theorem readToEnd_encode {records : List Record}
    (admitted : ∀ record ∈ records, header.Admits record) (rest : List UInt8)
    (failure : Option IoError) :
    readToEnd ⟨header, ⟨records.flatMap (Record.encode header.order) ++ rest, failure⟩⟩ =
      (records.map Record.packet ++ (readToEnd ⟨header, ⟨rest, failure⟩⟩).1,
        (readToEnd ⟨header, ⟨rest, failure⟩⟩).2) := by
  induction records with
  | nil => rfl
  | cons record records ih =>
      rw [List.forall_mem_cons] at admitted
      rw [List.flatMap_cons, List.append_assoc,
        readToEnd_of_some (nextPacket_encode _ failure admitted.1), ih admitted.2]
      rfl

/-- Less than a record header is taken for the end of the file. -/
theorem nextPacket_part (header : PcapFileHeader) {part : List UInt8} (short : part.length < 16)
    (failure : Option IoError) :
    (nextPacket ⟨header, ⟨part, failure⟩⟩).1 =
      if (failure.getD .unexpectedEof).kind = .unexpectedEof then .ok none
      else .error (failure.getD .unexpectedEof) := by
  have head : ByteStream.readExact ⟨part, failure⟩ 16 = _ := ByteStream.readExact_short short
  rw [nextPacket, nextPacketAllocating, head]
  simp only
  split <;> rfl

/-- The end of the file is found where less than a record header is left. -/
theorem short_of_nextPacket_none {self after : SavefileReader}
    (fetched : self.nextPacket = (.ok none, after)) :
    self.reader.bytes.length < 16 ∧
      (self.reader.failure.getD .unexpectedEof).kind = .unexpectedEof := by
  by_cases short : self.reader.bytes.length < 16
  · refine ⟨short, ?_⟩
    have part := nextPacket_part self.header short self.reader.failure
    rw [fetched] at part
    by_contra other
    rw [if_neg other] at part
    cases part
  · have head : self.reader.readExact 16 = _ := if_pos (Nat.not_lt.mp short)
    rw [nextPacket, nextPacketAllocating, head] at fetched
    simp only at fetched
    split at fetched
    · cases fetched
    · split at fetched <;> cases fetched

/-- What is left of the file consists of records that the header admits and less
than a record header. -/
def Intact (self : SavefileReader) : Prop :=
  ∃ (records : List Record) (part : List UInt8),
    (∀ record ∈ records, self.header.Admits record) ∧ part.length < 16 ∧
    self.reader.bytes = records.flatMap (Record.encode self.header.order) ++ part ∧
    (self.reader.failure.getD .unexpectedEof).kind = .unexpectedEof

/-- **Reading without an error** is reading records and less than a record header. -/
theorem readToEnd_eq_ok_iff (self : SavefileReader) :
    self.readToEnd.2 = .ok () ↔ self.Intact := by
  constructor
  · intro clean
    fun_induction readToEnd self with
    | case1 self pkt after fetched shorter ih =>
        obtain ⟨record, admitted, -, bytes, header, failure⟩ := encode_of_nextPacket fetched
        obtain ⟨records, part, others, short, rest, ending⟩ := ih clean
        rw [header] at others rest
        rw [failure] at ending
        refine ⟨record :: records, part, List.forall_mem_cons.mpr ⟨admitted, others⟩, short, ?_,
          ending⟩
        rw [bytes, rest, List.flatMap_cons, List.append_assoc]
    | case2 self after fetched =>
        obtain ⟨short, ending⟩ := short_of_nextPacket_none fetched
        exact ⟨[], self.reader.bytes, List.forall_mem_nil _, short, rfl, ending⟩
    | case3 self e after fetched => cases clean
  · obtain ⟨header, bytes, failure⟩ := self
    intro ⟨records, part, admitted, short, layout, ending⟩
    have split : bytes = records.flatMap (Record.encode header.order) ++ part := layout
    have last := nextPacket_part header short failure
    rw [if_pos ending] at last
    rw [split, readToEnd_encode admitted]
    exact congrArg Prod.snd (readToEnd_of_none (Prod.ext last rfl))

end SavefileReader

end Wnr.Pcap
