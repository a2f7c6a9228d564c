import Wnr.Pcap.Savefile

/-! # The savefile format

What a savefile stands for: a header and a sequence of records, laid out in the
byte order that its magic announces. The reader recovers a header and the
records it admits from their layout (`Wnr.Pcap.SavefileReader.openFile_encode`,
`Wnr.Pcap.SavefileReader.nextPackets_encode`), the writer produces the layout of
the packets cut to its snapshot length
(`Wnr.Pcap.SavefileWriter.written_writePackets`), and so a file that was written
reads back (`Wnr.Pcap.savefile_roundtrip`).
-/

namespace Wnr.Pcap

open Bytes

/-- One packet record: its captured bytes fit the length field. -/
structure Record where
  tsSec : UInt32
  tsFrac : UInt32
  origlen : UInt32
  data : List UInt8
  short : data.length < 2 ^ 32

namespace Record

variable (order : ByteOrder) (record : Record)

def caplen : UInt32 := UInt32.ofNat record.data.length

theorem toNat_caplen : record.caplen.toNat = record.data.length :=
  UInt32.toNat_ofNat_of_lt' record.short

/-- The 16 bytes before the frame. -/
def encodeHeader : List UInt8 :=
  order.u32 record.tsSec ++ order.u32 record.tsFrac ++ order.u32 record.caplen ++
    order.u32 record.origlen

def encode : List UInt8 := record.encodeHeader order ++ record.data

theorem length_encodeHeader : (record.encodeHeader order).length = 16 := by
  simp only [encodeHeader, List.length_append, ByteOrder.length_u32]

/-- The packet that the reader makes of the record. -/
def packet : PcapPacket :=
  { tsSec := record.tsSec
    tsFrac := record.tsFrac
    caplen := record.caplen
    origlen := record.origlen
    pkttype := 0
    data := record.data }

/-- The record of a packet of which at most `snaplen` bytes are kept. -/
def cut (snaplen tsSec tsFrac : UInt32) (data : List UInt8) : Record where
  tsSec := tsSec
  tsFrac := tsFrac
  origlen := UInt32.ofNat data.length
  data := data.take snaplen.toNat
  short := lt_of_le_of_lt (List.length_take_le _ _) snaplen.toNat_lt

theorem caplen_cut (snaplen tsSec tsFrac : UInt32) (data : List UInt8) :
    (cut snaplen tsSec tsFrac data).caplen =
      UInt32.ofNat (min data.length snaplen.toNat) := by
  rw [caplen, cut, List.length_take, Nat.min_comm]

end Record

/-- The fields of a record header, whatever follows it. -/
structure RecordHead where
  tsSec : UInt32
  tsFrac : UInt32
  caplen : UInt32
  origlen : UInt32

namespace RecordHead

variable (order : ByteOrder)

def encode (self : RecordHead) : List UInt8 :=
  order.u32 self.tsSec ++ order.u32 self.tsFrac ++ order.u32 self.caplen ++
    order.u32 self.origlen

@[simp] theorem length_encode (self : RecordHead) : (self.encode order).length = 16 := by
  simp only [encode, List.length_append, ByteOrder.length_u32]

/-- The four fields are read back from their layout. -/
theorem readU32_encode (self : RecordHead) :
    order.readU32 (slice (self.encode order) 0 4) = self.tsSec ∧
      order.readU32 (slice (self.encode order) 4 8) = self.tsFrac ∧
      order.readU32 (slice (self.encode order) 8 12) = self.caplen ∧
      order.readU32 (slice (self.encode order) 12 16) = self.origlen := by
  obtain ⟨sec, frac, cap, orig⟩ :
      slice (self.encode order) 0 4 = order.u32 self.tsSec ∧
      slice (self.encode order) 4 8 = order.u32 self.tsFrac ∧
      slice (self.encode order) 8 12 = order.u32 self.caplen ∧
      slice (self.encode order) 12 16 = order.u32 self.origlen := by
    unfold encode
    cases order <;> exact ⟨rfl, rfl, rfl, rfl⟩
  simp only [sec, frac, cap, orig, ByteOrder.readU32_u32, and_self]

/-- Any 16 bytes are the layout of a record header. -/
theorem exists_of_length {head : List UInt8} (sixteen : head.length = 16) :
    ∃ fields : RecordHead, head = fields.encode order ∧
      fields.tsSec = order.readU32 (slice head 0 4) ∧
      fields.tsFrac = order.readU32 (slice head 4 8) ∧
      fields.caplen = order.readU32 (slice head 8 12) ∧
      fields.origlen = order.readU32 (slice head 12 16) := by
  have part (index : Nat) (inside : index + 4 ≤ 16) :
      order.u32 (order.readU32 (slice head index (index + 4))) = slice head index (index + 4) :=
    ByteOrder.u32_readU32 _ (by rw [length_slice (by omega), Nat.add_sub_cancel_left])
  have whole := slice_length head
  rw [sixteen] at whole
  let fields : RecordHead := ⟨order.readU32 (slice head 0 4), order.readU32 (slice head 4 8),
    order.readU32 (slice head 8 12), order.readU32 (slice head 12 16)⟩
  refine ⟨fields, ?_, rfl, rfl, rfl, rfl⟩
  rw [encode, part 0 (by decide), part 4 (by decide), part 8 (by decide), part 12 (by decide),
    slice_append head (by decide) (by decide), slice_append head (by decide) (by decide),
    slice_append head (by decide) (by decide)]
  exact whole.symm

/-- A file of less than a record header, or one with a record header in front. -/
theorem split (order : ByteOrder) (bytes : List UInt8) :
    bytes.length < 16 ∨
      ∃ (head : RecordHead) (rest : List UInt8), bytes = head.encode order ++ rest := by
  by_cases short : bytes.length < 16
  · exact .inl short
  · have sixteen : (bytes.take 16).length = 16 :=
      List.length_take_of_le (Nat.not_lt.mp short)
    obtain ⟨head, layout, -⟩ := RecordHead.exists_of_length order sixteen
    refine .inr ⟨head, bytes.drop 16, ?_⟩
    rw [← layout, List.take_append_drop]

/-- A record header and the frame after it are a record. -/
theorem exists_record (order : ByteOrder) (head : RecordHead) {rest : List UInt8}
    (enough : head.caplen.toNat ≤ rest.length) :
    ∃ record : Record, record.caplen = head.caplen ∧
      head.encode order ++ rest =
        record.encode order ++ rest.drop head.caplen.toNat := by
  have filled : (rest.take head.caplen.toNat).length = head.caplen.toNat :=
    List.length_take_of_le enough
  let record : Record :=
    ⟨head.tsSec, head.tsFrac, head.origlen, rest.take head.caplen.toNat,
      lt_of_eq_of_lt filled head.caplen.toNat_lt⟩
  have caplen : record.caplen = head.caplen := by
    rw [Record.caplen, filled, UInt32.ofNat_toNat]
  have layout : record.encodeHeader order = head.encode order := by
    rw [Record.encodeHeader, caplen]
    rfl
  refine ⟨record, caplen, ?_⟩
  rw [Record.encode, layout, List.append_assoc, List.take_append_drop]

end RecordHead

/-- The header of a record. -/
def Record.head (record : Record) : RecordHead :=
  ⟨record.tsSec, record.tsFrac, record.caplen, record.origlen⟩

/-! ## Reading a layout -/

namespace PcapFileHeader

/-- The magic is one of the four that the reader knows. -/
def Known (self : PcapFileHeader) : Prop :=
  self.magic = pcapMagicNumber ∨ self.magic = pcapMagicNumberNano ∨
    self.magic = pcapMagicNumberBe ∨ self.magic = pcapMagicNumberNanoBe

/-- The byte order that the magic announces. -/
def order (self : PcapFileHeader) : ByteOrder := orderOf self.needsSwap

def encode (self : PcapFileHeader) : List UInt8 :=
  u32ToLe self.magic ++ self.order.u16 self.versionMajor ++ self.order.u16 self.versionMinor ++
    self.order.u32 self.thiszone.toUInt32 ++ self.order.u32 self.sigfigs ++
    self.order.u32 self.snaplen ++ self.order.u32 self.linktype

theorem length_encode (self : PcapFileHeader) : self.encode.length = 24 := by
  simp only [encode, List.length_append, ByteOrder.length_u32, ByteOrder.length_u16,
    length_u32ToLe]

/-- The record's length passes `next_packet`'s sanity check. -/
def Admits (self : PcapFileHeader) (record : Record) : Prop :=
  ¬ (record.caplen > self.snaplen ∧ !self.isNano ∧ record.caplen > 0x1000000)

instance (self : PcapFileHeader) (record : Record) : Decidable (self.Admits record) :=
  inferInstanceAs (Decidable (¬ _))

theorem parseFileHeader_encode {self : PcapFileHeader} (known : self.Known) :
    parseFileHeader self.encode = .ok self := by
  have magic : u32FromLe (slice self.encode 0 4) = self.magic := by
    have front : slice self.encode 0 4 = u32ToLe self.magic := rfl
    rw [front, u32FromLe_u32ToLe]
  have recognised : (decide (self.magic = pcapMagicNumber ∨ self.magic = pcapMagicNumberNano ∨
      self.magic = pcapMagicNumberBe ∨ self.magic = pcapMagicNumberNanoBe)) = true :=
    decide_eq_true known
  have swaps : (decide (self.magic = pcapMagicNumberBe ∨ self.magic = pcapMagicNumberNanoBe ∨
      (!true) = true)) = self.needsSwap := by
    simp only [Bool.not_true, Bool.false_eq_true, or_false, needsSwap]
  obtain ⟨major, minor, zone, figures, snap, link⟩ :
      slice self.encode 4 6 = self.order.u16 self.versionMajor ∧
      slice self.encode 6 8 = self.order.u16 self.versionMinor ∧
      slice self.encode 8 12 = self.order.u32 self.thiszone.toUInt32 ∧
      slice self.encode 12 16 = self.order.u32 self.sigfigs ∧
      slice self.encode 16 20 = self.order.u32 self.snaplen ∧
      slice self.encode 20 24 = self.order.u32 self.linktype := by
    unfold encode
    cases self.order <;> exact ⟨rfl, rfl, rfl, rfl, rfl, rfl⟩
  simp only [parseFileHeader, magic, recognised, swaps, major, minor, zone, figures, snap, link]
  change Except.ok _ = _
  simp only [order, ByteOrder.readU16_u16, ByteOrder.readU32_u32]
  rfl

/-- The 24 bytes that are read as a header are its layout. -/
theorem encode_of_parse {raw : List UInt8} {header : PcapFileHeader} (length : raw.length = 24)
    (parsed : parseFileHeader raw = .ok header) : header.Known ∧ header.encode = raw := by
  have four (first last : Nat) (inside : last ≤ 24) (width : last - first = 4) :
      (slice raw first last).length = 4 := by
    rw [length_slice (by omega), width]
  have two (first last : Nat) (inside : last ≤ 24) (width : last - first = 2) :
      (slice raw first last).length = 2 := by
    rw [length_slice (by omega), width]
  rw [parseFileHeader] at parsed
  simp only at parsed
  split at parsed
  · cases parsed
  · rename_i recognised
    rw [Bool.not_eq_true, Bool.not_eq_false'] at recognised
    have known := of_decide_eq_true recognised
    obtain rfl := Except.ok.inj parsed
    have swaps : (decide (u32FromLe (slice raw 0 4) = pcapMagicNumberBe ∨
        u32FromLe (slice raw 0 4) = pcapMagicNumberNanoBe ∨ (!true) = true)) =
        (decide (u32FromLe (slice raw 0 4) = pcapMagicNumberBe ∨
          u32FromLe (slice raw 0 4) = pcapMagicNumberNanoBe)) := by
      simp only [Bool.not_true, Bool.false_eq_true, or_false]
    refine ⟨known, ?_⟩
    have magic : u32ToLe (u32FromLe (slice raw 0 4)) = slice raw 0 4 :=
      ByteOrder.u32_readU32 .little (four 0 4 (by decide) rfl)
    have whole := slice_length raw
    rw [length] at whole
    simp only [encode, order, needsSwap, recognised, swaps, magic, UInt32.toUInt32_toInt32]
    rw [ByteOrder.u16_readU16 _ (two 4 6 (by decide) rfl),
      ByteOrder.u16_readU16 _ (two 6 8 (by decide) rfl),
      ByteOrder.u32_readU32 _ (four 8 12 (by decide) rfl),
      ByteOrder.u32_readU32 _ (four 12 16 (by decide) rfl),
      ByteOrder.u32_readU32 _ (four 16 20 (by decide) rfl),
      ByteOrder.u32_readU32 _ (four 20 24 (by decide) rfl),
      slice_append raw (by decide) (by decide), slice_append raw (by decide) (by decide),
      slice_append raw (by decide) (by decide), slice_append raw (by decide) (by decide),
      slice_append raw (by decide) (by decide), slice_append raw (by decide) (by decide), whole]

end PcapFileHeader

namespace SavefileReader

variable {header : PcapFileHeader} (rest : List UInt8) (failure : Option IoError)

theorem openFile_encode (known : header.Known) :
    openFile ⟨header.encode ++ rest, failure⟩ = .ok ⟨header, ⟨rest, failure⟩⟩ := by
  have raw := ByteStream.readExact_append header.encode rest failure
  rw [header.length_encode] at raw
  rw [openFile, raw]
  simp only [PcapFileHeader.parseFileHeader_encode known]

/-- What an opened file consists of. -/
theorem encode_of_openFile {bytes : List UInt8} {failure : Option IoError}
    {reader : SavefileReader} (opened : openFile ⟨bytes, failure⟩ = .ok reader) :
    reader.header.Known ∧
      ∃ rest, bytes = reader.header.encode ++ rest ∧ reader = ⟨reader.header, ⟨rest, failure⟩⟩ := by
  rw [openFile] at opened
  split at opened
  · cases opened
  · rename_i raw left taken
    obtain ⟨left, after⟩ := left
    obtain ⟨length, split, rfl⟩ := ByteStream.bytes_of_readExact taken
    cases parsed : parseFileHeader raw with
    | error e =>
        rw [parsed] at opened
        cases opened
    | ok header =>
        rw [parsed] at opened
        obtain rfl := Except.ok.inj opened
        obtain ⟨known, layout⟩ := PcapFileHeader.encode_of_parse length parsed
        refine ⟨known, left, ?_, rfl⟩
        rw [layout]
        exact split

/-- What the reader makes of a record header, and what it allocates for it. -/
theorem nextPacketAllocating_head (head : RecordHead) :
    nextPacketAllocating ⟨header, ⟨head.encode header.order ++ rest, failure⟩⟩ =
      if head.caplen > header.snaplen ∧ !header.isNano ∧ head.caplen > 0x1000000 then
        ((.error caplenTooLarge, ⟨header, ⟨rest, failure⟩⟩), none)
      else
        match ByteStream.readExact ⟨rest, failure⟩ head.caplen.toNat with
        | (.error e, reader) => ((.error e, ⟨header, reader⟩), some head.caplen)
        | (.ok data, reader) =>
            ((.ok (some ⟨head.tsSec, head.tsFrac, head.caplen, head.origlen, 0, data⟩),
              ⟨header, reader⟩), some head.caplen) := by
  have first := ByteStream.readExact_append (head.encode header.order) rest failure
  rw [head.length_encode] at first
  obtain ⟨sec, frac, cap, orig⟩ := head.readU32_encode header.order
  have order : orderOf header.needsSwap = header.order := rfl
  have unfolded :=
    nextPacketAllocating.eq_1 ⟨header, ⟨head.encode header.order ++ rest, failure⟩⟩
  simp only [first, order, sec, frac, cap, orig] at unfolded
  exact unfolded

theorem nextPacket_head (head : RecordHead) :
    nextPacket ⟨header, ⟨head.encode header.order ++ rest, failure⟩⟩ =
      if head.caplen > header.snaplen ∧ !header.isNano ∧ head.caplen > 0x1000000 then
        (.error caplenTooLarge, ⟨header, ⟨rest, failure⟩⟩)
      else
        match ByteStream.readExact ⟨rest, failure⟩ head.caplen.toNat with
        | (.error e, reader) => (.error e, ⟨header, reader⟩)
        | (.ok data, reader) =>
            (.ok (some ⟨head.tsSec, head.tsFrac, head.caplen, head.origlen, 0, data⟩),
              ⟨header, reader⟩) := by
  rw [nextPacket, nextPacketAllocating_head, apply_ite Prod.fst]
  cases ByteStream.readExact ⟨rest, failure⟩ head.caplen.toNat with
  | mk result reader => cases result <;> rfl

/-- What the reader makes of the 16 bytes before a frame. -/
theorem nextPacket_encodeHeader (record : Record) :
    nextPacket ⟨header, ⟨record.encodeHeader header.order ++ rest, failure⟩⟩ =
      if record.caplen > header.snaplen ∧ !header.isNano ∧ record.caplen > 0x1000000 then
        (.error caplenTooLarge, ⟨header, ⟨rest, failure⟩⟩)
      else
        match ByteStream.readExact ⟨rest, failure⟩ record.data.length with
        | (.error e, reader) => (.error e, ⟨header, reader⟩)
        | (.ok data, reader) => (.ok (some { record.packet with data }), ⟨header, reader⟩) := by
  rw [← record.toNat_caplen]
  exact nextPacket_head rest failure record.head

theorem nextPacket_encode {record : Record} (admitted : header.Admits record) :
    nextPacket ⟨header, ⟨record.encode header.order ++ rest, failure⟩⟩ =
      (.ok (some record.packet), ⟨header, ⟨rest, failure⟩⟩) := by
  have body := ByteStream.readExact_append record.data rest failure
  rw [Record.encode, List.append_assoc, nextPacket_encodeHeader, if_neg admitted, body]
  rfl

/-- The reader returns the records that it admits, and goes on after them. -/
theorem nextPackets_encode {records : List Record}
    (admitted : ∀ record ∈ records, header.Admits record) (count : Nat) :
    nextPackets (records.length + count)
        ⟨header, ⟨records.flatMap (Record.encode header.order) ++ rest, failure⟩⟩ =
      records.map (fun record => .ok (some record.packet)) ++
        nextPackets count ⟨header, ⟨rest, failure⟩⟩ := by
  induction records with
  | nil => rw [List.length_nil, Nat.zero_add]; rfl
  | cons record records ih =>
      have first := nextPacket_encode (records.flatMap (Record.encode header.order) ++ rest)
        failure (admitted record List.mem_cons_self)
      rw [List.length_cons, Nat.succ_add, List.flatMap_cons, List.append_assoc, nextPackets, first,
        ih fun other member => admitted other (List.mem_cons_of_mem _ member)]
      rfl

/-- At the end of the file there is no packet. -/
theorem nextPacket_end (header : PcapFileHeader) :
    nextPacket ⟨header, ⟨[], none⟩⟩ = (.ok none, ⟨header, ⟨[], none⟩⟩) := rfl

end SavefileReader

/-! ## Writing a layout -/

namespace SavefileWriter

theorem written_create (snaplen linktype : UInt32) :
    (create snaplen linktype).written = (PcapFileHeader.new snaplen linktype).encode := by
  have order : (PcapFileHeader.new snaplen linktype).order = .little := rfl
  simp only [create, PcapFileHeader.encode, order, ByteOrder.u16, ByteOrder.u32]

theorem written_writePacket (self : SavefileWriter) (tsSec tsFrac : UInt32) (data : List UInt8) :
    (self.writePacket tsSec tsFrac data).written =
      self.written ++ (Record.cut self.header.snaplen tsSec tsFrac data).encode .little := by
  have kept : data.take (UInt32.ofNat (min data.length self.header.snaplen.toNat)).toNat =
      data.take self.header.snaplen.toNat := by
    rw [← Record.caplen_cut _ tsSec tsFrac, Record.toNat_caplen, Record.cut, List.length_take,
      List.take_eq_take_iff, Nat.min_assoc, Nat.min_self]
  simp only [writePacket, Record.encode, Record.encodeHeader, Record.caplen_cut, ByteOrder.u32,
    kept, List.append_assoc]
  rfl

/-- The records of the packets that a writer of the snapshot length is given. -/
def cutAll (snaplen : UInt32) (packets : List (UInt32 × UInt32 × List UInt8)) : List Record :=
  packets.map fun packet => Record.cut snaplen packet.1 packet.2.1 packet.2.2

theorem written_writePackets (self : SavefileWriter)
    (packets : List (UInt32 × UInt32 × List UInt8)) :
    (self.writePackets packets).written =
      self.written ++ (cutAll self.header.snaplen packets).flatMap (Record.encode .little) := by
  induction packets generalizing self with
  | nil => simp only [writePackets, cutAll, List.foldl_nil, List.map_nil, List.flatMap_nil,
      List.append_nil]
  | cons packet packets ih =>
      rw [writePackets, List.foldl_cons]
      refine (ih _).trans ?_
      rw [written_writePacket, List.append_assoc]
      rfl

/-- No record that the writer makes is longer than its snapshot length. -/
theorem admits_cutAll (snaplen linktype : UInt32)
    (packets : List (UInt32 × UInt32 × List UInt8)) :
    ∀ record ∈ cutAll snaplen packets, (PcapFileHeader.new snaplen linktype).Admits record := by
  intro record member
  obtain ⟨packet, _, rfl⟩ := List.mem_map.mp member
  rintro ⟨longer, _, _⟩
  rw [gt_iff_lt, UInt32.lt_iff_toNat_lt, Record.toNat_caplen, Record.cut] at longer
  exact absurd (List.length_take_le _ _) (Nat.not_le.mpr longer)

end SavefileWriter

/-! ## The round trip -/

/-- The file that `SavefileWriter::create` and `write_packet` make of the packets. -/
def writeFile (snaplen linktype : UInt32) (packets : List (UInt32 × UInt32 × List UInt8)) :
    ByteStream :=
  ((SavefileWriter.create snaplen linktype).writePackets packets).file

theorem writeFile_eq (snaplen linktype : UInt32)
    (packets : List (UInt32 × UInt32 × List UInt8)) :
    writeFile snaplen linktype packets =
      ⟨(PcapFileHeader.new snaplen linktype).encode ++
        ((SavefileWriter.cutAll snaplen packets).flatMap (Record.encode .little) ++ []), none⟩ := by
  rw [writeFile, SavefileWriter.file, SavefileWriter.written_writePackets,
    SavefileWriter.written_create, List.append_nil]
  rfl

theorem openFile_writeFile (snaplen linktype : UInt32)
    (packets : List (UInt32 × UInt32 × List UInt8)) :
    SavefileReader.openFile (writeFile snaplen linktype packets) =
      .ok ⟨PcapFileHeader.new snaplen linktype,
        ⟨(SavefileWriter.cutAll snaplen packets).flatMap (Record.encode .little) ++ [], none⟩⟩ := by
  rw [writeFile_eq]
  exact SavefileReader.openFile_encode _ _ (.inl rfl)

/-- **Round trip.** A file of packets reads back as a header of its snapshot
length and link type, the packets in order with their times, cut to the snapshot
length and with their full lengths, and the end of the file. -/
theorem savefile_roundtrip (snaplen linktype : UInt32)
    (packets : List (UInt32 × UInt32 × List UInt8))
    (short : ∀ packet ∈ packets, packet.2.2.length < 2 ^ 32) :
    ∃ reader, SavefileReader.openFile (writeFile snaplen linktype packets) = .ok reader ∧
      reader.header.snaplen = snaplen ∧ reader.header.linktype = linktype ∧
      ∃ read : List PcapPacket,
        reader.nextPackets (packets.length + 1) = read.map (.ok ∘ some) ++ [.ok none] ∧
        List.Forall₂ (fun (written : UInt32 × UInt32 × List UInt8) (packet : PcapPacket) =>
          packet.tsSec = written.1 ∧ packet.tsFrac = written.2.1 ∧
          packet.data = written.2.2.take (min written.2.2.length snaplen.toNat) ∧
          packet.caplen.toNat = min written.2.2.length snaplen.toNat ∧
          packet.origlen.toNat = written.2.2.length) packets read := by
  refine ⟨_, openFile_writeFile snaplen linktype packets, rfl, rfl,
    (SavefileWriter.cutAll snaplen packets).map Record.packet, ?_, ?_⟩
  · have read := SavefileReader.nextPackets_encode [] none
      (SavefileWriter.admits_cutAll snaplen linktype packets) 1
    rw [show (SavefileWriter.cutAll snaplen packets).length = packets.length from
      List.length_map _] at read
    refine read.trans ?_
    rw [List.map_map]
    rfl
  · rw [SavefileWriter.cutAll, List.map_map, List.forall₂_map_right_iff, List.forall₂_same]
    intro packet member
    refine ⟨rfl, rfl, ?_, ?_, UInt32.toNat_ofNat_of_lt' (short packet member)⟩
    · exact (List.take_eq_take_iff.mpr (by rw [Nat.min_comm packet.2.2.length, Nat.min_assoc,
        Nat.min_self])).symm
    · exact (Record.toNat_caplen _).trans (List.length_take.trans (Nat.min_comm _ _))

/-- Two packets, the longer one cut. -/
theorem savefile_roundtrip_two :
    ∃ reader, SavefileReader.openFile
        (writeFile 3 1 [(1000, 500, [0xde, 0xad, 0xbe, 0xef]), (1001, 0, [1, 2])]) = .ok reader ∧
      reader.header.snaplen = 3 ∧ reader.header.linktype = 1 ∧
      ∃ read : List PcapPacket,
        reader.nextPackets 3 = read.map (.ok ∘ some) ++ [.ok none] ∧
        List.Forall₂ (fun (written : UInt32 × UInt32 × List UInt8) (packet : PcapPacket) =>
          packet.tsSec = written.1 ∧ packet.tsFrac = written.2.1 ∧
          packet.data = written.2.2.take (min written.2.2.length (3 : UInt32).toNat) ∧
          packet.caplen.toNat = min written.2.2.length (3 : UInt32).toNat ∧
          packet.origlen.toNat = written.2.2.length)
          [(1000, 500, [0xde, 0xad, 0xbe, 0xef]), (1001, 0, [1, 2])] read :=
  savefile_roundtrip 3 1 [(1000, 500, [0xde, 0xad, 0xbe, 0xef]), (1001, 0, [1, 2])] (by decide)

end Wnr.Pcap
