import Wnr.Pcap.SavefileRecords

/-! # The length limit of savefile records

A record may be longer than the snapshot length of its file, but not longer than 16 MiB
as well. The reader checks this in files with microseconds and skips the check in files
with nanoseconds. So the limit holds, and does not depend on the precision, exactly for
the files in which no record header beyond it is reached
(`Wnr.Pcap.guardsLength_iff`).
-/

namespace Wnr.Pcap

open Bytes

namespace PcapFileHeader

/-- The length is beyond the snapshot length and beyond 16 MiB. -/
def Oversize (self : PcapFileHeader) (caplen : UInt32) : Prop :=
  caplen > self.snaplen ∧ caplen > 0x1000000

/-- The nanosecond magic of the byte order. -/
def nanoMagic (self : PcapFileHeader) : UInt32 :=
  if self.needsSwap then pcapMagicNumberNanoBe else pcapMagicNumberNano

/-- The header with the nanosecond magic in place of its own. -/
def withNano (self : PcapFileHeader) : PcapFileHeader := { self with magic := self.nanoMagic }

end PcapFileHeader

namespace SavefileReader

/-- The reader after calls of `next_packet`. -/
def afterCalls (self : SavefileReader) (calls : Nat) : SavefileReader :=
  (fun reader => reader.nextPacket.2)^[calls] self

/-- No call allocates or returns a record beyond the limit. -/
def RefusesOversize (self : SavefileReader) : Prop :=
  ∀ calls,
    (∀ caplen ∈ (self.afterCalls calls).allocation, ¬ self.header.Oversize caplen) ∧
    ∀ pkt, (self.afterCalls calls).nextPacket.1 = .ok (some pkt) →
      ¬ self.header.Oversize pkt.caplen

/-- The results of any number of calls are the same records, ends of the file and errors. -/
def SameDecisions (first second : SavefileReader) : Prop :=
  ∀ calls, (first.nextPackets calls).map Except.toOption =
    (second.nextPackets calls).map Except.toOption

end SavefileReader

/-- What the check of the record length promises of a file: no call of `next_packet` on it
allocates or returns a record beyond the limit, and with the nanosecond magic in place of the
microsecond magic the same records are read and an error is reported at the same places. -/
structure GuardsLength (bytes : List UInt8) : Prop where
  bounded : ∀ reader, SavefileReader.openFile ⟨bytes, none⟩ = .ok reader → reader.RefusesOversize
  precision : ∀ micro, SavefileReader.openFile ⟨bytes, none⟩ = .ok micro →
    micro.header.isNano = false →
      ∃ nano, SavefileReader.openFile
          ⟨u32ToLe micro.header.nanoMagic ++ bytes.drop 4, none⟩ = .ok nano ∧
        micro.SameDecisions nano

/-- After records within the limit there is a record header beyond it, and then `rest`. -/
def PcapFileHeader.OversizeBefore (self : PcapFileHeader) (rest bytes : List UInt8) : Prop :=
  ∃ (records : List Record) (head : RecordHead),
    bytes = records.flatMap (Record.encode self.order) ++ (head.encode self.order ++ rest) ∧
    (∀ record ∈ records, ¬ self.Oversize record.caplen) ∧ self.Oversize head.caplen

/-- The file comes to a record header beyond the limit; if it has microseconds, then with at
least the size of a record header after it. -/
def ComesToOversize (bytes : List UInt8) : Prop :=
  ∃ (header : PcapFileHeader) (records rest : List UInt8),
    header.Known ∧ bytes = header.encode ++ records ∧ header.OversizeBefore rest records ∧
    (header.isNano ∨ 16 ≤ rest.length)

/-! ## Headers -/

namespace PcapFileHeader

variable (self : PcapFileHeader)

theorem known_withNano : self.withNano.Known := by
  unfold Known withNano nanoMagic
  cases self.needsSwap with
  | false => exact .inr (.inl rfl)
  | true => exact .inr (.inr (.inr rfl))

@[simp] theorem isNano_withNano : self.withNano.isNano = true := by
  unfold isNano withNano nanoMagic
  cases self.needsSwap <;> rfl

@[simp] theorem order_withNano : self.withNano.order = self.order := by
  have swaps : self.withNano.needsSwap = self.needsSwap := by
    unfold withNano nanoMagic
    cases self.needsSwap <;> rfl
  rw [order, swaps, order]

/-- Only the first four bytes change. -/
theorem encode_withNano : self.withNano.encode = u32ToLe self.nanoMagic ++ self.encode.drop 4 := by
  have rest : self.encode.drop 4 = self.order.u16 self.versionMajor ++
      self.order.u16 self.versionMinor ++ self.order.u32 self.thiszone.toUInt32 ++
      self.order.u32 self.sigfigs ++ self.order.u32 self.snaplen ++
      self.order.u32 self.linktype := by
    simp only [encode, List.append_assoc]
    exact List.drop_left' (length_u32ToLe _)
  rw [rest, encode, order_withNano]
  simp only [List.append_assoc]
  rfl

/-- With nanoseconds nothing is refused. -/
theorem not_refused {self : PcapFileHeader} (nano : self.isNano = true) (caplen : UInt32) :
    ¬ (caplen > self.snaplen ∧ !self.isNano ∧ caplen > 0x1000000) := by
  intro refused
  rw [nano] at refused
  cases refused.2.1

/-- With microseconds a length beyond the limit is. -/
theorem Oversize.refused {self : PcapFileHeader} {caplen : UInt32} (large : self.Oversize caplen)
    (micro : self.isNano = false) :
    caplen > self.snaplen ∧ !self.isNano ∧ caplen > 0x1000000 := by
  refine ⟨large.1, ?_, large.2⟩
  rw [micro]
  rfl

/-- A record within the limit passes the check. -/
theorem admits_of_not_oversize {record : Record} (within : ¬ self.Oversize record.caplen) :
    self.Admits record := by
  intro refused
  exact within ⟨refused.1, refused.2.2⟩

/-- Every record passes the check in a file with nanoseconds. -/
theorem admits_withNano (record : Record) : self.withNano.Admits record :=
  not_refused self.isNano_withNano record.caplen

variable {self} {rest bytes : List UInt8}

/-- A record within the limit may stand before. -/
theorem OversizeBefore.cons {record : Record} (within : ¬ self.Oversize record.caplen)
    (later : self.OversizeBefore rest bytes) :
    self.OversizeBefore rest (record.encode self.order ++ bytes) := by
  obtain ⟨records, head, rfl, small, large⟩ := later
  refine ⟨record :: records, head, ?_, List.forall_mem_cons.mpr ⟨within, small⟩, large⟩
  rw [List.flatMap_cons, List.append_assoc]

theorem OversizeBefore.head {head : RecordHead} (large : self.Oversize head.caplen)
    (rest : List UInt8) : self.OversizeBefore rest (head.encode self.order ++ rest) :=
  ⟨[], head, rfl, List.forall_mem_nil _, large⟩

theorem OversizeBefore.record {record : Record} (large : self.Oversize record.caplen)
    (rest : List UInt8) :
    self.OversizeBefore (record.data ++ rest) (record.encode self.order ++ rest) := by
  rw [Record.encode, List.append_assoc]
  exact @OversizeBefore.head self record.head large _

theorem OversizeBefore.length_le (reached : self.OversizeBefore rest bytes) :
    16 + rest.length ≤ bytes.length := by
  obtain ⟨records, head, rfl, -⟩ := reached
  simp only [List.length_append, RecordHead.length_encode]
  exact Nat.le_add_left _ _

end PcapFileHeader

namespace SavefileReader

/-! ## Opening -/

/-- With the nanosecond magic of its byte order a file opens as well. -/
theorem openFile_withNano (header : PcapFileHeader) (rest : List UInt8) :
    openFile ⟨u32ToLe header.nanoMagic ++ (header.encode ++ rest).drop 4, none⟩ =
      .ok ⟨header.withNano, ⟨rest, none⟩⟩ := by
  have layout : u32ToLe header.nanoMagic ++ (header.encode ++ rest).drop 4 =
      header.withNano.encode ++ rest := by
    rw [PcapFileHeader.encode_withNano, List.append_assoc, List.drop_append_of_le_length]
    rw [header.length_encode]
    decide
  rw [layout]
  exact openFile_encode rest none header.known_withNano

/-! ## What a call allocates -/

section Allocation

variable {header : PcapFileHeader}

/-- Less than a record header allocates nothing. -/
theorem allocation_part {part : List UInt8} (short : part.length < 16) :
    allocation ⟨header, ⟨part, none⟩⟩ = none := by
  have head : ByteStream.readExact ⟨part, none⟩ 16 = _ := ByteStream.readExact_short short
  rw [allocation, nextPacketAllocating, head]
  rfl

/-- A record header that passes the check allocates its length. -/
theorem allocation_head (head : RecordHead) (rest : List UInt8) :
    allocation ⟨header, ⟨head.encode header.order ++ rest, none⟩⟩ =
      if head.caplen > header.snaplen ∧ !header.isNano ∧ head.caplen > 0x1000000 then none
      else some head.caplen := by
  rw [allocation, nextPacketAllocating_head, apply_ite Prod.snd]
  cases ByteStream.readExact ⟨rest, none⟩ head.caplen.toNat with
  | mk result reader => cases result <;> rfl

/-- A packet that is returned has the length that was allocated. -/
theorem allocation_of_nextPacket {bytes : List UInt8} {pkt : PcapPacket}
    (read : (nextPacket ⟨header, ⟨bytes, none⟩⟩).1 = .ok (some pkt)) :
    allocation ⟨header, ⟨bytes, none⟩⟩ = some pkt.caplen := by
  obtain ⟨record, admitted, rfl, layout, -⟩ := encode_of_nextPacket (Prod.ext read rfl)
  have front : bytes = record.head.encode header.order ++ (record.data ++ _) :=
    layout.trans (List.append_assoc _ _ _)
  rw [front, allocation_head]
  exact if_neg admitted

/-! ## Runs of calls -/

theorem afterCalls_succ (self : SavefileReader) (calls : Nat) :
    self.afterCalls (calls + 1) = self.nextPacket.2.afterCalls calls :=
  Function.iterate_succ_apply _ _ _

/-- What every call keeps holds after any number of calls. -/
theorem afterCalls_invariant {Kept : SavefileReader → Prop}
    (step : ∀ reader, Kept reader → Kept reader.nextPacket.2) {self : SavefileReader}
    (start : Kept self) (calls : Nat) : Kept (self.afterCalls calls) :=
  Function.Iterate.rec Kept start step calls

/-- A file that does not come to a record header beyond the limit, if it has nanoseconds. -/
def Guarded (header : PcapFileHeader) (reader : SavefileReader) : Prop :=
  ∃ bytes, reader = ⟨header, ⟨bytes, none⟩⟩ ∧
    (header.isNano → ∀ rest, ¬ header.OversizeBefore rest bytes)

/-- The rest of the file after less than a record header is empty. -/
theorem nextPacket_short {part : List UInt8} (short : part.length < 16) :
    nextPacket ⟨header, ⟨part, none⟩⟩ = (.ok none, ⟨header, ⟨[], none⟩⟩) := by
  have head : ByteStream.readExact ⟨part, none⟩ 16 = _ := ByteStream.readExact_short short
  rw [nextPacket, nextPacketAllocating, head]
  rfl

theorem Guarded.empty (header : PcapFileHeader) : Guarded header ⟨header, ⟨[], none⟩⟩ := by
  refine ⟨[], rfl, ?_⟩
  intro _ rest reached
  exact absurd reached.length_le (by simp)

/-- Every call keeps the file so. -/
theorem Guarded.nextPacket {reader : SavefileReader} (guarded : Guarded header reader) :
    Guarded header reader.nextPacket.2 := by
  obtain ⟨bytes, rfl, none_beyond⟩ := guarded
  obtain ⟨result, ended, _⟩ | ⟨head, rest, _, large, refused⟩ |
    ⟨record, rest, rfl, _, given⟩ := nextPacket_cases header bytes none
  · rw [ended]
    exact .empty header
  · rw [refused]
    refine ⟨rest, rfl, ?_⟩
    intro nano
    exact absurd large (PcapFileHeader.not_refused nano head.caplen)
  · rw [given]
    refine ⟨rest, rfl, ?_⟩
    intro nano later reached
    by_cases large : header.Oversize record.caplen
    · exact none_beyond nano (record.data ++ rest) (.record large rest)
    · exact none_beyond nano later (.cons large reached)

/-- In such a file no call allocates beyond the limit. -/
theorem Guarded.within {reader : SavefileReader} (guarded : Guarded header reader) :
    ∀ caplen ∈ reader.allocation, ¬ header.Oversize caplen := by
  obtain ⟨bytes, rfl, none_beyond⟩ := guarded
  obtain short | ⟨head, rest, rfl⟩ := RecordHead.split header.order bytes
  · rw [allocation_part short]
    intro caplen member
    cases member
  · rw [allocation_head]
    intro caplen member large
    split at member
    · cases member
    · rename_i admitted
      obtain rfl := Option.some.inj member
      cases nano : header.isNano with
      | false => exact admitted (large.refused nano)
      | true => exact none_beyond nano rest (.head large rest)

/-- In a file with nanoseconds that comes to a record header beyond the limit, a call
allocates its length. -/
theorem exists_allocation {rest bytes : List UInt8} (nano : header.isNano = true)
    (reached : header.OversizeBefore rest bytes) :
    ∃ calls caplen, (afterCalls ⟨header, ⟨bytes, none⟩⟩ calls).allocation = some caplen ∧
      header.Oversize caplen := by
  obtain ⟨records, head, rfl, small, large⟩ := reached
  refine ⟨records.length, head.caplen, ?_, large⟩
  induction records with
  | nil =>
      have admitted := PcapFileHeader.not_refused nano head.caplen
      exact (allocation_head head rest).trans (if_neg admitted)
  | cons record records ih =>
      rw [List.forall_mem_cons] at small
      rw [List.length_cons, List.flatMap_cons, List.append_assoc, afterCalls_succ,
        nextPacket_encode _ _ (header.admits_of_not_oversize small.1)]
      exact ih small.2

/-- **No call allocates or returns a record beyond the limit** exactly if the file has
microseconds or comes to no record header beyond it. -/
theorem refusesOversize_iff (header : PcapFileHeader) (bytes : List UInt8) :
    RefusesOversize ⟨header, ⟨bytes, none⟩⟩ ↔
      (header.isNano → ∀ rest, ¬ header.OversizeBefore rest bytes) := by
  constructor
  · intro refuses nano rest reached
    obtain ⟨calls, caplen, allocates, large⟩ := exists_allocation nano reached
    exact (refuses calls).1 caplen allocates large
  · intro none_beyond calls
    have guarded : Guarded header (afterCalls ⟨header, ⟨bytes, none⟩⟩ calls) :=
      afterCalls_invariant (fun _ => Guarded.nextPacket) ⟨bytes, rfl, none_beyond⟩ calls
    refine ⟨guarded.within, ?_⟩
    intro pkt read
    apply guarded.within
    obtain ⟨left, same, -⟩ := guarded
    rw [same] at read ⊢
    exact allocation_of_nextPacket read

end Allocation

/-! ## Both precisions -/

section Precision

variable {header : PcapFileHeader}

/-- After less than a record header every call finds the end of the file. -/
theorem nextPackets_short {part : List UInt8} (short : part.length < 16) (calls : Nat) :
    nextPackets calls ⟨header, ⟨part, none⟩⟩ = List.replicate calls (.ok none) := by
  induction calls generalizing part with
  | zero => rfl
  | succ calls ih =>
      rw [nextPackets, nextPacket_short short, ih (by decide), List.replicate_succ]

/-- With nanoseconds a record header is read without a check of its length. -/
theorem nextPacket_withNano (head : RecordHead) (rest : List UInt8) :
    nextPacket ⟨header.withNano, ⟨head.encode header.order ++ rest, none⟩⟩ =
      match ByteStream.readExact ⟨rest, none⟩ head.caplen.toNat with
      | (.error e, reader) => (.error e, ⟨header.withNano, reader⟩)
      | (.ok data, reader) =>
          (.ok (some ⟨head.tsSec, head.tsFrac, head.caplen, head.origlen, 0, data⟩),
            ⟨header.withNano, reader⟩) := by
  have read := @nextPacket_head header.withNano rest none head
  rw [header.order_withNano] at read
  exact read.trans (if_neg (PcapFileHeader.not_refused header.isNano_withNano head.caplen))

/-- The first call on either reader decides the same. -/
theorem SameDecisions.head {first second : SavefileReader} (same : first.SameDecisions second) :
    first.nextPacket.1.toOption = second.nextPacket.1.toOption :=
  List.head_eq_of_cons_eq (same 1)

/-- And so do the calls after it. -/
theorem SameDecisions.tail {first second : SavefileReader} (same : first.SameDecisions second) :
    first.nextPacket.2.SameDecisions second.nextPacket.2 :=
  fun calls => List.tail_eq_of_cons_eq (same (calls + 1))

/-- With nanoseconds the frame beyond the limit is returned, or the rest of the file is used
up by the attempt; with microseconds the calls go on after the record header. -/
theorem SameDecisions.short_of_oversize (micro : header.isNano = false) {rest bytes : List UInt8}
    (same : SameDecisions ⟨header, ⟨bytes, none⟩⟩ ⟨header.withNano, ⟨bytes, none⟩⟩)
    (reached : header.OversizeBefore rest bytes) : rest.length < 16 := by
  obtain ⟨records, head, rfl, small, large⟩ := reached
  induction records with
  | nil =>
      rw [List.flatMap_nil, List.nil_append] at same
      have first := same.head
      have second := same.tail.head
      rw [nextPacket_head, if_pos (large.refused micro), nextPacket_withNano] at first second
      by_cases enough : head.caplen.toNat ≤ rest.length
      · rw [ByteStream.readExact, if_pos enough] at first
        cases first
      · rw [ByteStream.readExact_short (Nat.not_le.mp enough)] at second
        have ends : (nextPacket ⟨header, ⟨rest, none⟩⟩).1 = .ok none := by
          cases read : (nextPacket ⟨header, ⟨rest, none⟩⟩).1 with
          | error e =>
              rw [read] at second
              cases second
          | ok result =>
              rw [read] at second
              exact congrArg Except.ok (Option.some.inj second)
        exact (short_of_nextPacket_none (Prod.ext ends rfl)).1
  | cons record records ih =>
      rw [List.forall_mem_cons] at small
      have later := same.tail
      rw [List.flatMap_cons, List.append_assoc,
        nextPacket_encode _ _ (header.admits_of_not_oversize small.1), ← header.order_withNano,
        nextPacket_encode _ _ (header.admits_withNano record), header.order_withNano] at later
      exact ih later small.2

/-- The two precisions go the same way. -/
theorem sameDecisions_of_short (micro : header.isNano = false) {bytes : List UInt8}
    (short : ∀ rest, header.OversizeBefore rest bytes → rest.length < 16) :
    SameDecisions ⟨header, ⟨bytes, none⟩⟩ ⟨header.withNano, ⟨bytes, none⟩⟩ := by
  intro calls
  induction calls generalizing bytes with
  | zero => rfl
  | succ calls ih =>
      obtain part | ⟨head, rest, rfl⟩ := RecordHead.split header.order bytes
      · rw [nextPackets_short part, nextPackets_short part]
      · rw [nextPackets, nextPackets, nextPacket_withNano, nextPacket_head]
        by_cases large : header.Oversize head.caplen
        · have ends := short rest (.head large rest)
          have beyond : rest.length < head.caplen.toNat :=
            lt_trans ends (lt_trans (by decide) (UInt32.lt_iff_toNat_lt.mp large.2))
          rw [if_pos (large.refused micro), ByteStream.readExact_short beyond]
          simp only [List.map_cons]
          rw [nextPackets_short ends, nextPackets_short (by decide)]
          rfl
        · rw [if_neg fun refused => large ⟨refused.1, refused.2.2⟩]
          by_cases enough : head.caplen.toNat ≤ rest.length
          · obtain ⟨record, caplen, layout⟩ := head.exists_record header.order enough
            rw [ByteStream.readExact, if_pos enough]
            simp only [List.map_cons]
            rw [ih]
            intro later reached
            apply short
            rw [layout]
            exact .cons (caplen ▸ large) reached
          · rw [ByteStream.readExact_short (Nat.not_le.mp enough)]
            simp only [List.map_cons]
            rw [nextPackets_short (by decide), nextPackets_short (by decide)]

/-- **Both precisions decide alike** exactly if every record header beyond the limit that
the file comes to is the last one it has room for. -/
theorem sameDecisions_iff (micro : header.isNano = false) (bytes : List UInt8) :
    SameDecisions ⟨header, ⟨bytes, none⟩⟩ ⟨header.withNano, ⟨bytes, none⟩⟩ ↔
      ∀ rest, header.OversizeBefore rest bytes → rest.length < 16 := by
  constructor
  · intro same rest reached
    exact same.short_of_oversize micro reached
  · exact sameDecisions_of_short micro

end Precision

end SavefileReader

/-! ## Every file -/

/-- **The length check** keeps what it promises of exactly those files that do not come to a
record header beyond the limit. -/
theorem guardsLength_iff (bytes : List UInt8) : GuardsLength bytes ↔ ¬ ComesToOversize bytes := by
  constructor
  · rintro guards ⟨header, records, rest, known, rfl, reached, room⟩
    have opened := SavefileReader.openFile_encode records none known
    cases nano : header.isNano with
    | true =>
        have refuses := guards.bounded _ opened
        exact (SavefileReader.refusesOversize_iff header records).mp refuses nano rest reached
    | false =>
        obtain ⟨reader, opened', same⟩ := guards.precision _ opened nano
        rw [SavefileReader.openFile_withNano] at opened'
        obtain rfl := Except.ok.inj opened'
        have short := (SavefileReader.sameDecisions_iff nano records).mp same rest reached
        rw [nano] at room
        exact absurd short (Nat.not_lt.mpr (room.resolve_left Bool.false_ne_true))
  · intro clear
    refine ⟨?_, ?_⟩
    · intro reader opened
      obtain ⟨known, records, rfl, whole⟩ := SavefileReader.encode_of_openFile opened
      rw [whole, SavefileReader.refusesOversize_iff]
      intro nano rest reached
      exact clear ⟨reader.header, records, rest, known, rfl, reached, .inl nano⟩
    · intro micro opened precision
      obtain ⟨known, records, rfl, whole⟩ := SavefileReader.encode_of_openFile opened
      refine ⟨_, SavefileReader.openFile_withNano micro.header records, ?_⟩
      rw [whole]
      apply (SavefileReader.sameDecisions_iff precision records).mpr
      intro rest reached
      by_contra long
      exact clear ⟨micro.header, records, rest, known, rfl, reached, .inr (Nat.not_lt.mp long)⟩

/-- A file with nanoseconds and snapshot length 0, whose first record header tells of one
byte more than 16 MiB: the buffer of that size is allocated. -/
theorem nano_allocates_oversize :
    ¬ GuardsLength ((PcapFileHeader.new 0 1).withNano.encode ++
      RecordHead.encode .little ⟨0, 0, 0x1000001, 0x1000001⟩) := by
  intro guards
  let header := (PcapFileHeader.new 0 1).withNano
  let head : RecordHead := ⟨0, 0, 0x1000001, 0x1000001⟩
  have opened := SavefileReader.openFile_encode (head.encode .little) none
    (PcapFileHeader.new 0 1).known_withNano
  have allocates : SavefileReader.allocation ⟨header, ⟨head.encode .little ++ [], none⟩⟩ =
      some 0x1000001 := SavefileReader.allocation_head head []
  rw [List.append_nil] at allocates
  exact (guards.bounded _ opened 0).1 _ allocates ⟨by decide, by decide⟩

end Wnr.Pcap
