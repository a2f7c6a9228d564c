import Wnr.Pcap.SavefileRecords

/-! # The byte order of savefiles

A capture can be stored in either byte order, with microseconds or nanoseconds.
The magic number tells the reader both, and what it reads of the stored capture
does not depend on the byte order (`Wnr.Pcap.byte_order_transparent`).
-/

namespace Wnr.Pcap

open Bytes

/-- What a savefile stores, apart from how. -/
structure StoredCapture where
  versionMajor : UInt16
  versionMinor : UInt16
  thiszone : Int32
  sigfigs : UInt32
  snaplen : UInt32
  linktype : UInt32
  nano : Bool
  records : List Record

namespace StoredCapture

variable (capture : StoredCapture) (order : ByteOrder)

/-- The magic number as the machine that stores the capture writes it. -/
def magicNumber : UInt32 := if capture.nano then pcapMagicNumberNano else pcapMagicNumber

/-- The file with every field in one byte order. -/
def encode : List UInt8 :=
  order.u32 capture.magicNumber ++ order.u16 capture.versionMajor ++
    order.u16 capture.versionMinor ++ order.u32 capture.thiszone.toUInt32 ++
    order.u32 capture.sigfigs ++ order.u32 capture.snaplen ++ order.u32 capture.linktype ++
    capture.records.flatMap (Record.encode order)

/-- The magic number as the reader sees it, least significant byte first. -/
def magicSeen : UInt32 :=
  match order with
  | .little => capture.magicNumber
  | .big => if capture.nano then pcapMagicNumberNanoBe else pcapMagicNumberBe

/-- The header that the reader makes of the file. -/
def header : PcapFileHeader where
  magic := capture.magicSeen order
  versionMajor := capture.versionMajor
  versionMinor := capture.versionMinor
  thiszone := capture.thiszone
  sigfigs := capture.sigfigs
  snaplen := capture.snaplen
  linktype := capture.linktype

theorem known_header : (capture.header order).Known := by
  obtain ⟨_, _, _, _, _, _, nano, _⟩ := capture
  cases order <;> cases nano <;>
    simp only [PcapFileHeader.Known, header, magicSeen, magicNumber, if_true, Bool.false_eq_true,
      if_false, true_or, or_true]

theorem order_header : (capture.header order).order = order := by
  obtain ⟨_, _, _, _, _, _, nano, _⟩ := capture
  cases order <;> cases nano <;> rfl

theorem isNano_header : (capture.header order).isNano = capture.nano := by
  obtain ⟨_, _, _, _, _, _, nano, _⟩ := capture
  cases order <;> cases nano <;> rfl

/-- The big-endian magic numbers are the others with their bytes swapped. -/
theorem u32_magicNumber : order.u32 capture.magicNumber = u32ToLe (capture.magicSeen order) := by
  have micro : ByteOrder.big.u32 pcapMagicNumber = u32ToLe pcapMagicNumberBe := by decide
  have nano : ByteOrder.big.u32 pcapMagicNumberNano = u32ToLe pcapMagicNumberNanoBe := by decide
  cases order with
  | little => rfl
  | big =>
      simp only [magicSeen, magicNumber]
      split
      · exact nano
      · exact micro

theorem encode_eq : capture.encode order =
    (capture.header order).encode ++
      capture.records.flatMap (Record.encode (capture.header order).order) := by
  rw [encode, PcapFileHeader.encode, order_header, u32_magicNumber]
  rfl

theorem openFile_encode (failure : Option IoError) :
    SavefileReader.openFile ⟨capture.encode order, failure⟩ =
      .ok ⟨capture.header order,
        ⟨capture.records.flatMap (Record.encode (capture.header order).order), failure⟩⟩ := by
  rw [encode_eq]
  exact SavefileReader.openFile_encode _ failure (capture.known_header order)

end StoredCapture

/-- Headers that agree on the snapshot length and the precision have the same
records read, each in its own byte order. -/
theorem SavefileReader.readToEnd_encode_congr {first second : PcapFileHeader}
    (snaplen : first.snaplen = second.snaplen) (isNano : first.isNano = second.isNano)
    (records : List Record) (failure : Option IoError) :
    readToEnd ⟨first, ⟨records.flatMap (Record.encode first.order), failure⟩⟩ =
      readToEnd ⟨second, ⟨records.flatMap (Record.encode second.order), failure⟩⟩ := by
  induction records with
  | nil =>
      -- the header plays no part at the end of the file
      have empty : ([] : List UInt8).length < 16 := by decide
      have last (header : PcapFileHeader) := nextPacket_part header empty failure
      by_cases ending : (failure.getD .unexpectedEof).kind = .unexpectedEof
      · have stops (header : PcapFileHeader) : readToEnd ⟨header, ⟨[], failure⟩⟩ = ([], .ok ()) :=
          readToEnd_of_none (Prod.ext ((last header).trans (if_pos ending)) rfl)
        exact (stops first).trans (stops second).symm
      · have stops (header : PcapFileHeader) : readToEnd ⟨header, ⟨[], failure⟩⟩ =
            ([], .error (failure.getD .unexpectedEof)) :=
          readToEnd_of_error (Prod.ext ((last header).trans (if_neg ending)) rfl)
        exact (stops first).trans (stops second).symm
  | cons record records ih =>
      by_cases admitted : first.Admits record
      · have admitted' : second.Admits record := by
          rwa [PcapFileHeader.Admits, ← snaplen, ← isNano]
        rw [List.flatMap_cons, List.flatMap_cons,
          readToEnd_of_some (nextPacket_encode _ failure admitted),
          readToEnd_of_some (nextPacket_encode _ failure admitted'), ih]
      · have refused (header : PcapFileHeader) (other : ¬ header.Admits record) :
            readToEnd ⟨header, ⟨(record :: records).flatMap (Record.encode header.order), failure⟩⟩ =
              ([], .error caplenTooLarge) := by
          have failed : nextPacket
              ⟨header, ⟨(record :: records).flatMap (Record.encode header.order), failure⟩⟩ =
              (.error caplenTooLarge, ⟨header,
                ⟨record.data ++ records.flatMap (Record.encode header.order), failure⟩⟩) := by
            rw [List.flatMap_cons, Record.encode, List.append_assoc, nextPacket_encodeHeader]
            exact if_pos (not_not.mp other)
          exact readToEnd_of_error failed
        have refused' : ¬ second.Admits record := by
          rwa [PcapFileHeader.Admits, ← snaplen, ← isNano]
        exact (refused first admitted).trans (refused second refused').symm

/-- **Byte order is transparent.** The big-endian and the little-endian file of a
capture are read as the same header, apart from the magic number, with the same
precision, and as the same packets with the same ending. -/
theorem byte_order_transparent (capture : StoredCapture) (failure : Option IoError) :
    ∃ big little,
      SavefileReader.openFile ⟨capture.encode .big, failure⟩ = .ok big ∧
      SavefileReader.openFile ⟨capture.encode .little, failure⟩ = .ok little ∧
      { big.header with magic := little.header.magic } = little.header ∧
      big.header.isNano = little.header.isNano ∧ big.header.isNano = capture.nano ∧
      big.readToEnd = little.readToEnd := by
  have nano := capture.isNano_header .big
  have same := nano.trans (capture.isNano_header .little).symm
  have snaplen : (capture.header .big).snaplen = (capture.header .little).snaplen := rfl
  exact ⟨_, _, capture.openFile_encode .big failure, capture.openFile_encode .little failure, rfl,
    same, nano, SavefileReader.readToEnd_encode_congr snaplen same capture.records failure⟩

end Wnr.Pcap
