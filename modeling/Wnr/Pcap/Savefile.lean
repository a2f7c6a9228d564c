import Wnr.Foundation.ByteStream

/-! # Reading and writing savefiles

A 24-byte global header followed by a series of 16-byte packet records, each
before its frame bytes. The writer is the list of the bytes it has handed to the
file, the reader the header and what is left of the file.
-/

namespace Wnr.Pcap

open Bytes

/-- Magic number for the classic, little-endian, microsecond pcap file. -/
abbrev pcapMagicNumber : UInt32 := 0xa1b2c3d4

/-- Magic number for the little-endian, nanosecond pcap file. -/
abbrev pcapMagicNumberNano : UInt32 := 0xa1b23c4d

/-- Big-endian variants (byte-swapped magic). -/
abbrev pcapMagicNumberBe : UInt32 := 0xd4c3b2a1

abbrev pcapMagicNumberNanoBe : UInt32 := 0x4d3cb2a1

/-- The pcap global header. -/
structure PcapFileHeader where
  magic : UInt32
  versionMajor : UInt16
  versionMinor : UInt16
  thiszone : Int32
  sigfigs : UInt32
  snaplen : UInt32
  linktype : UInt32
deriving DecidableEq

namespace PcapFileHeader

def new (snaplen linktype : UInt32) : PcapFileHeader :=
  { magic := pcapMagicNumber
    versionMajor := 2
    versionMinor := 4
    thiszone := 0
    sigfigs := 0
    snaplen
    linktype }

/-- Whether this header uses nanosecond precision timestamps. -/
def isNano (self : PcapFileHeader) : Bool :=
  self.magic = pcapMagicNumberNano ∨ self.magic = pcapMagicNumberNanoBe

/-- Whether the fields must be byte-swapped (big-endian capture). -/
def needsSwap (self : PcapFileHeader) : Bool :=
  self.magic = pcapMagicNumberBe ∨ self.magic = pcapMagicNumberNanoBe

end PcapFileHeader

/-- A single captured packet record. -/
structure PcapPacket where
  tsSec : UInt32
  tsFrac : UInt32
  caplen : UInt32
  origlen : UInt32
  pkttype : UInt16
  data : List UInt8
deriving DecidableEq

/-- The byte order that a swap flag stands for. -/
def orderOf (swap : Bool) : ByteOrder := if swap then .big else .little

/-! ## The reader -/

/-- A reader over a pcap savefile. -/
structure SavefileReader where
  header : PcapFileHeader
  reader : ByteStream
deriving DecidableEq

/-- `SavefileReader::open`'s error for a file of another kind. -/
def badMagic : IoError := ⟨.invalidData, "not a pcap file (bad magic)"⟩

/-- `SavefileReader::next_packet`'s error for a record that no file should hold. -/
def caplenTooLarge : IoError := ⟨.invalidData, "corrupt controller (caplen too large)"⟩

/-- The header that the first 24 bytes of a file hold. -/
def parseFileHeader (raw : List UInt8) : Except IoError PcapFileHeader :=
  let magic := u32FromLe (slice raw 0 4)
  let known : Bool := magic = pcapMagicNumber ∨ magic = pcapMagicNumberNano ∨
    magic = pcapMagicNumberBe ∨ magic = pcapMagicNumberNanoBe
  let swap : Bool := magic = pcapMagicNumberBe ∨ magic = pcapMagicNumberNanoBe ∨ !known
  if !known then .error badMagic
  else
    let readU16 := (orderOf swap).readU16
    let readU32 := (orderOf swap).readU32
    .ok
      { magic
        versionMajor := readU16 (slice raw 4 6)
        versionMinor := readU16 (slice raw 6 8)
        thiszone := (readU32 (slice raw 8 12)).toInt32
        sigfigs := readU32 (slice raw 12 16)
        snaplen := readU32 (slice raw 16 20)
        linktype := readU32 (slice raw 20 24) }

namespace SavefileReader

/-- Open a pcap file for reading. -/
def openFile (file : ByteStream) : Except IoError SavefileReader :=
  match file.readExact 24 with
  | (.error e, _) => .error e
  | (.ok raw, reader) =>
      match parseFileHeader raw with
      | .error e => .error e
      | .ok header => .ok ⟨header, reader⟩

/-- Read the next packet record, if any, with the length of the buffer that is allocated for the
frame. -/
def nextPacketAllocating (self : SavefileReader) :
    (Except IoError (Option PcapPacket) × SavefileReader) × Option UInt32 :=
  match self.reader.readExact 16 with
  | (.error e, reader) =>
      if e.kind = .unexpectedEof then ((.ok none, { self with reader }), none)
      else ((.error e, { self with reader }), none)
  | (.ok r, reader) =>
      let ru32 := (orderOf self.header.needsSwap).readU32
      let tsSec := ru32 (slice r 0 4)
      let tsFrac := ru32 (slice r 4 8)
      let caplen := ru32 (slice r 8 12)
      let origlen := ru32 (slice r 12 16)
      if caplen > self.header.snaplen ∧ !self.header.isNano ∧ caplen > 0x1000000 then
        ((.error caplenTooLarge, { self with reader }), none)
      else
        match reader.readExact caplen.toNat with
        | (.error e, reader) => ((.error e, { self with reader }), some caplen)
        | (.ok data, reader) =>
            ((.ok (some { tsSec, tsFrac, caplen, origlen, pkttype := 0, data }),
              { self with reader }), some caplen)

/-- Read the next packet record, if any. Returns `none` on clean EOF. -/
def nextPacket (self : SavefileReader) : Except IoError (Option PcapPacket) × SavefileReader :=
  self.nextPacketAllocating.1

/-- The length of the buffer that a call of `next_packet` allocates. -/
def allocation (self : SavefileReader) : Option UInt32 := self.nextPacketAllocating.2

/-- The results of the first `count` calls of `next_packet`. -/
def nextPackets : Nat → SavefileReader → List (Except IoError (Option PcapPacket))
  | 0, _ => []
  | count + 1, self => self.nextPacket.1 :: nextPackets count self.nextPacket.2

end SavefileReader

/-! ## The writer -/

/-- A writer that appends packets to a pcap savefile. -/
structure SavefileWriter where
  header : PcapFileHeader
  written : List UInt8
deriving DecidableEq

namespace SavefileWriter

/-- Create a pcap file for writing. -/
def create (snaplen linktype : UInt32) : SavefileWriter :=
  let header := PcapFileHeader.new snaplen linktype
  { header
    written := u32ToLe header.magic ++ u16ToLe header.versionMajor ++
      u16ToLe header.versionMinor ++ u32ToLe header.thiszone.toUInt32 ++
      u32ToLe header.sigfigs ++ u32ToLe header.snaplen ++ u32ToLe header.linktype }

/-- Write a packet record. -/
def writePacket (self : SavefileWriter) (tsSec tsFrac : UInt32) (data : List UInt8) :
    SavefileWriter :=
  let caplen := UInt32.ofNat (min data.length self.header.snaplen.toNat)
  let origlen := UInt32.ofNat data.length
  { self with
    written := self.written ++ (u32ToLe tsSec ++ u32ToLe tsFrac ++ u32ToLe caplen ++
      u32ToLe origlen) ++ data.take caplen.toNat }

/-- The writer after a packet record for each element of a list, in order. -/
def writePackets (self : SavefileWriter) (packets : List (UInt32 × UInt32 × List UInt8)) :
    SavefileWriter :=
  packets.foldl (fun writer packet => writer.writePacket packet.1 packet.2.1 packet.2.2) self

/-- The file once the writer has been flushed. -/
def file (self : SavefileWriter) : ByteStream := ⟨self.written, none⟩

end SavefileWriter

end Wnr.Pcap
