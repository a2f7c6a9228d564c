import Wnr.Foundation.Sources
import Wnr.Pcap.CompiledFilter
import Wnr.Pcap.SavefileRecords

/-! # Offline captures

A capture reads packets from a savefile and drops those that its filter rejects.
Every packet that is read uses up a part of the file, so that each of the loops
over packets ends.
-/

namespace Wnr.Pcap

/-! ## The capture handle -/

/-- A snapshot of a captured packet with metadata. -/
structure PacketHeader where
  tsSec : UInt32
  tsFrac : UInt32
  /-- Number of bytes actually captured. -/
  caplen : UInt32
  /-- Number of bytes on the wire. -/
  len : UInt32
deriving DecidableEq

/-- A packet as `next_packet` hands it out. -/
abbrev Packet := PacketHeader × List UInt8

/-- What `next_packet` hands out of a record. -/
def PcapPacket.handedOut (pkt : PcapPacket) : Packet :=
  (⟨pkt.tsSec, pkt.tsFrac, pkt.caplen, pkt.origlen⟩, pkt.data)

/-! ### Copies -/

section Copies

variable {Handle : Type} (source : Source Handle Packet String)

/-- The loop of `capture_to_file`: the number of packets, or `none` where counting
them overflows, and the writer. -/
def copyPackets (self : Handle) (w : SavefileWriter) (count : UInt32) :
    Option UInt32 × SavefileWriter × Handle :=
  match returned : source.next self with
  | (.ok (some (hdr, data)), after) =>
      have : source.left after < source.left self := source.less returned
      let w := w.writePacket hdr.tsSec hdr.tsFrac data
      match checkedAdd count 1 with
      | none => (none, w, after)
      | some count => copyPackets after w count
  | (.ok none, after) | (.error _, after) => (some count, w, after)
termination_by source.left self
decreasing_by exact this

/-- Write all packets that a capture of either kind hands out to a savefile. The outer `none`
is the overflow of the count; the file is the one that is left behind. -/
def copyToFile (self : Handle) (snaplen linktype : UInt32) :
    Option (Except IoError UInt32) × ByteStream × Handle :=
  match copyPackets source self (.create snaplen linktype) 0 with
  | (count, w, after) => (count.map .ok, w.file, after)

end Copies

/-! ### Offline -/

/-- A capture handle over a savefile. -/
structure Capture where
  reader : SavefileReader
  snaplen : UInt32
  linktype : Int32
  filter : Option ForwardProgram
  filterVm : BpfVm
  lastErr : String

namespace Capture

/-- Open a savefile for offline reading. -/
def openOffline (file : ByteStream) : Except String Capture :=
  match SavefileReader.openFile file with
  | .error e => .error e.message
  | .ok reader =>
      .ok
        { reader
          snaplen := reader.header.snaplen
          linktype := reader.header.linktype.toInt32
          filter := none
          filterVm := .new
          lastErr := "" }

/-- Set a BPF filter. -/
def setFilter (self : Capture) (expr : String) : Except String Unit × Capture :=
  match compiled : FilterBuilder.compile expr self.linktype with
  | .error e => (.error e, { self with lastErr := "syntax error: " ++ e })
  | .ok _ => (.ok (), { self with filter := some (.ofCompiled compiled), filterVm := .new })

/-- The bytes of the file that have not been read. -/
def unread (self : Capture) : Nat := self.reader.reader.bytes.length

/-- Read the next packet. Returns `none` at end of capture. -/
def nextPacket (self : Capture) :
    Except String (Option (PacketHeader × List UInt8)) × Capture :=
  match fetched : self.reader.nextPacket with
  | (.error e, reader) => (.error e.message, { self with reader })
  | (.ok none, reader) => (.ok none, { self with reader })
  | (.ok (some pkt), reader) =>
      match self.filter with
      | none => (.ok (some pkt.handedOut), { self with reader })
      | some prog =>
          have : reader.reader.bytes.length < self.unread :=
            (SavefileReader.length_of_nextPacket fetched).1
          let verdict := self.filterVm.filterOk prog pkt.data
          if verdict.1 then
            (.ok (some pkt.handedOut), { self with reader, filterVm := verdict.2 })
          -- filtered: on to the next matching packet
          else nextPacket { self with reader, filterVm := verdict.2 }
termination_by self.unread
decreasing_by exact this

/-- What a returned packet says about the capture: a part of the file has been
used up, and the packet is a whole record. -/
theorem nextPacket_spec {self after : Capture} {packet : PacketHeader × List UInt8}
    (returned : self.nextPacket = (.ok (some packet), after)) :
    after.unread < self.unread ∧ after.reader.header = self.reader.header ∧
      after.snaplen = self.snaplen ∧ packet.2.length = packet.1.caplen.toNat := by
  fun_induction nextPacket self with
  | case1 self e reader fetched => cases returned
  | case2 self reader fetched => cases returned
  | case3 self pkt reader fetched unfiltered =>
      obtain ⟨shorter, header, filled⟩ := SavefileReader.length_of_nextPacket fetched
      cases returned
      exact ⟨shorter, header, rfl, filled⟩
  | case4 self pkt reader fetched prog filtered shorter verdict passed =>
      obtain ⟨-, header, filled⟩ := SavefileReader.length_of_nextPacket fetched
      cases returned
      exact ⟨shorter, header, rfl, filled⟩
  | case5 self pkt reader fetched prog filtered shorter verdict rejected ih =>
      obtain ⟨-, header, -⟩ := SavefileReader.length_of_nextPacket fetched
      obtain ⟨less, sameHeader, sameSnaplen, whole⟩ := ih returned
      exact ⟨lt_trans less shorter, sameHeader.trans header, sameSnaplen, whole⟩

/-- A capture as a source of packets. -/
def source : Source Capture Packet String := ⟨nextPacket, unread, fun returned =>
  (nextPacket_spec returned).1⟩

/-- The packets of `read_all`'s loop: those up to the first call that returns none. -/
def readRest (self : Capture) : List Packet := source.items self

/-- Write all captured packets to a savefile until end. -/
def captureToFile (self : Capture) (linktype : UInt32) :
    Option (Except IoError UInt32) × ByteStream × Capture :=
  copyToFile source self self.snaplen linktype

end Capture

/-- Load a capture file fully into memory. -/
def readAll (file : ByteStream) : Except String (List (PacketHeader × List UInt8)) :=
  match Capture.openOffline file with
  | .error e => .error e
  | .ok cap => .ok cap.readRest

end Wnr.Pcap
