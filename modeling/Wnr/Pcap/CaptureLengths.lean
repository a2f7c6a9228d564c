import Wnr.Pcap.FilteredCapture
import Wnr.Pcap.LiveCapture

/-! # The lengths that a capture reports

The header of a packet gives the number of its bytes, and this number should be at
most the snapshot length. The first holds of every packet. The second is a property
of the file or of the frames: an offline capture has it exactly when reading comes to
no complete record that is longer, and a live capture when it was opened for at least
64 bytes or no frame is longer (`Wnr.Pcap.packetsFit_iff`).
-/

namespace Wnr.Pcap

/-- The header gives the number of the captured bytes, and these are at most `snaplen`. -/
def HeaderFits (snaplen : UInt32) (packet : PacketHeader × List UInt8) : Prop :=
  packet.2.length = packet.1.caplen.toNat ∧ packet.1.caplen ≤ snaplen

/-! ## Offline -/

namespace PcapFileHeader

/-- Reading from `bytes` on comes to `rest`, over records within the snapshot length and over
record headers that the check of the length refuses. -/
inductive ReadsTo (self : PcapFileHeader) (rest : List UInt8) : List UInt8 → Prop where
  | here : ReadsTo self rest rest
  | record {record : Record} {bytes : List UInt8} (within : record.caplen ≤ self.snaplen)
      (later : ReadsTo self rest bytes) : ReadsTo self rest (record.encode self.order ++ bytes)
  | refused {head : RecordHead} {bytes : List UInt8}
      (refused : head.caplen > self.snaplen ∧ !self.isNano ∧ head.caplen > 0x1000000)
      (later : ReadsTo self rest bytes) : ReadsTo self rest (head.encode self.order ++ bytes)

/-- Reading comes to a complete record longer than the snapshot length that passes the check. -/
def ComesToLong (self : PcapFileHeader) (bytes : List UInt8) : Prop :=
  ∃ (record : Record) (rest : List UInt8),
    self.ReadsTo (record.encode self.order ++ rest) bytes ∧ self.Admits record ∧
      self.snaplen < record.caplen

end PcapFileHeader

/-- The file comes to a complete record longer than its snapshot length. -/
def ComesToLong (bytes : List UInt8) : Prop :=
  ∃ (header : PcapFileHeader) (records : List UInt8),
    header.Known ∧ bytes = header.encode ++ records ∧ header.ComesToLong records

namespace Capture

/-- The handle after a call. -/
def afterCall (self : Capture) : CaptureCall → Capture
  | .nextPacket => self.nextPacket.2
  | .setFilter expr => (self.setFilter expr).2

/-- The handle after calls. -/
def afterCalls (self : Capture) (calls : List CaptureCall) : Capture := calls.foldl afterCall self

/-- Whatever has been called before, a packet that `next_packet` returns has a header that fits. -/
def PacketsFit (self : Capture) : Prop :=
  ∀ calls packet, (self.afterCalls calls).nextPacket.1 = .ok (some packet) →
    HeaderFits (self.afterCalls calls).snaplen packet

end Capture

/-! ### Reading -/

namespace PcapFileHeader

variable {self : PcapFileHeader}

theorem ReadsTo.length_le {rest bytes : List UInt8} (reads : self.ReadsTo rest bytes) :
    rest.length ≤ bytes.length := by
  induction reads with
  | here => exact Nat.le_refl _
  | record within later ih =>
      rw [List.length_append]
      exact ih.trans (Nat.le_add_left _ _)
  | refused refused later ih =>
      rw [List.length_append]
      exact ih.trans (Nat.le_add_left _ _)

/-- At the end of the file there is no record. -/
theorem not_comesToLong_nil : ¬ self.ComesToLong [] := by
  intro long
  obtain ⟨record, rest, reads, -⟩ := long
  have length := reads.length_le
  rw [List.length_append, Record.length_encode, List.length_nil] at length
  omega

end PcapFileHeader

namespace SavefileReader

variable {header : PcapFileHeader}

/-- Reading on does not come to a record that is too long. -/
def Clear (header : PcapFileHeader) (reader : SavefileReader) : Prop :=
  ∃ stream, reader = ⟨header, stream⟩ ∧ ¬ header.ComesToLong stream.bytes

theorem Clear.ended (header : PcapFileHeader) (failure : Option IoError) :
    Clear header ⟨header, ⟨[], failure⟩⟩ :=
  ⟨⟨[], failure⟩, rfl, PcapFileHeader.not_comesToLong_nil⟩

/-- **One record.** A call keeps the file clear, and a record that it returns is within the
snapshot length. -/
theorem Clear.nextPacket {reader : SavefileReader} (clear : Clear header reader) :
    Clear header reader.nextPacket.2 ∧
      ∀ pkt, reader.nextPacket.1 = .ok (some pkt) → pkt.caplen ≤ header.snaplen := by
  obtain ⟨⟨bytes, failure⟩, rfl, clear⟩ := clear
  obtain ⟨result, ended, none⟩ | ⟨head, rest, rfl, large, refused⟩ |
    ⟨record, rest, rfl, admitted, given⟩ := nextPacket_cases header bytes failure
  · rw [ended]
    exact ⟨.ended header failure, fun pkt returned => absurd returned (none pkt)⟩
  · rw [refused]
    refine ⟨⟨⟨rest, failure⟩, rfl, ?_⟩, fun pkt returned => by cases returned⟩
    rintro ⟨record, later, reads, long⟩
    exact clear ⟨record, later, .refused large reads, long⟩
  · have within : record.caplen ≤ header.snaplen := by
      apply UInt32.not_lt.mp
      intro long
      exact clear ⟨record, rest, .here, admitted, long⟩
    rw [given]
    refine ⟨⟨⟨rest, failure⟩, rfl, ?_⟩, ?_⟩
    · rintro ⟨other, later, reads, long⟩
      exact clear ⟨other, later, .record within reads, long⟩
    · rintro pkt ⟨⟩
      exact within

/-- The same of a call whose result is known. -/
theorem Clear.fetched {reader after : SavefileReader} {result : Except IoError (Option PcapPacket)}
    (clear : Clear header reader) (fetched : reader.nextPacket = (result, after)) :
    Clear header after ∧ ∀ pkt, result = .ok (some pkt) → pkt.caplen ≤ header.snaplen := by
  have read := clear.nextPacket
  rwa [fetched] at read

end SavefileReader

/-! ### Runs of calls -/

namespace Capture

variable {header : PcapFileHeader}

/-- What a clear capture keeps: its reader is clear, and its snapshot length the header's. -/
structure Clear (header : PcapFileHeader) (capture : Capture) : Prop where
  reader : SavefileReader.Clear header capture.reader
  snaplen : capture.snaplen = header.snaplen

/-- **One packet.** A call keeps the capture clear, and a packet that it returns fits. -/
theorem Clear.nextPacket {self : Capture} (clear : Clear header self) :
    Clear header self.nextPacket.2 ∧
      ∀ packet, self.nextPacket.1 = .ok (some packet) → packet.1.caplen ≤ header.snaplen := by
  fun_induction Capture.nextPacket self with
  | case1 self e reader fetched =>
      obtain ⟨kept, _⟩ := clear.reader.fetched fetched
      exact ⟨⟨kept, clear.snaplen⟩, fun packet returned => by cases returned⟩
  | case2 self reader fetched =>
      obtain ⟨kept, _⟩ := clear.reader.fetched fetched
      exact ⟨⟨kept, clear.snaplen⟩, fun packet returned => by cases returned⟩
  | case3 self pkt reader fetched unfiltered =>
      obtain ⟨kept, within⟩ := clear.reader.fetched fetched
      refine ⟨⟨kept, clear.snaplen⟩, ?_⟩
      rintro packet ⟨⟩
      exact within pkt rfl
  | case4 self pkt reader fetched prog filtered shorter verdict passed =>
      obtain ⟨kept, within⟩ := clear.reader.fetched fetched
      refine ⟨⟨kept, clear.snaplen⟩, ?_⟩
      rintro packet ⟨⟩
      exact within pkt rfl
  | case5 self pkt reader fetched prog filtered shorter verdict rejected ih =>
      obtain ⟨kept, _⟩ := clear.reader.fetched fetched
      exact ih ⟨kept, clear.snaplen⟩

theorem Clear.setFilter {self : Capture} (clear : Clear header self) (expr : String) :
    Clear header (self.setFilter expr).2 := by
  unfold Capture.setFilter
  split
  · exact ⟨clear.reader, clear.snaplen⟩
  · exact ⟨clear.reader, clear.snaplen⟩

/-- **Whole runs** keep the capture clear. -/
theorem Clear.afterCalls {self : Capture} (clear : Clear header self) (calls : List CaptureCall) :
    Clear header (self.afterCalls calls) := by
  induction calls generalizing self with
  | nil => exact clear
  | cons call calls ih =>
      cases call with
      | nextPacket => exact ih clear.nextPacket.1
      | setFilter expr => exact ih (clear.setFilter expr)

theorem Clear.packetsFit {self : Capture} (clear : Clear header self) : self.PacketsFit := by
  intro calls packet returned
  have reached := clear.afterCalls calls
  refine ⟨(nextPacket_spec (Prod.ext returned rfl)).2.2.2, ?_⟩
  rw [reached.snaplen]
  exact reached.nextPacket.2 packet returned

/-- Without a filter a call reads on by one record. -/
theorem nextPacket_unfiltered {self : Capture} (unfiltered : self.filter = none) :
    self.nextPacket.2 = { self with reader := self.reader.nextPacket.2 } := by
  rw [nextPacket_step, unfiltered]
  split
  · rename_i fetched
    rw [fetched]
  · rename_i fetched
    rw [fetched]
  · rename_i fetched
    rw [fetched]

/-- Unfiltered, calls of `next_packet` come to whatever reading comes to. -/
theorem exists_calls {self : Capture} {rest bytes : List UInt8} {failure : Option IoError}
    (unfiltered : self.filter = none) (reading : self.reader = ⟨header, ⟨bytes, failure⟩⟩)
    (reads : header.ReadsTo rest bytes) :
    ∃ calls, self.afterCalls calls = { self with reader := ⟨header, ⟨rest, failure⟩⟩ } := by
  induction reads generalizing self with
  | here =>
      refine ⟨[], ?_⟩
      rw [← reading]
      rfl
  | @record record bytes within later ih =>
      have admitted : header.Admits record := by
        intro refused
        exact UInt32.not_lt.mpr within refused.1
      have moved := nextPacket_unfiltered unfiltered
      rw [reading, SavefileReader.nextPacket_encode _ _ admitted] at moved
      obtain ⟨calls, reached⟩ := @ih self.nextPacket.2 (by rw [moved]; exact unfiltered)
        (by rw [moved])
      refine ⟨.nextPacket :: calls, reached.trans ?_⟩
      rw [moved]
  | @refused head bytes refused later ih =>
      have moved := nextPacket_unfiltered unfiltered
      rw [reading, SavefileReader.nextPacket_head, if_pos refused] at moved
      obtain ⟨calls, reached⟩ := @ih self.nextPacket.2 (by rw [moved]; exact unfiltered)
        (by rw [moved])
      refine ⟨.nextPacket :: calls, reached.trans ?_⟩
      rw [moved]

/-- A record that is too long is returned after some calls. -/
theorem not_packetsFit {self : Capture} {bytes : List UInt8} {failure : Option IoError}
    (unfiltered : self.filter = none) (reading : self.reader = ⟨header, ⟨bytes, failure⟩⟩)
    (snaplen : self.snaplen = header.snaplen) (long : header.ComesToLong bytes) :
    ¬ self.PacketsFit := by
  intro fits
  obtain ⟨record, rest, reads, admitted, longer⟩ := long
  obtain ⟨calls, reached⟩ := exists_calls unfiltered reading reads
  have here := @nextPacket_of_fetched
    { self with reader := ⟨header, ⟨record.encode header.order ++ rest, failure⟩⟩ } _ _
    (SavefileReader.nextPacket_encode rest failure admitted) unfiltered
  have returned : (self.afterCalls calls).nextPacket.1 = .ok (some record.packet.handedOut) := by
    rw [reached, here]
  have bound := (fits calls _ returned).2
  rw [reached, snaplen] at bound
  exact UInt32.not_lt.mpr bound longer

/-- **Offline**, all packets fit exactly if the file comes to no record that is too long. -/
theorem packetsFit_iff_of_openOffline {file : ByteStream} {opened : Capture}
    (opens : openOffline file = .ok opened) :
    opened.PacketsFit ↔ ¬ Pcap.ComesToLong file.bytes := by
  obtain ⟨bytes, failure⟩ := file
  rw [openOffline] at opens
  split at opens
  · cases opens
  · rename_i reader found
    cases opens
    constructor
    · rintro fits ⟨header, records, known, rfl, long⟩
      rw [SavefileReader.openFile_encode records failure known] at found
      cases found
      exact not_packetsFit rfl rfl rfl long fits
    · intro clear
      obtain ⟨known, records, rfl, whole⟩ := SavefileReader.encode_of_openFile found
      have unread : SavefileReader.Clear reader.header reader := by
        refine ⟨⟨records, failure⟩, whole, ?_⟩
        intro long
        exact clear ⟨reader.header, records, known, rfl, long⟩
      exact Clear.packetsFit ⟨unread, rfl⟩

end Capture

/-! ## Live -/

namespace LiveCapture

/-- Whatever has been called before, a packet that `next_packet` returns has a header that fits. -/
def PacketsFit (self : LiveCapture) : Prop :=
  ∀ calls packet, (self.afterCalls calls).nextPacket.1 = .ok (some packet) →
    HeaderFits (self.afterCalls calls).snaplen packet

/-- No frame is longer than the snapshot length. -/
def ShortFrames (receptions : List Reception) (snaplen : UInt32) : Prop :=
  ∀ kind frame, .frame kind frame ∈ receptions → frame.length ≤ snaplen.toNat

variable {self : LiveCapture} {snaplen : UInt32}

theorem packetsFit_of_short (opened : OpenedWith self snaplen)
    (short : 64 ≤ snaplen ∨ ShortFrames self.raw.socket snaplen) : self.PacketsFit := by
  intro calls packet returned
  have kept := self.afterCalls_keeps calls
  obtain ⟨⟨kind, frame, member, front⟩, caplen⟩ := nextPacket_spec (Prod.ext returned rfl)
  have size : packet.2.length = min (max snaplen.toNat 64) frame.length := by
    rw [front, List.length_take, kept.buf, opened.buf]
  have range := snaplen.toNat_lt
  have counted : packet.2.length < 2 ^ 32 := by omega
  have whole : packet.1.caplen.toNat = packet.2.length := by
    rw [caplen]
    exact UInt32.toNat_ofNat_of_lt' counted
  refine ⟨whole.symm, ?_⟩
  rw [kept.snaplen, opened.snaplen, UInt32.le_iff_toNat_le, whole, size]
  rcases short with wide | short
  · have atLeast : 64 ≤ snaplen.toNat := UInt32.le_iff_toNat_le.mp wide
    omega
  · have fits := short kind frame (kept.socket.subset member)
    omega

/-- The buffer takes 64 bytes of a frame whatever the snapshot length. -/
theorem not_packetsFit (opened : OpenedWith self snaplen) (small : snaplen < 64) {kind : UInt8}
    {frame : List UInt8} (member : .frame kind frame ∈ self.raw.socket)
    (long : snaplen.toNat < frame.length) : ¬ self.PacketsFit := by
  intro fits
  obtain ⟨front, rest, split⟩ := List.append_of_mem member
  obtain ⟨calls, socket, unfiltered, both⟩ := self.exists_calls opened.unfiltered opened.both split
  have kept := self.afterCalls_keeps calls
  obtain ⟨pkt, received, data⟩ := (RawCapture.nextPacket_inOut both socket).2.2 kind frame rfl
  obtain ⟨filled, bound⟩ := fits calls _ ((nextPacket_unfiltered unfiltered).2 pkt received)
  have size : pkt.handedOut.2.length = min (max snaplen.toNat 64) frame.length := by
    rw [PcapPacket.handedOut, data, List.length_take, kept.buf, opened.buf]
  rw [kept.snaplen, opened.snaplen, UInt32.le_iff_toNat_le] at bound
  have below : snaplen.toNat < 64 := UInt32.lt_iff_toNat_lt.mp small
  omega

/-- **Live**, all packets fit exactly if the capture was opened for at least 64 bytes or no
frame is longer than it was opened for. -/
theorem packetsFit_iff_of_openLive {sys : PacketSystem} {device : String} {opened : LiveCapture}
    (opens : openLive sys device snaplen = .ok opened) :
    opened.PacketsFit ↔ 64 ≤ snaplen ∨ ShortFrames opened.raw.socket snaplen := by
  have fresh := openedWith_of_openLive opens
  constructor
  · intro fits
    by_contra neither
    rw [not_or, UInt32.not_le] at neither
    obtain ⟨small, long⟩ := neither
    apply long
    intro kind frame member
    by_contra longer
    exact not_packetsFit fresh small member (Nat.not_le.mp longer) fits
  · exact packetsFit_of_short fresh

end LiveCapture

/-! ## Both backends -/

/-- **The lengths that are reported.** Every packet that an offline capture returns has as many
bytes as its header says, and at most the snapshot length, exactly if its file comes to no record
that is longer; a live capture, exactly if it was opened for at least 64 bytes or no frame that
comes in is longer than it was opened for. -/
theorem packetsFit_iff (file : ByteStream) (offline : Capture) (sys : PacketSystem)
    (device : String) (snaplen : UInt32) (live : LiveCapture) :
    (Capture.openOffline file = .ok offline →
      (offline.PacketsFit ↔ ¬ ComesToLong file.bytes)) ∧
    (LiveCapture.openLive sys device snaplen = .ok live →
      (live.PacketsFit ↔ 64 ≤ snaplen ∨ LiveCapture.ShortFrames live.raw.socket snaplen)) :=
  ⟨Capture.packetsFit_iff_of_openOffline, LiveCapture.packetsFit_iff_of_openLive⟩

/-- A system with one interface, on which a frame of 60 bytes comes in. -/
def oneFrame : PacketSystem where
  socket := .ok [.frame 0 (List.replicate 60 0xff)]
  ifNametoindex name := if name = "lo" then 1 else 0
  bind _ := .ok ()
  lastOsError := ⟨.other, "No such device"⟩

theorem packetsFit_iff_applied :
    ∃ offline live,
      (Capture.openOffline (writeFile 65535 1 [(1000, 500, [1, 2])]) = .ok offline ∧
        (offline.PacketsFit ↔ ¬ ComesToLong (writeFile 65535 1 [(1000, 500, [1, 2])]).bytes)) ∧
      LiveCapture.openLive oneFrame "lo" 32 = .ok live ∧
        (live.PacketsFit ↔
          64 ≤ (32 : UInt32) ∨ LiveCapture.ShortFrames live.raw.socket 32) := by
  have found : ∃ offline, Capture.openOffline (writeFile 65535 1 [(1000, 500, [1, 2])]) =
      .ok offline := by
    rw [Capture.openOffline, openFile_writeFile]
    exact ⟨_, rfl⟩
  have found' : ∃ live, LiveCapture.openLive oneFrame "lo" 32 = .ok live := ⟨_, rfl⟩
  obtain ⟨offline, opens⟩ := found
  obtain ⟨live, opens'⟩ := found'
  obtain ⟨fits, fits'⟩ := packetsFit_iff _ offline _ _ _ live
  exact ⟨offline, live, ⟨opens, fits opens⟩, opens', fits' opens'⟩

/-- A record of two bytes in a file of snapshot length 1, and a frame of 60 bytes in a capture
opened for 32, are returned whole. -/
theorem long_packets_returned :
    (¬ ∀ (file : ByteStream) (opened : Capture), Capture.openOffline file = .ok opened →
      opened.PacketsFit) ∧
    ¬ ∀ (sys : PacketSystem) (device : String) (snaplen : UInt32) (opened : LiveCapture),
      LiveCapture.openLive sys device snaplen = .ok opened → opened.PacketsFit := by
  constructor
  · intro always
    let header := PcapFileHeader.new 1 1
    let record : Record := ⟨0, 0, 2, [1, 2], by decide⟩
    have opens : ∃ opened, Capture.openOffline
        ⟨header.encode ++ (record.encode header.order ++ []), none⟩ = .ok opened ∧
        opened.filter = none ∧
        opened.reader = ⟨header, ⟨record.encode header.order ++ [], none⟩⟩ ∧
        opened.snaplen = header.snaplen := by
      rw [Capture.openOffline, SavefileReader.openFile_encode _ none (.inl rfl)]
      exact ⟨_, rfl, rfl, rfl, rfl⟩
    obtain ⟨opened, opens, unfiltered, reading, snaplen⟩ := opens
    have long : header.ComesToLong (record.encode header.order ++ []) :=
      ⟨record, [], .here, fun refused => absurd refused.2.2 (by decide), by decide⟩
    exact Capture.not_packetsFit unfiltered reading snaplen long (always _ opened opens)
  · intro always
    have found : ∃ opened, LiveCapture.openLive oneFrame "lo" 32 = .ok opened ∧
        opened.raw.socket = [.frame 0 (List.replicate 60 0xff)] := ⟨_, rfl, rfl⟩
    obtain ⟨opened, opens, socket⟩ := found
    have member : .frame 0 (List.replicate 60 0xff) ∈ opened.raw.socket := by
      rw [socket]
      exact List.mem_cons_self
    exact LiveCapture.not_packetsFit (LiveCapture.openedWith_of_openLive opens) (by decide) member
      (by decide) (always _ _ _ opened opens)

end Wnr.Pcap
