import Wnr.Pcap.Capture

/-! # Copying a capture to a file

The copy is a microsecond file whose records are the packets that the capture
yields, cut to its snapshot length. What a reader sees of a packet is the instant
its timestamp denotes, its captured bytes and its two lengths; the copy shows the
same exactly when nothing of this is lost on the way
(`Wnr.Pcap.captureToFile_copies_iff`).
-/

namespace Wnr.Pcap

namespace Capture

variable {self after : Capture} {packet : PacketHeader × List UInt8}

theorem readRest_of_some (returned : self.nextPacket = (.ok (some packet), after)) :
    self.readRest = packet :: after.readRest :=
  source.items_of_some returned

theorem readRest_of_none (returned : self.nextPacket = (.ok none, after)) :
    self.readRest = [] :=
  source.items_of_none returned Source.end_ne_some

theorem readRest_of_error {e : String} (returned : self.nextPacket = (.error e, after)) :
    self.readRest = [] :=
  source.items_of_none returned (Source.error_ne_some e)

/-- Every packet that a capture yields is a whole record. -/
theorem length_of_mem_readRest (member : packet ∈ self.readRest) :
    packet.2.length = packet.1.caplen.toNat := by
  induction self using source.run_induction with
  | item self first after returned ih =>
      rw [readRest_of_some returned] at member
      rcases List.mem_cons.mp member with rfl | later
      · exact (nextPacket_spec returned).2.2.2
      · exact ih later
  | ended self result after returned ended =>
      have nothing : self.readRest = [] := Source.items_of_none returned ended
      rw [nothing] at member
      cases member

/-- What `write_packet` is given of a packet. -/
def written (packet : PacketHeader × List UInt8) : UInt32 × UInt32 × List UInt8 :=
  (packet.1.tsSec, packet.1.tsFrac, packet.2)

end Capture

/-! ## The copies of a source -/

section Copies

open Capture (written)

theorem toNat_of_checkedAdd_one {count next : UInt32} (added : checkedAdd count 1 = some next) :
    next.toNat = count.toNat + 1 := by
  have one : (1 : UInt32).toNat = 1 := rfl
  rw [checkedAdd, one] at added
  split at added
  · rename_i fits
    obtain rfl := Option.some.inj added
    rw [UInt32.toNat_add, one, Nat.mod_eq_of_lt fits]
  · cases added

theorem le_of_checkedAdd_one {count : UInt32} (overflow : checkedAdd count 1 = none) :
    2 ^ 32 ≤ count.toNat + 1 := by
  rw [checkedAdd, show (1 : UInt32).toNat = 1 from rfl] at overflow
  split at overflow
  · cases overflow
  · rename_i wide
    exact Nat.not_lt.mp wide

variable {Handle : Type} {source : Source Handle Packet String}

/-- The copy is complete while the packets can be counted. -/
theorem copyPackets_of_lt {self : Handle} {w : SavefileWriter} {count : UInt32}
    (counted : count.toNat + (source.items self).length < 2 ^ 32) :
    copyPackets source self w count =
      (some (UInt32.ofNat (count.toNat + (source.items self).length)),
        w.writePackets ((source.items self).map written), source.last self) := by
  fun_induction copyPackets source self w count with
  | case1 self w count hdr data after returned shorter w' overflow =>
      rw [source.items_of_some returned, List.length_cons] at counted
      have wide := le_of_checkedAdd_one overflow
      omega
  | case2 self w count hdr data after returned shorter w' next added ih =>
      have advanced := toNat_of_checkedAdd_one added
      rw [source.items_of_some returned, List.length_cons] at counted ⊢
      rw [ih (by omega), advanced, source.last_of_some returned, Nat.add_assoc, Nat.add_comm 1]
      rfl
  | case3 self w count after returned =>
      rw [Source.items_of_none returned Source.end_ne_some,
        Source.last_of_none returned Source.end_ne_some, List.length_nil, Nat.add_zero,
        UInt32.ofNat_toNat]
      rfl
  | case4 self w count e after returned =>
      rw [Source.items_of_none returned (Source.error_ne_some e),
        Source.last_of_none returned (Source.error_ne_some e), List.length_nil, Nat.add_zero,
        UInt32.ofNat_toNat]
      rfl

/-- With more packets the count overflows. -/
theorem copyPackets_of_le {self : Handle} {w : SavefileWriter} {count : UInt32}
    (uncounted : 2 ^ 32 ≤ count.toNat + (source.items self).length) :
    (copyPackets source self w count).1 = none := by
  fun_induction copyPackets source self w count with
  | case1 => rfl
  | case2 self w count hdr data after returned shorter w' next added ih =>
      have advanced := toNat_of_checkedAdd_one added
      rw [source.items_of_some returned, List.length_cons] at uncounted
      exact ih (by omega)
  | case3 self w count after returned =>
      rw [Source.items_of_none returned Source.end_ne_some, List.length_nil,
        Nat.add_zero] at uncounted
      exact absurd count.toNat_lt (Nat.not_lt.mpr uncounted)
  | case4 self w count e after returned =>
      rw [Source.items_of_none returned (Source.error_ne_some e), List.length_nil,
        Nat.add_zero] at uncounted
      exact absurd count.toNat_lt (Nat.not_lt.mpr uncounted)

/-- **The copy of a source** whose packets can be counted is the file of its packets. -/
theorem copyToFile_of_lt {self : Handle} (snaplen linktype : UInt32)
    (counted : (source.items self).length < 2 ^ 32) :
    copyToFile source self snaplen linktype =
      (some (.ok (UInt32.ofNat (source.items self).length)),
        writeFile snaplen linktype ((source.items self).map written), source.last self) := by
  have zero : (0 : UInt32).toNat + (source.items self).length = (source.items self).length :=
    zero_add _
  rw [copyToFile, copyPackets_of_lt (by rwa [zero]), zero]
  rfl

theorem copyToFile_of_le {self : Handle} (snaplen linktype : UInt32)
    (uncounted : 2 ^ 32 ≤ (source.items self).length) :
    (copyToFile source self snaplen linktype).1 = none := by
  have zero : (0 : UInt32).toNat + (source.items self).length = (source.items self).length :=
    zero_add _
  have overflow := copyPackets_of_le (w := .create snaplen linktype) (uncounted.trans_eq zero.symm)
  exact congrArg (Option.map Except.ok) overflow

/-- A copy does not fail. -/
theorem copyToFile_ne_error {self : Handle} (snaplen linktype : UInt32) (e : IoError) :
    (copyToFile source self snaplen linktype).1 ≠ some (.error e) := by
  intro failed
  obtain ⟨count, _, same⟩ := Option.map_eq_some_iff.mp failed
  cases same

end Copies

namespace Capture

/-! ## Reading a file of records -/

/-- A call by the record that is fetched and the filter in force. -/
theorem nextPacket_step (self : Capture) :
    self.nextPacket = match self.reader.nextPacket with
      | (.error e, reader) => (.error e.message, { self with reader })
      | (.ok none, reader) => (.ok none, { self with reader })
      | (.ok (some pkt), reader) =>
          match self.filter with
          | none => (.ok (some pkt.handedOut), { self with reader })
          | some prog =>
              let verdict := self.filterVm.filterOk prog pkt.data
              if verdict.1 then
                (.ok (some pkt.handedOut), { self with reader, filterVm := verdict.2 })
              else nextPacket { self with reader, filterVm := verdict.2 } := by
  fun_cases nextPacket self with
  | case1 e reader fetched => rw [fetched]
  | case2 reader fetched => rw [fetched]
  | case3 pkt reader fetched unfiltered =>
      rw [fetched]
      simp only [unfiltered]
  | case4 pkt reader fetched prog filtered shorter verdict passed =>
      rw [fetched]
      simp only [filtered]
      exact (if_pos passed).symm
  | case5 pkt reader fetched prog filtered shorter verdict rejected =>
      rw [fetched]
      simp only [filtered]
      exact (if_neg rejected).symm

theorem nextPacket_of_fetched {self : Capture} {pkt : PcapPacket} {reader : SavefileReader}
    (fetched : self.reader.nextPacket = (.ok (some pkt), reader))
    (unfiltered : self.filter = none) :
    self.nextPacket = (.ok (some pkt.handedOut), { self with reader }) := by
  rw [nextPacket_step, fetched]
  simp only [unfiltered]

theorem nextPacket_of_passed {self : Capture} {pkt : PcapPacket} {reader : SavefileReader}
    {prog : ForwardProgram} (fetched : self.reader.nextPacket = (.ok (some pkt), reader))
    (filtered : self.filter = some prog) (passed : prog.filter pkt.data = true) :
    self.nextPacket = (.ok (some pkt.handedOut),
      { self with reader, filterVm := (self.filterVm.filterOk prog pkt.data).2 }) := by
  rw [← self.filterVm.filterOk_fst] at passed
  rw [nextPacket_step, fetched]
  simp only [filtered, passed, if_true]

theorem nextPacket_of_end {self : Capture} {reader : SavefileReader}
    (fetched : self.reader.nextPacket = (.ok none, reader)) :
    self.nextPacket = (.ok none, { self with reader }) := by
  rw [nextPacket_step, fetched]

/-- Without a filter a capture yields the records of its file. -/
theorem readRest_encode {self : Capture} {header : PcapFileHeader} {records : List Record}
    (reading : self.reader =
      ⟨header, ⟨records.flatMap (Record.encode header.order) ++ [], none⟩⟩)
    (unfiltered : self.filter = none) (admitted : ∀ record ∈ records, header.Admits record) :
    self.readRest = records.map fun record => record.packet.handedOut := by
  induction records generalizing self with
  | nil =>
      have ended : self.reader.nextPacket = (.ok none, self.reader) := by
        rw [reading]
        exact SavefileReader.nextPacket_end header
      exact readRest_of_none (nextPacket_of_end ended)
  | cons record records ih =>
      rw [List.flatMap_cons, List.append_assoc] at reading
      have fetched := SavefileReader.nextPacket_encode
        (records.flatMap (Record.encode header.order) ++ []) none
        (admitted record List.mem_cons_self)
      rw [← reading] at fetched
      rw [readRest_of_some (nextPacket_of_fetched fetched unfiltered), List.map_cons]
      refine congrArg _ (ih rfl unfiltered fun other member => ?_)
      exact admitted other (List.mem_cons_of_mem _ member)

/-- A file of records is opened as a capture that yields them. -/
theorem openOffline_encode {header : PcapFileHeader} {records : List Record} (known : header.Known)
    (admitted : ∀ record ∈ records, header.Admits record) :
    ∃ opened, openOffline
        ⟨header.encode ++ records.flatMap (Record.encode header.order), none⟩ = .ok opened ∧
      opened.snaplen = header.snaplen ∧
      opened.readRest = records.map fun record => record.packet.handedOut := by
  rw [openOffline, SavefileReader.openFile_encode _ none known]
  refine ⟨_, rfl, rfl, readRest_encode ?_ rfl admitted⟩
  rw [List.append_nil]

/-! ## What a reader sees -/

end Capture

/-- What a reader sees of a packet: the instant in nanoseconds, the captured
bytes and the two lengths. -/
structure Sighting where
  instant : Nat
  data : List UInt8
  caplen : UInt32
  len : UInt32

/-- The nanoseconds in one unit of a file's fractions. -/
def PcapFileHeader.unit (self : PcapFileHeader) : Nat := if self.isNano then 1 else 1000

namespace Capture

def sighting (self : Capture) (packet : PacketHeader × List UInt8) : Sighting where
  instant := packet.1.tsSec.toNat * 10 ^ 9 + packet.1.tsFrac.toNat * self.reader.header.unit
  data := packet.2
  caplen := packet.1.caplen
  len := packet.1.len

/-- The packets that the capture yields, as they are seen. -/
def sightings (self : Capture) : List Sighting := self.readRest.map self.sighting

/-- The packet survives a copy: it is not longer than the snapshot length, it was
captured whole, and its fraction means the same in either unit. -/
def Preserved (self : Capture) (packet : PacketHeader × List UInt8) : Prop :=
  packet.1.caplen ≤ self.snaplen ∧ packet.1.len = packet.1.caplen ∧
    (self.reader.header.isNano → packet.1.tsFrac = 0)

/-- The copy of a packet as it is seen. -/
def copied (self : Capture) (packet : PacketHeader × List UInt8) : Sighting where
  instant := packet.1.tsSec.toNat * 10 ^ 9 + packet.1.tsFrac.toNat * 1000
  data := packet.2.take self.snaplen.toNat
  caplen := UInt32.ofNat (min packet.2.length self.snaplen.toNat)
  len := UInt32.ofNat packet.2.length

variable {self : Capture} {packet : PacketHeader × List UInt8}

theorem copied_eq_sighting_iff (whole : packet.2.length = packet.1.caplen.toNat) :
    self.copied packet = self.sighting packet ↔ self.Preserved packet := by
  have len : UInt32.ofNat packet.2.length = packet.1.caplen := by
    rw [whole, UInt32.ofNat_toNat]
  have caplen : UInt32.ofNat (min packet.2.length self.snaplen.toNat) = packet.1.caplen ↔
      packet.1.caplen ≤ self.snaplen := by
    rw [whole, UInt32.le_iff_toNat_le]
    constructor
    · intro same
      have bound := congrArg UInt32.toNat same
      rw [UInt32.toNat_ofNat_of_lt' (lt_of_le_of_lt (Nat.min_le_left _ _)
        packet.1.caplen.toNat_lt)] at bound
      omega
    · intro inside
      rw [Nat.min_eq_left inside, UInt32.ofNat_toNat]
  have instant : packet.1.tsSec.toNat * 10 ^ 9 + packet.1.tsFrac.toNat * 1000 =
        packet.1.tsSec.toNat * 10 ^ 9 + packet.1.tsFrac.toNat * self.reader.header.unit ↔
      (self.reader.header.isNano → packet.1.tsFrac = 0) := by
    rw [← UInt32.toNat_inj, PcapFileHeader.unit]
    cases self.reader.header.isNano with
    | false => simp only [Bool.false_eq_true, if_false, false_implies]
    | true =>
        simp only [if_true, true_implies, UInt32.toNat_zero]
        omega
  simp only [copied, sighting, Preserved, Sighting.mk.injEq, instant, caplen, len]
  constructor
  · rintro ⟨fraction, -, inside, full⟩
    exact ⟨inside, full.symm, fraction⟩
  · rintro ⟨inside, full, fraction⟩
    have all : packet.2.length ≤ self.snaplen.toNat := by
      rw [whole]
      exact UInt32.le_iff_toNat_le.mp inside
    exact ⟨fraction, List.take_of_length_le all, inside, full.symm⟩

/-- While the packets can be counted, the copy is the file of the packets. -/
theorem captureToFile_of_lt (self : Capture) (linktype : UInt32)
    (counted : self.readRest.length < 2 ^ 32) :
    (self.captureToFile linktype).1 = some (.ok (UInt32.ofNat self.readRest.length)) ∧
      (self.captureToFile linktype).2.1 =
        writeFile self.snaplen linktype (self.readRest.map written) := by
  rw [captureToFile, copyToFile_of_lt self.snaplen linktype counted]
  exact ⟨rfl, rfl⟩

theorem captureToFile_of_le (self : Capture) (linktype : UInt32)
    (uncounted : 2 ^ 32 ≤ self.readRest.length) : (self.captureToFile linktype).1 = none :=
  copyToFile_of_le self.snaplen linktype uncounted

/-- What the copy shows. -/
theorem openOffline_writeFile (self : Capture) (linktype : UInt32) :
    ∃ copy, openOffline (writeFile self.snaplen linktype (self.readRest.map written)) = .ok copy ∧
      copy.sightings = self.readRest.map self.copied := by
  let reader : SavefileReader := ⟨PcapFileHeader.new self.snaplen linktype,
    ⟨(SavefileWriter.cutAll self.snaplen (self.readRest.map written)).flatMap
      (Record.encode .little) ++ [], none⟩⟩
  let copy : Capture := ⟨reader, self.snaplen, linktype.toInt32, none, .new, ""⟩
  have read : copy.readRest = _ :=
    readRest_encode rfl rfl (SavefileWriter.admits_cutAll self.snaplen linktype _)
  refine ⟨copy, ?_, ?_⟩
  · rw [openOffline, openFile_writeFile]
    rfl
  rw [sightings, read, List.map_map, SavefileWriter.cutAll, List.map_map, List.map_map]
  refine List.map_congr_left fun packet _ => ?_
  simp only [Function.comp_apply, written, copied, sighting, PcapPacket.handedOut, Record.packet,
    Record.caplen_cut]
  rfl

end Capture

/-- **Copying a capture.** The copy shows a reader what the capture yields
exactly when the packets can be counted and each of them survives the copy. -/
theorem captureToFile_copies_iff (self : Capture) (linktype : UInt32) :
    (∃ count copy, (self.captureToFile linktype).1 = some (.ok count) ∧
        Capture.openOffline (self.captureToFile linktype).2.1 = .ok copy ∧
        copy.sightings = self.sightings) ↔
      self.readRest.length < 2 ^ 32 ∧ ∀ packet ∈ self.readRest, self.Preserved packet := by
  obtain ⟨copy, opened, shown⟩ := self.openOffline_writeFile linktype
  have same : copy.sightings = self.sightings ↔
      ∀ packet ∈ self.readRest, self.Preserved packet := by
    rw [shown, Capture.sightings, List.map_inj_left]
    refine forall₂_congr fun packet member => ?_
    exact Capture.copied_eq_sighting_iff (Capture.length_of_mem_readRest member)
  by_cases counted : self.readRest.length < 2 ^ 32
  · obtain ⟨returned, made⟩ := self.captureToFile_of_lt linktype counted
    rw [made, ← same]
    constructor
    · rintro ⟨_, copy', _, opened', seen⟩
      rw [opened] at opened'
      cases opened'
      exact ⟨counted, seen⟩
    · rintro ⟨-, seen⟩
      exact ⟨_, copy, returned, opened, seen⟩
  · have panicked := self.captureToFile_of_le linktype (Nat.not_lt.mp counted)
    refine iff_of_false ?_ fun preserved => counted preserved.1
    rintro ⟨_, _, returned, _⟩
    rw [panicked] at returned
    cases returned

theorem setFilter_empty (self : Capture) :
    ∃ prog : ForwardProgram, prog.insns = [ret bpfAccept] ∧
      self.setFilter "" = (.ok (), { self with filter := some prog, filterVm := .new }) := by
  have compiled : FilterBuilder.compile "" self.linktype = .ok ⟨[ret bpfAccept]⟩ := rfl
  refine ⟨.ofCompiled compiled, rfl, ?_⟩
  rw [Capture.setFilter]
  split
  · rename_i compiled'
    rw [compiled] at compiled'
    cases compiled'
  · rename_i program compiled'
    rw [compiled] at compiled'
    cases compiled'
    rfl

/-- Two of four bytes were captured: the copy says that there were two. -/
theorem captureToFile_loses_length :
    ¬ ∀ (header : PcapFileHeader) (records : List Record) (expr : String)
      (opened filtered : Capture),
      header.Known → (∀ record ∈ records, header.Admits record) →
        Capture.openOffline
            ⟨header.encode ++ records.flatMap (Record.encode header.order), none⟩ = .ok opened →
          opened.setFilter expr = (.ok (), filtered) →
            ∃ count copy, (filtered.captureToFile header.linktype).1 = some (.ok count) ∧
              Capture.openOffline (filtered.captureToFile header.linktype).2.1 = .ok copy ∧
                copy.sightings = filtered.sightings := by
  intro copies
  let header := PcapFileHeader.new 65535 1
  let record : Record := ⟨1000, 0, 4, [0xde, 0xad], by decide⟩
  let reader : SavefileReader := ⟨header, ⟨record.encode header.order ++ [], none⟩⟩
  let opened : Capture := ⟨reader, 65535, (1 : UInt32).toInt32, none, .new, ""⟩
  obtain ⟨prog, accepts, set⟩ := setFilter_empty opened
  have found : Capture.openOffline ⟨header.encode ++ [record].flatMap (Record.encode header.order),
      none⟩ = .ok opened := by
    rw [Capture.openOffline, List.flatMap_cons, List.flatMap_nil,
      SavefileReader.openFile_encode _ none (.inl rfl)]
    rfl
  have admitted : header.Admits record := by
    rintro ⟨longer, _, _⟩
    exact absurd longer (by decide)
  have fetched := SavefileReader.nextPacket_encode [] none admitted
  let filtered : Capture := { opened with filter := some prog, filterVm := .new }
  have yielded : filtered.readRest = [record.packet.handedOut] := by
    have returned : filtered.nextPacket = (.ok (some record.packet.handedOut), _) :=
      Capture.nextPacket_of_passed fetched rfl (prog.filter_accept accepts _)
    rw [Capture.readRest_of_some returned]
    exact congrArg _ (Capture.readRest_of_none
      (Capture.nextPacket_of_end (SavefileReader.nextPacket_end header)))
  obtain ⟨_, copy, _, shown, seen⟩ := copies header [record] "" opened filtered (.inl rfl)
    (by simpa only [List.forall_mem_singleton] using admitted) found set
  obtain ⟨copy', shown', seen'⟩ := filtered.openOffline_writeFile header.linktype
  rw [(filtered.captureToFile_of_lt header.linktype (by rw [yielded]; decide)).2, shown'] at shown
  cases shown
  rw [seen', Capture.sightings, yielded, List.map_singleton, List.map_singleton] at seen
  have preserved := (Capture.copied_eq_sighting_iff rfl).mp (List.singleton_inj.mp seen)
  exact absurd preserved.2.1 (by decide)

end Wnr.Pcap
