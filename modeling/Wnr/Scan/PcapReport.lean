import Mathlib.Algebra.Order.BigOperators.Group.List
import Wnr.Foundation.CommandLine
import Wnr.Pcap.Consumers
import Wnr.Pcap.SavefileTruncation
import Wnr.Pcap.StrippedFrames

/-! # The report on a savefile

The `--pcap` command opens a savefile, sets a filter where one is given, and prints a line
for each of the first ten packets and a summary of all. The report is about the packets that
decode and pass the filter, each judged by itself (`Wnr.Scan.pcap_reports`), so that a file
that was cut is reported as the whole records it begins with (`Wnr.Scan.cut_unreported`).
-/

namespace Wnr.Scan

open Text CommandLine Wnr.Pcap

/-! ## The arguments -/

/-- What the arguments of a report say. -/
structure PcapArgs where
  file : Option (List Char)
  filter : Option (List Char)
deriving DecidableEq

/-- Read the arguments from left to right. -/
def parsePcapArgs : List (List Char) → PcapArgs → PcapArgs
  | [], self => self
  | arg :: rest, self =>
      if arg = "--filter".toList then
        match rest with
        | expr :: rest => parsePcapArgs rest { self with filter := some expr }
        -- without an operand it is an option like any other
        | [] => self
      else if arg.head? = some '-' then parsePcapArgs rest self
      else parsePcapArgs rest { self with file := some arg }

namespace PcapArgs

/-- The option that takes the next argument. -/
def takes (arg : List Char) : Bool := arg = "--filter".toList

def file? : Item (List Char) → Option (List Char)
  | .valued _ _ => none
  | .alone arg => if arg.head? = some '-' then none else some arg

def filter? : Item (List Char) → Option (List Char)
  | .valued _ expr => some expr
  | .alone _ => none

/-- What the parts of the arguments come to: the last file and the last filter. -/
def of (parts : List (Item (List Char))) : PcapArgs :=
  ⟨(parts.filterMap file?).getLast?, (parts.filterMap filter?).getLast?⟩

end PcapArgs

theorem parsePcapArgs_eq_foldl (args : List (List Char)) (self : PcapArgs) :
    parsePcapArgs args self = ⟨
      (items PcapArgs.takes args).foldl (fun known part => (PcapArgs.file? part).or known) self.file,
      (items PcapArgs.takes args).foldl (fun known part => (PcapArgs.filter? part).or known)
        self.filter⟩ := by
  -- a word that stands alone, whatever follows it
  have alone (arg : List Char) (rest : List (List Char)) (self : PcapArgs)
      (other : arg ≠ "--filter".toList) : parsePcapArgs (arg :: rest) self =
        parsePcapArgs rest { self with file := (PcapArgs.file? (.alone arg)).or self.file } := by
    rw [parsePcapArgs.eq_def, PcapArgs.file?]
    simp only [other, if_false]
    split <;> rfl
  fun_induction items PcapArgs.takes args generalizing self with
  | case1 => rfl
  | case2 last =>
      by_cases takesOne : last = "--filter".toList
      · rw [takesOne]
        rfl
      · exact alone last [] self takesOne
  | case3 first second rest takesOne ih =>
      rw [of_decide_eq_true takesOne]
      exact ih { self with filter := some second }
  | case4 first second rest takesNone ih =>
      have other : first ≠ "--filter".toList := fun same => takesNone (decide_eq_true same)
      exact (alone first (second :: rest) self other).trans (ih _)

theorem parsePcapArgs_exact (args : List (List Char)) :
    parsePcapArgs args ⟨none, none⟩ = .of (items PcapArgs.takes args) := by
  rw [parsePcapArgs_eq_foldl, foldl_or, foldl_or, Option.or_none, Option.or_none]
  rfl

/-! ## The command -/

/-- A line of the report. -/
inductive PcapLine where
  | noFile
  | unopened (file : List Char) (message : String)
  | badFilter (expr : List Char) (message : String)
  | packet (number caplen len l3len l3off : Nat)
  | summary (total bytes : Nat) (file : List Char)
  | applied (expr : List Char)
deriving DecidableEq

/-- The text of a line; `elapsed` and `rate` are how the duration of the loop and the
packets for each second are printed. -/
def PcapLine.text (elapsed rate : List Char) : PcapLine → List Char
  | .noFile => "no pcap file specified".toList
  | .unopened file message => "failed to open '".toList ++ file ++ "': ".toList ++ message.toList
  | .badFilter expr message => "invalid filter '".toList ++ expr ++ "': ".toList ++ message.toList
  | .packet number caplen len l3len l3off =>
      "pkt #".toList ++ decimal number ++ ": ".toList ++ decimal caplen ++
        " bytes captured (".toList ++ decimal len ++ " on wire), ".toList ++ decimal l3len ++
        " l3 bytes at off ".toList ++ decimal l3off
  | .summary total bytes file =>
      "read ".toList ++ decimal total ++ " packets (".toList ++ decimal bytes ++
        " bytes) from '".toList ++ file ++ "' in ".toList ++ elapsed ++ " (".toList ++ rate ++
        " pkts/sec)".toList
  | .applied expr => "filter applied: '".toList ++ expr ++ "'".toList

/-- The line of a packet. -/
def packetLine (linktype : Int32) (number : Nat) (packet : PacketHeader × List UInt8) : PcapLine :=
  let (l3off, l3len, _) := (stripLinkHeader linktype packet.2).getD (0, 0, [])
  .packet number packet.1.caplen.toNat packet.1.len.toNat l3len l3off

/-- The loop over the packets: the lines of the first ten, and what is counted. The
counters are 64 bits wide in the source and stay below the length of the file
(`Wnr.Scan.counted_le`). -/
def reportPackets (cap : Capture) (total bytes : Nat) : List PcapLine × Nat × Nat :=
  match returned : cap.nextPacket with
  | (.ok (some packet), after) =>
      have : after.unread < cap.unread := (Capture.nextPacket_spec returned).1
      let total := total + 1
      let bytes := bytes + packet.1.caplen.toNat
      let later := reportPackets after total bytes
      if total ≤ 10 then (packetLine after.linktype total packet :: later.1, later.2) else later
  -- the loop ends at an error as at the end of the file
  | (.ok none, _) | (.error _, _) => ([], total, bytes)
termination_by cap.unread
decreasing_by exact this

/-- The report on an opened capture. -/
def reportCapture (cap : Capture) (file : List Char) : List PcapLine :=
  let (lines, total, bytes) := reportPackets cap 0 0
  lines ++ [.summary total bytes file]

/-- Set the filter, where there is one, and report. -/
def reportFiltered (cap : Capture) (file : List Char) (filter : Option (List Char)) :
    List PcapLine :=
  match filter with
  | none => reportCapture cap file
  | some expr =>
      match cap.setFilter (String.ofList expr) with
      | (.error e, _) => [.badFilter expr e]
      | (.ok (), cap) => reportCapture cap file ++ [.applied expr]

/-- The `--pcap` command; `files` is what opening a path gives. -/
def cmdPcap (files : List Char → Except IoError ByteStream) (args : List (List Char)) :
    List PcapLine :=
  let args := parsePcapArgs args ⟨none, none⟩
  match args.file with
  | none => [.noFile]
  | some file =>
      match files file with
      | .error e => [.unopened file e.message]
      | .ok stream =>
          match Capture.openOffline stream with
          | .error e => [.unopened file e]
          | .ok cap => reportFiltered cap file args.filter

/-! ## What is reported -/

/-- The report on packets. -/
def reportOn (linktype : Int32) (file : List Char) (packets : List (PacketHeader × List UInt8)) :
    List PcapLine :=
  ((packets.take 10).mapIdx fun i packet => packetLine linktype (i + 1) packet) ++
    [.summary packets.length (packets.map fun packet => packet.1.caplen.toNat).sum file]

theorem linktype_of_nextPacket {cap : Capture} {packet : PacketHeader × List UInt8}
    {after : Capture} (returned : cap.nextPacket = (.ok (some packet), after)) :
    after.linktype = cap.linktype := by
  obtain ⟨_, listed⟩ := cap.nextPacket_listing
  rw [returned] at listed
  have kept : cap.listing.nextPacket.2.linktype = cap.linktype := by
    unfold Listing.nextPacket
    split <;> rfl
  exact (congrArg Listing.linktype (listed packet rfl)).trans kept

/-- **The loop** counts the packets that are left and prints those whose number is at most
ten. -/
theorem reportPackets_eq (cap : Capture) (total bytes : Nat) :
    reportPackets cap total bytes =
      ((cap.readRest.take (10 - total)).mapIdx fun i packet =>
          packetLine cap.linktype (total + i + 1) packet,
        total + cap.readRest.length,
        bytes + (cap.readRest.map fun packet => packet.1.caplen.toNat).sum) := by
  fun_induction reportPackets cap total bytes with
  | case1 cap total bytes packet after returned shorter total' bytes' later small ih =>
      have room : 10 - total = (10 - (total + 1)) + 1 := by omega
      rw [Capture.readRest_of_some returned, room, List.take_succ_cons, List.mapIdx_cons,
        List.map_cons, List.sum_cons, List.length_cons]
      refine (congrArg (fun counted => (packetLine after.linktype total' packet :: counted.1,
        counted.2)) ih).trans ?_
      simp only [linktype_of_nextPacket returned, Nat.add_assoc, Nat.add_comm 1, Nat.zero_add,
        total', bytes']
  | case2 cap total bytes packet after returned shorter total' bytes' later large ih =>
      have full : 10 - total = 0 := by omega
      have full' : 10 - total' = 0 := by omega
      rw [full'] at ih
      rw [Capture.readRest_of_some returned, full, List.take_zero, List.map_cons, List.sum_cons,
        List.length_cons]
      refine ih.trans ?_
      simp only [List.take_zero, Nat.add_assoc, Nat.add_comm 1, total', bytes']
      rfl
  | case3 cap total bytes after returned =>
      rw [Capture.readRest_of_none returned, List.take_nil]
      rfl
  | case4 cap total bytes e after returned =>
      rw [Capture.readRest_of_error returned, List.take_nil]
      rfl

theorem reportCapture_eq (cap : Capture) (file : List Char) :
    reportCapture cap file = reportOn cap.linktype file cap.readRest := by
  rw [reportCapture, reportPackets_eq, reportOn]
  simp only [Nat.sub_zero, Nat.zero_add]

/-- What `--pcap` prints about a file that can be read and opened: the report on the packets
that decode, without those that a filter rejects, or the message of a filter that does not
compile. -/
def reportOpened (linktype : Int32) (packets : List PcapPacket) (file : List Char)
    (filter : Option (List Char)) : List PcapLine :=
  match filter with
  | none => reportOn linktype file (packets.map PcapPacket.handedOut)
  | some expr =>
      match compiled : FilterBuilder.compile (String.ofList expr) linktype with
      | .error e => [.badFilter expr e]
      | .ok _ =>
          let test := (ForwardProgram.ofCompiled compiled).filter
          reportOn linktype file
            ((packets.filter fun pkt => test pkt.data).map PcapPacket.handedOut) ++ [.applied expr]

/-- What `--pcap` prints about a file, by how it opens. -/
def reportedFile (opening : Except IoError SavefileReader) (file : List Char)
    (filter : Option (List Char)) : List PcapLine :=
  match opening with
  | .error e => [.unopened file e.message]
  | .ok reader => reportOpened reader.header.linktype.toInt32 reader.readToEnd.1 file filter

/-- What `--pcap` prints. -/
def reported (files : List Char → Except IoError ByteStream) (args : PcapArgs) : List PcapLine :=
  match args.file with
  | none => [.noFile]
  | some file => reportedFile (files file >>= SavefileReader.openFile) file args.filter

/-- A capture that has just been opened. -/
theorem openOffline_eq (stream : ByteStream) :
    (∃ e, SavefileReader.openFile stream = .error e ∧
        Capture.openOffline stream = .error e.message) ∨
      ∃ reader opened, SavefileReader.openFile stream = .ok reader ∧
        Capture.openOffline stream = .ok opened ∧ opened.filter = none ∧
        opened.linktype = reader.header.linktype.toInt32 ∧
        opened.readRest = reader.readToEnd.1.map PcapPacket.handedOut := by
  cases found : SavefileReader.openFile stream with
  | error e =>
      refine .inl ⟨e, rfl, ?_⟩
      rw [Capture.openOffline, found]
  | ok reader =>
      have opens := Capture.openOffline.eq_1 stream
      rw [found] at opens
      refine .inr ⟨reader, _, rfl, opens, rfl, rfl, ?_⟩
      have all := readAll_of_openFile found
      rw [readAll, opens] at all
      exact Except.ok.inj all

/-- The report on an opened file, by the packets in it. -/
theorem reportFiltered_eq {opened : Capture} {packets : List PcapPacket} (file : List Char)
    (filter : Option (List Char)) (unfiltered : opened.filter = none)
    (read : opened.readRest = packets.map PcapPacket.handedOut) :
    reportFiltered opened file filter = reportOpened opened.linktype packets file filter := by
  unfold reportFiltered reportOpened
  cases filter with
  | none =>
      simp only
      rw [reportCapture_eq, read]
  | some expr =>
      simp only
      split
      · rename_i e after refused
        split
        · rename_i e' failed
          have same := Capture.setFilter_of_error failed
          rw [refused] at same
          cases same
          rfl
        · rename_i program compiled
          obtain ⟨filtered, set⟩ := Capture.exists_setFilter compiled
          rw [refused] at set
          cases set
      · rename_i filtered set
        obtain ⟨program, compiled, _, link, read'⟩ := Capture.readRest_setFilter unfiltered set
        split
        · rename_i e failed
          rw [compiled] at failed
          cases failed
        · rename_i program' compiled'
          rw [reportCapture_eq, link, read', read, List.filter_map,
            Capture.filter_ofCompiled_congr rfl compiled' compiled]
          rfl

theorem cmdPcap_eq (files : List Char → Except IoError ByteStream) (args : List (List Char)) :
    cmdPcap files args = reported files (parsePcapArgs args ⟨none, none⟩) := by
  generalize parsed : parsePcapArgs args ⟨none, none⟩ = command
  obtain ⟨path, filter⟩ := command
  rw [cmdPcap, reported, parsed]
  cases path with
  | none => rfl
  | some file =>
      cases stream : files file with
      | error e =>
          simp only [stream]
          rfl
      | ok stream' =>
          simp only [stream]
          change _ = reportedFile (SavefileReader.openFile stream') file filter
          rcases openOffline_eq stream' with ⟨e, found, opens⟩ |
            ⟨reader, opened, found, opens, unfiltered, linktype, read⟩
          · rw [opens, found, reportedFile]
          · rw [opens, found, reportedFile, ← linktype]
            exact reportFiltered_eq file filter unfiltered read

/-- **The report.** Whatever the arguments and the files are, `--pcap` reports on the last
file and the last filter that are named: the message of what cannot be opened or compiled,
or the lines of the first ten packets that decode and pass, each judged by itself, and
their number and bytes. -/
theorem pcap_reports (files : List Char → Except IoError ByteStream) (args : List (List Char)) :
    ∃ parts, (∀ other, other.flatMap Item.written = args ∧ Regular PcapArgs.takes other ↔
        other = parts) ∧ cmdPcap files args = reported files (.of parts) := by
  refine ⟨items PcapArgs.takes args, fun other => ?_, ?_⟩
  · rw [← items_eq_iff, eq_comm]
  · rw [cmdPcap_eq, parsePcapArgs_exact]

/-! ## What is counted, and what is not told -/

/-- The records that are read are in the file. -/
theorem size_readToEnd (reader : SavefileReader) :
    (reader.readToEnd.1.map fun pkt => 16 + pkt.caplen.toNat).sum ≤
      reader.reader.bytes.length := by
  fun_induction SavefileReader.readToEnd reader with
  | case1 reader pkt after fetched shorter ih =>
      obtain ⟨record, _, rfl, layout, _⟩ := SavefileReader.encode_of_nextPacket fetched
      rw [List.map_cons, List.sum_cons, layout, List.length_append, record.length_encode,
        show record.packet.caplen.toNat = record.data.length from record.toNat_caplen]
      omega
  | case2 reader after fetched => exact Nat.zero_le _
  | case3 reader e after fetched => exact Nat.zero_le _

/-- The counters stay below the length of the file. -/
theorem counted_le (cap : Capture) :
    16 * (reportPackets cap 0 0).2.1 + (reportPackets cap 0 0).2.2 ≤ cap.unread := by
  have parts (packets : List PcapPacket) :
      (packets.map fun pkt => 16 + pkt.caplen.toNat).sum =
        16 * packets.length + (packets.map fun pkt => pkt.caplen.toNat).sum := by
    induction packets with
    | nil => rfl
    | cons pkt packets ih =>
        rw [List.map_cons, List.sum_cons, ih, List.map_cons, List.sum_cons, List.length_cons]
        omega
  have fewer : (cap.listing.kept.map fun pkt => 16 + pkt.caplen.toNat).sum ≤
      (cap.reader.readToEnd.1.map fun pkt => 16 + pkt.caplen.toNat).sum :=
    (List.filter_sublist.map _).sum_le_sum fun _ _ => Nat.zero_le _
  rw [parts] at fewer
  rw [reportPackets_eq, Capture.readRest_eq]
  simp only [Nat.zero_add, List.length_map, List.map_map]
  exact le_trans fewer (size_readToEnd cap.reader)

/-- A file may be replaced by one that would be reported alike. -/
theorem reported_update {stream stream' : ByteStream}
    (alike : ∀ file filter, reportedFile (SavefileReader.openFile stream) file filter =
      reportedFile (SavefileReader.openFile stream') file filter)
    (files : List Char → Except IoError ByteStream) (path : List Char) (args : PcapArgs) :
    reported (Function.update files path (.ok stream)) args =
      reported (Function.update files path (.ok stream')) args := by
  unfold reported
  cases args.file with
  | none => rfl
  | some file =>
      by_cases here : file = path
      · simp only [here, Function.update_self]
        exact alike path args.filter
      · simp only [Function.update_of_ne here]

/-- **A cut file.** A file that is cut after its header is reported as the file of the
records that it still holds whole: what is missing, or that anything is, does not show. -/
theorem cut_unreported {header : PcapFileHeader} {records : List Record} {cut : Nat}
    (known : header.Known) (admitted : ∀ record ∈ records, header.Admits record)
    (after : 24 ≤ cut) (files : List Char → Except IoError ByteStream) (path : List Char)
    (args : List (List Char)) :
    cmdPcap (Function.update files path (.ok ⟨(header.savefile records).take cut, none⟩)) args =
      cmdPcap (Function.update files path
        (.ok ⟨header.savefile (wholeBefore records (cut - 24)).1, none⟩)) args := by
  obtain ⟨rest, split, _⟩ := wholeBefore_spec header.order records (cut - 24)
  have whole : ∀ record ∈ (wholeBefore records (cut - 24)).1, header.Admits record := by
    intro record member
    apply admitted
    rw [split]
    exact List.mem_append_left rest member
  have opened : SavefileReader.openFile ⟨(header.savefile records).take cut, none⟩ =
      .ok ⟨header, ⟨(records.flatMap (Record.encode header.order)).take (cut - 24), none⟩⟩ := by
    rw [PcapFileHeader.savefile, List.take_append, header.length_encode,
      List.take_of_length_le (le_of_eq_of_le header.length_encode after)]
    exact SavefileReader.openFile_encode _ none known
  have openedWhole := SavefileReader.openFile_encode
    ((wholeBefore records (cut - 24)).1.flatMap (Record.encode header.order)) none known
  have read := SavefileReader.readToEnd_take admitted (cut - 24)
  have readWhole := SavefileReader.readToEnd_encode whole [] none
  rw [SavefileReader.readToEnd_of_none (SavefileReader.nextPacket_end header), List.append_nil,
    List.append_nil] at readWhole
  rw [cmdPcap_eq, cmdPcap_eq]
  refine reported_update (fun file filter => ?_) files path _
  rw [opened, PcapFileHeader.savefile, openedWhole, reportedFile, reportedFile, read, readWhole]

/-- A file of two records, cut inside the data of the second. -/
theorem cut_unreported_data :
    cmdPcap (Function.update (fun _ => .error .unexpectedEof) "a".toList
        (.ok ⟨((PcapFileHeader.new 65535 1).savefile [fourBytes, fourBytes]).take 62, none⟩))
        ["a".toList] =
      cmdPcap (Function.update (fun _ => .error .unexpectedEof) "a".toList
        (.ok ⟨(PcapFileHeader.new 65535 1).savefile
          (wholeBefore [fourBytes, fourBytes] 38).1, none⟩))
        ["a".toList] :=
  cut_unreported (.inl rfl) admits_fourBytes (by decide) _ _ _

end Wnr.Scan
