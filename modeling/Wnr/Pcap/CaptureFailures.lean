import Wnr.Pcap.FilteredCapture
import Wnr.Pcap.SavefileTruncation

/-! # Failures while a capture is read

`read_all` and `capture_to_file` loop while packets come and return what came,
whatever stopped the loop. So they report a record that fails to decode exactly
when there is none (`Wnr.Pcap.failure_reported_iff`).
-/

namespace Wnr.Pcap

/-! ## The loops over packets -/

/-- Either a packet that passes the test is handed out, or none is left. -/
theorem Listing.kept_cases (self : Listing) :
    (∃ pkt, self.nextPacket.1 = .ok (some pkt.handedOut) ∧
        self.kept = pkt :: self.nextPacket.2.kept) ∨
      (self.nextPacket.1 = ended self.ending ∧ self.kept = []) := by
  obtain ⟨packets, ending, keeps, linktype⟩ := self
  induction packets with
  | nil => exact .inr ⟨rfl, rfl⟩
  | cons pkt packets ih =>
      cases verdict : keeps pkt.data with
      | true =>
          refine .inl ⟨pkt, ?_, ?_⟩
          · simp only [nextPacket, List.dropWhile_cons, verdict, Bool.not_true, Bool.false_eq_true,
              if_false]
          · simp only [nextPacket, kept, List.dropWhile_cons, List.filter_cons, verdict,
              Bool.not_true, Bool.false_eq_true, if_false, if_true]
      | false =>
          have same : nextPacket ⟨pkt :: packets, ending, keeps, linktype⟩ =
              nextPacket ⟨packets, ending, keeps, linktype⟩ := by
            simp only [nextPacket, List.dropWhile_cons, verdict, Bool.not_false, if_true]
          have dropped : kept ⟨pkt :: packets, ending, keeps, linktype⟩ =
              kept ⟨packets, ending, keeps, linktype⟩ :=
            List.filter_cons_of_neg (Bool.eq_false_iff.mp verdict)
          rwa [same, dropped]

theorem Listing.ended_ne_some (ending : Except IoError Unit) (packet : PacketHeader × List UInt8) :
    ended ending ≠ .ok (some packet) := by
  cases ending with
  | ok done => exact Source.end_ne_some packet
  | error e => exact Source.error_ne_some e.message packet

/-- **The loop of `read_all`** returns the packets that the filter in force accepts. -/
theorem Capture.readRest_eq (self : Capture) :
    self.readRest = self.listing.kept.map PcapPacket.handedOut := by
  induction self using source.run_induction with
  | item self packet after returned ih =>
      obtain ⟨same, later⟩ := self.nextPacket_listing
      have returned : self.nextPacket = (.ok (some packet), after) := returned
      rw [returned] at same later
      rcases self.listing.kept_cases with ⟨pkt, given, kept⟩ | ⟨given, -⟩
      · rw [given] at same
        cases same
        rw [readRest_of_some returned, kept, ← later _ rfl, ih]
        rfl
      · rw [given] at same
        exact absurd same.symm (Listing.ended_ne_some _ _)
  | ended self result after returned ended =>
      have same := self.nextPacket_listing.1
      have returned : self.nextPacket = (result, after) := returned
      rw [returned] at same
      have nothing : self.readRest = [] := source.items_of_none returned ended
      rcases self.listing.kept_cases with ⟨pkt, given, -⟩ | ⟨-, none_⟩
      · rw [given] at same
        exact absurd same (ended _)
      · rw [nothing, none_, List.map_nil]

/-! ## What is reported -/

/-- `read_all` reports a record that fails to decode, and returns only all packets. -/
def ReadAllReports (file : ByteStream) : Prop :=
  ∀ reader, SavefileReader.openFile file = .ok reader →
    ((∃ e, reader.readToEnd.2 = .error e) → ∃ message, readAll file = .error message) ∧
      ∀ packets, readAll file = .ok packets →
        reader.readToEnd.2 = .ok () ∧ packets = reader.readToEnd.1.map PcapPacket.handedOut

/-- `capture_to_file` reports a record that fails to decode, and returns only when
it has counted and written all packets that the filter in force accepts. -/
def CopyReports (self : Capture) (linktype : UInt32) : Prop :=
  ((∃ e, self.reader.readToEnd.2 = .error e) →
      ∃ e, (self.captureToFile linktype).1 = some (.error e)) ∧
    ∀ count, (self.captureToFile linktype).1 = some (.ok count) →
      self.reader.readToEnd.2 = .ok () ∧ count.toNat = self.listing.kept.length ∧
        (self.captureToFile linktype).2.1 = writeFile self.snaplen linktype
          (self.listing.kept.map fun pkt => (pkt.tsSec, pkt.tsFrac, pkt.data))

theorem readAll_of_openFile {file : ByteStream} {reader : SavefileReader}
    (found : SavefileReader.openFile file = .ok reader) :
    readAll file = .ok (reader.readToEnd.1.map PcapPacket.handedOut) := by
  rw [readAll, Capture.openOffline, found]
  simp only [Capture.readRest_eq]
  have all : ∀ pkt ∈ reader.readToEnd.1, (fun _ => true : PcapPacket → Bool) pkt = true :=
    fun _ _ => rfl
  exact congrArg (Except.ok ∘ List.map PcapPacket.handedOut) (List.filter_eq_self.mpr all)

theorem readAllReports_iff (file : ByteStream) :
    ReadAllReports file ↔
      ∀ reader, SavefileReader.openFile file = .ok reader → reader.readToEnd.2 = .ok () := by
  refine forall₂_congr fun reader found => ?_
  rw [readAll_of_openFile found]
  constructor
  · intro ⟨_, complete⟩
    exact (complete _ rfl).1
  · intro clean
    refine ⟨fun ⟨e, failed⟩ => ?_, fun packets returned => ⟨clean, (Except.ok.inj returned).symm⟩⟩
    rw [clean] at failed
    cases failed

theorem copyReports_iff (self : Capture) (linktype : UInt32) :
    CopyReports self linktype ↔ self.reader.readToEnd.2 = .ok () := by
  constructor
  · intro copied
    cases ending : self.reader.readToEnd.2 with
    | ok done => rfl
    | error e =>
        obtain ⟨e', reported⟩ := copied.1 ⟨e, ending⟩
        exact absurd reported (copyToFile_ne_error self.snaplen linktype e')
  · intro clean
    refine ⟨fun failing => ?_, fun count returned => ⟨clean, ?_⟩⟩
    · obtain ⟨e, failed⟩ := failing
      rw [clean] at failed
      cases failed
    by_cases counted : self.readRest.length < 2 ^ 32
    · obtain ⟨total, made⟩ := self.captureToFile_of_lt linktype counted
      rw [total] at returned
      obtain rfl := Except.ok.inj (Option.some.inj returned)
      rw [made, UInt32.toNat_ofNat_of_lt' counted, Capture.readRest_eq, List.length_map,
        List.map_map]
      exact ⟨rfl, rfl⟩
    · have panicked := self.captureToFile_of_le linktype (Nat.not_lt.mp counted)
      rw [panicked] at returned
      cases returned

/-- The capture after calls of `set_filter`. -/
def Capture.setFilters (self : Capture) (exprs : List String) : Capture :=
  exprs.foldl (fun capture expr => (capture.setFilter expr).2) self

theorem Capture.reader_setFilter (self : Capture) (expr : String) :
    (self.setFilter expr).2.reader = self.reader := by
  unfold setFilter
  split <;> rfl

theorem Capture.reader_setFilters (self : Capture) (exprs : List String) :
    (self.setFilters exprs).reader = self.reader := by
  induction exprs generalizing self with
  | nil => rfl
  | cons expr exprs ih => exact (ih _).trans (self.reader_setFilter expr)

/-- **Failures.** `read_all` and `capture_to_file`, the latter under any filter,
report what goes wrong with the records of a file exactly when nothing does. -/
theorem failure_reported_iff (file : ByteStream) (exprs : List String) (linktype : UInt32) :
    (ReadAllReports file ∧ ∀ opened, Capture.openOffline file = .ok opened →
        CopyReports (opened.setFilters exprs) linktype) ↔
      ∀ reader, SavefileReader.openFile file = .ok reader → reader.Intact := by
  simp only [← SavefileReader.readToEnd_eq_ok_iff]
  rw [readAllReports_iff, and_iff_left_iff_imp]
  intro clean opened opens
  obtain ⟨reader, found, listed⟩ := Capture.listing_openOffline opens
  rw [copyReports_iff, Capture.reader_setFilters]
  exact (congrArg Listing.ending listed).trans (clean reader found)

/-- A file that ends inside the data of its only record is read without an error. -/
theorem failure_swallowed :
    ¬ ∀ (file : ByteStream) (exprs : List String) (linktype : UInt32),
      ReadAllReports file ∧ ∀ opened, Capture.openOffline file = .ok opened →
        CopyReports (opened.setFilters exprs) linktype := by
  intro reports
  let header := PcapFileHeader.new 65535 1
  have admitted : header.Admits fourBytes := admits_fourBytes fourBytes List.mem_cons_self
  have known : header.Known := .inl rfl
  have found :=
    SavefileReader.openFile_encode ((fourBytes.encode header.order).take 18) none known
  have cut : 18 < fourBytes.size := by decide
  have read := SavefileReader.readToEnd_part admitted cut
  have clean := (readAllReports_iff _).mp (reports _ [] 1).1 _ found
  rw [read] at clean
  cases clean

end Wnr.Pcap
