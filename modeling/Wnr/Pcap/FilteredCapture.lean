import Wnr.Pcap.CaptureCopy

/-! # Filtered captures

A capture is a listing: the packets of its file that have not been looked at, and
the test that its filter is. Asking for a packet takes the packets up to the
first one that passes the test, and a filter that compiles replaces the test. A
capture answers every sequence of calls as its listing does
(`Wnr.Pcap.offline_filtering`), although it keeps one interpreter for all packets
and reads its file as it goes.
-/

namespace Wnr.Pcap

/-! ## Listings -/

/-- What is left of a capture. -/
structure Listing where
  /-- The packets not yet looked at, in the order of the file. -/
  packets : List PcapPacket
  /-- What comes after the packets: the end of the file or an error. -/
  ending : Except IoError Unit
  /-- The test that packets have to pass. -/
  keeps : List UInt8 → Bool
  linktype : Int32

namespace Listing

/-- The answer when no packet is left. -/
def ended (ending : Except IoError Unit) : Except String (Option (PacketHeader × List UInt8)) :=
  match ending with
  | .ok () => .ok none
  | .error e => .error e.message

/-- The first packet that passes the test; the ones before it are dropped. -/
def nextPacket (self : Listing) : Except String (Option (PacketHeader × List UInt8)) × Listing :=
  match self.packets.dropWhile fun pkt => !self.keeps pkt.data with
  | pkt :: packets => (.ok (some pkt.handedOut), { self with packets })
  | [] => (ended self.ending, { self with packets := [] })

/-- A filter that compiles replaces the test, another one changes nothing. -/
def setFilter (self : Listing) (expr : String) : Except String Unit × Listing :=
  match compiled : FilterBuilder.compile expr self.linktype with
  | .error e => (.error e, self)
  | .ok _ => (.ok (), { self with keeps := (ForwardProgram.ofCompiled compiled).filter })

end Listing

/-! ## Sequences of calls -/

/-- A call on a capture handle. -/
inductive CaptureCall where
  | nextPacket
  | setFilter (expr : String)
deriving DecidableEq

inductive CaptureAnswer where
  | packet (result : Except String (Option (PacketHeader × List UInt8)))
  | filterSet (result : Except String Unit)

/-- The answers to calls, up to and including the first one that is not a packet
when a packet is asked for. -/
def answers {Handle : Type}
    (next : Handle → Except String (Option (PacketHeader × List UInt8)) × Handle)
    (set : Handle → String → Except String Unit × Handle) :
    List CaptureCall → Handle → List CaptureAnswer
  | [], _ => []
  | .setFilter expr :: calls, handle =>
      .filterSet (set handle expr).1 :: answers next set calls (set handle expr).2
  | .nextPacket :: calls, handle =>
      match next handle with
      | (.ok (some packet), handle) =>
          .packet (.ok (some packet)) :: answers next set calls handle
      | (result, _) => [.packet result]

/-- Handles that answer each call alike answer all calls alike. -/
theorem answers_congr {Handle Handle' : Type}
    {next : Handle → Except String (Option (PacketHeader × List UInt8)) × Handle}
    {set : Handle → String → Except String Unit × Handle}
    {next' : Handle' → Except String (Option (PacketHeader × List UInt8)) × Handle'}
    {set' : Handle' → String → Except String Unit × Handle'} (view : Handle → Handle')
    (sameNext : ∀ handle, (next handle).1 = (next' (view handle)).1)
    (viewNext : ∀ handle packet, (next handle).1 = .ok (some packet) →
      view (next handle).2 = (next' (view handle)).2)
    (sameSet : ∀ handle expr, (set handle expr).1 = (set' (view handle) expr).1)
    (viewSet : ∀ handle expr, view (set handle expr).2 = (set' (view handle) expr).2)
    (calls : List CaptureCall) (handle : Handle) :
    answers next set calls handle = answers next' set' calls (view handle) := by
  induction calls generalizing handle with
  | nil => rfl
  | cons call calls ih =>
      cases call with
      | setFilter expr => rw [answers, answers, ih, sameSet, viewSet]
      | nextPacket =>
          have same := sameNext handle
          have later := viewNext handle
          rw [answers, answers]
          cases moved : next handle with
          | mk result after =>
              cases moved' : next' (view handle) with
              | mk result' after' =>
                  rw [moved, moved'] at same later
                  simp only at same later
                  subst same
                  match result with
                  | .ok (some packet) =>
                      simp only
                      rw [ih, later packet rfl]
                  | .ok none => rfl
                  | .error e => rfl

/-! ## Captures as listings -/

namespace Capture

/-- The verdict of the filter in force. -/
def keeps (self : Capture) (data : List UInt8) : Bool :=
  match self.filter with
  | none => true
  | some prog => prog.filter data

/-- What is left of the capture. -/
def listing (self : Capture) : Listing where
  packets := self.reader.readToEnd.1
  ending := self.reader.readToEnd.2
  keeps := self.keeps
  linktype := self.linktype

/-- **One packet.** A capture hands out the packet that its listing does. -/
theorem nextPacket_listing (self : Capture) :
    self.nextPacket.1 = self.listing.nextPacket.1 ∧
      ∀ packet, self.nextPacket.1 = .ok (some packet) →
        self.nextPacket.2.listing = self.listing.nextPacket.2 := by
  fun_induction nextPacket self with
  | case1 self e reader fetched =>
      have read := SavefileReader.readToEnd_of_error fetched
      simp only [listing, Listing.nextPacket, read, List.dropWhile_nil, Listing.ended, true_and]
      intro packet returned
      cases returned
  | case2 self reader fetched =>
      have read := SavefileReader.readToEnd_of_none fetched
      simp only [listing, Listing.nextPacket, read, List.dropWhile_nil, Listing.ended, true_and]
      intro packet returned
      cases returned
  | case3 self pkt reader fetched unfiltered =>
      have read := SavefileReader.readToEnd_of_some fetched
      have kept : self.keeps pkt.data = true := by rw [keeps, unfiltered]
      simp only [listing, Listing.nextPacket, read, List.dropWhile_cons, kept, Bool.not_true,
        Bool.false_eq_true, if_false, true_and]
      exact fun _ _ => rfl
  | case4 self pkt reader fetched prog filtered shorter verdict passed =>
      have read := SavefileReader.readToEnd_of_some fetched
      have kept : self.keeps pkt.data = true := by
        rw [keeps, filtered]
        exact (self.filterVm.filterOk_fst prog pkt.data).symm.trans passed
      simp only [listing, Listing.nextPacket, read, List.dropWhile_cons, kept, Bool.not_true,
        Bool.false_eq_true, if_false, true_and]
      exact fun _ _ => rfl
  | case5 self pkt reader fetched prog filtered shorter verdict rejected ih =>
      have read := SavefileReader.readToEnd_of_some fetched
      have dropped : self.keeps pkt.data = false := by
        rw [keeps, filtered]
        exact (self.filterVm.filterOk_fst prog pkt.data).symm.trans (Bool.eq_false_iff.mpr rejected)
      have same : ({ self with reader, filterVm := verdict.2 } : Capture).listing.nextPacket =
          self.listing.nextPacket := by
        simp only [listing, Listing.nextPacket, read, List.dropWhile_cons, dropped, Bool.not_false,
          if_true]
        rfl
      rwa [same] at ih

/-- A filter is set on a capture as on its listing. -/
theorem setFilter_listing (self : Capture) (expr : String) :
    (self.setFilter expr).1 = (self.listing.setFilter expr).1 ∧
      (self.setFilter expr).2.listing = (self.listing.setFilter expr).2 := by
  have linktype : self.listing.linktype = self.linktype := rfl
  unfold setFilter Listing.setFilter
  split <;> split
  · rename_i e failed e' failed'
    rw [linktype, failed] at failed'
    cases failed'
    exact ⟨rfl, rfl⟩
  · rename_i e failed program compiled
    rw [linktype, failed] at compiled
    cases compiled
  · rename_i program compiled e failed
    rw [linktype, compiled] at failed
    cases failed
  · rename_i program compiled program' compiled'
    have same : program = program' := by
      rw [linktype, compiled] at compiled'
      exact Except.ok.inj compiled'
    subst same
    exact ⟨rfl, rfl⟩

/-- The answers of a capture to calls. -/
def answers (self : Capture) (calls : List CaptureCall) : List CaptureAnswer :=
  Pcap.answers nextPacket setFilter calls self

end Capture

/-- The answers of a listing to calls. -/
def Listing.answers (self : Listing) (calls : List CaptureCall) : List CaptureAnswer :=
  Pcap.answers nextPacket setFilter calls self

/-- **A run of calls** on a capture is a run of calls on its listing. -/
theorem Capture.answers_listing (self : Capture) (calls : List CaptureCall) :
    self.answers calls = self.listing.answers calls :=
  answers_congr listing (fun capture => capture.nextPacket_listing.1)
    (fun capture => capture.nextPacket_listing.2)
    (fun capture expr => (capture.setFilter_listing expr).1)
    (fun capture expr => (capture.setFilter_listing expr).2) calls self

/-! ## Reading to the end -/

namespace Listing

/-- The packets that pass the test. -/
def kept (self : Listing) : List PcapPacket := self.packets.filter fun pkt => self.keeps pkt.data

/-- Asking for packets to the end gives those that pass the test and the ending. -/
theorem answers_to_end (self : Listing) :
    self.answers (List.replicate (self.kept.length + 1) .nextPacket) =
      self.kept.map (fun pkt => .packet (.ok (some pkt.handedOut))) ++
        [.packet (ended self.ending)] := by
  obtain ⟨packets, ending, keeps, linktype⟩ := self
  induction packets with
  | nil =>
      cases ending with
      | ok done => rfl
      | error e => rfl
  | cons pkt packets ih =>
      cases verdict : keeps pkt.data with
      | true =>
          have front : kept ⟨pkt :: packets, ending, keeps, linktype⟩ =
              pkt :: kept ⟨packets, ending, keeps, linktype⟩ := List.filter_cons_of_pos verdict
          have returned : nextPacket ⟨pkt :: packets, ending, keeps, linktype⟩ =
              (.ok (some pkt.handedOut), ⟨packets, ending, keeps, linktype⟩) := by
            simp only [nextPacket, List.dropWhile_cons, verdict, Bool.not_true, Bool.false_eq_true,
              if_false]
          rw [front, List.length_cons, List.replicate_succ, answers, Pcap.answers, returned]
          simp only
          rw [← answers, ih]
          rfl
      | false =>
          have dropped : kept ⟨pkt :: packets, ending, keeps, linktype⟩ =
              kept ⟨packets, ending, keeps, linktype⟩ :=
            List.filter_cons_of_neg (Bool.eq_false_iff.mp verdict)
          have same : nextPacket ⟨pkt :: packets, ending, keeps, linktype⟩ =
              nextPacket ⟨packets, ending, keeps, linktype⟩ := by
            simp only [nextPacket, List.dropWhile_cons, verdict, Bool.not_false, if_true]
          rw [List.replicate_succ, answers, Pcap.answers] at ih
          rw [dropped, List.replicate_succ, answers, Pcap.answers, same]
          exact ih

end Listing

/-- A capture that has just been opened is the whole file, unfiltered. -/
theorem Capture.listing_openOffline {file : ByteStream} {opened : Capture}
    (opens : openOffline file = .ok opened) :
    ∃ reader, SavefileReader.openFile file = .ok reader ∧
      opened.listing = ⟨reader.readToEnd.1, reader.readToEnd.2, fun _ => true,
        reader.header.linktype.toInt32⟩ := by
  rw [openOffline] at opens
  split at opens
  · cases opens
  · rename_i reader found
    cases opens
    exact ⟨reader, found, rfl⟩

/-- The capture answers every sequence of calls as the listing of the file's
unfiltered packets does. In particular, once a filter has been set on it, it
returns the packets that the filter accepts, each judged by a new interpreter,
and then the ending of the file. -/
def FiltersOffline (file : ByteStream) (opened : Capture) : Prop :=
  ∃ reader, SavefileReader.openFile file = .ok reader ∧
    (∀ calls, opened.answers calls = Listing.answers
      ⟨reader.readToEnd.1, reader.readToEnd.2, fun _ => true, reader.header.linktype.toInt32⟩
      calls) ∧
    ∀ expr program,
      (compiled : FilterBuilder.compile expr reader.header.linktype.toInt32 = .ok program) →
      let kept := reader.readToEnd.1.filter fun pkt =>
        (ForwardProgram.ofCompiled compiled).filter pkt.data
      opened.answers (.setFilter expr :: List.replicate (kept.length + 1) .nextPacket) =
        .filterSet (.ok ()) :: (kept.map (fun pkt => .packet (.ok (some pkt.handedOut))) ++
          [.packet (Listing.ended reader.readToEnd.2)])

/-- **Filtering offline.** A capture of a savefile is a listing of it. -/
theorem offline_filtering {file : ByteStream} {opened : Capture}
    (opens : Capture.openOffline file = .ok opened) : FiltersOffline file opened := by
  obtain ⟨reader, found, listed⟩ := Capture.listing_openOffline opens
  have runs (calls : List CaptureCall) : opened.answers calls = Listing.answers _ calls :=
    (opened.answers_listing calls).trans (congrArg (Listing.answers · calls) listed)
  refine ⟨reader, found, runs, ?_⟩
  intro expr program compiled kept
  have set : Listing.setFilter ⟨reader.readToEnd.1, reader.readToEnd.2, fun _ => true,
      reader.header.linktype.toInt32⟩ expr = (.ok (), ⟨reader.readToEnd.1, reader.readToEnd.2,
        (ForwardProgram.ofCompiled compiled).filter, reader.header.linktype.toInt32⟩) := by
    unfold Listing.setFilter
    split
    · rename_i e failed
      cases failed.symm.trans compiled
    · rename_i other compiled'
      cases compiled'.symm.trans compiled
      rfl
  rw [runs, Listing.answers, answers, set]
  simp only
  exact congrArg (CaptureAnswer.filterSet (.ok ()) :: ·) (Listing.answers_to_end
    ⟨reader.readToEnd.1, reader.readToEnd.2, (ForwardProgram.ofCompiled compiled).filter,
      reader.header.linktype.toInt32⟩)

/-- An IPv4 frame, an ARP frame and a frame that is too short for either. -/
def mixedPackets : List (UInt32 × UInt32 × List UInt8) :=
  [(1000, 500, List.replicate 12 2 ++ [0x08, 0x00, 0x45]),
    (1001, 0, List.replicate 12 2 ++ [0x08, 0x06, 0x00]), (1002, 0, [1, 2])]

theorem offline_filtering_written :
    ∃ opened, Capture.openOffline (writeFile 65535 1 mixedPackets) = .ok opened ∧
      FiltersOffline (writeFile 65535 1 mixedPackets) opened ∧
      opened.answers [.setFilter "arp", .nextPacket, .nextPacket] =
        [.filterSet (.ok ()),
          .packet (.ok (some (⟨1001, 0, 15, 15⟩, List.replicate 12 2 ++ [0x08, 0x06, 0x00]))),
          .packet (.ok none)] := by
  have found : ∃ opened, Capture.openOffline (writeFile 65535 1 mixedPackets) = .ok opened := by
    rw [Capture.openOffline, openFile_writeFile]
    exact ⟨_, rfl⟩
  obtain ⟨opened, opens⟩ := found
  have filters := offline_filtering opens
  refine ⟨opened, opens, filters, ?_⟩
  obtain ⟨reader, read, -, runs⟩ := filters
  rw [openFile_writeFile] at read
  obtain rfl := Except.ok.inj read
  have admitted := SavefileWriter.admits_cutAll 65535 1 mixedPackets
  have all : SavefileReader.readToEnd ⟨.new 65535 1,
      ⟨(SavefileWriter.cutAll 65535 mixedPackets).flatMap (Record.encode .little) ++ [], none⟩⟩ =
        ((SavefileWriter.cutAll 65535 mixedPackets).map Record.packet ++ [], .ok ()) := by
    have read := SavefileReader.readToEnd_encode admitted [] none
    rwa [SavefileReader.readToEnd_of_none (SavefileReader.nextPacket_end _)] at read
  have kept := runs "arp" _ rfl
  rw [all] at kept
  exact kept

end Wnr.Pcap
