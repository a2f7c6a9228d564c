import Mathlib.Logic.Function.Iterate
import Wnr.Pcap.LiveFeed
import Wnr.Pcap.Snapshots

/-! # Recordings of a live capture

`capture_to_file` on a live capture writes the packets that are ready and stops at the first
reception that is no frame. Read back, a recording is what the capture would have handed out,
exactly if nothing was cut (`Wnr.Pcap.LiveCapture.recording_exact_iff`), and one recording
after the other has every wanted frame once (`Wnr.Pcap.LiveCapture.recordings_lossless`).
-/

namespace Wnr.Pcap

/-! ## What is ready -/

/-- The frame of a reception. -/
def Reception.frame? : Reception → Option (UInt8 × List UInt8)
  | .frame kind bytes => some (kind, bytes)
  | .wouldBlock | .failed _ => none

namespace Feed

/-- The frames that come in before a reception that is none. -/
def ready : List Reception → List (UInt8 × List UInt8)
  | .frame kind bytes :: rest => (kind, bytes) :: ready rest
  | [] | .wouldBlock :: _ | .failed _ :: _ => []

/-- What comes in after that reception. -/
def behind : List Reception → List Reception
  | .frame _ _ :: rest => behind rest
  | .wouldBlock :: rest | .failed _ :: rest => rest
  | [] => []

variable (self : Feed)

/-- The packets of frames, without those that are not wanted. -/
def packetsOf (frames : List (UInt8 × List UInt8)) : List Packet :=
  (frames.filter fun frame => self.wants frame.1 (frame.2.take self.size)).map fun frame =>
    (receivedPacket frame.1 (frame.2.take self.size)).handedOut

/-- The packets that are ready. -/
def packets : List Packet := self.packetsOf (ready self.receptions)

/-- The feed with other receptions to come. -/
def awaiting (receptions : List Reception) : Feed := { self with receptions }

@[simp] theorem packetsOf_awaiting (receptions : List Reception) :
    (self.awaiting receptions).packetsOf = self.packetsOf := rfl

@[simp] theorem awaiting_awaiting (receptions receptions' : List Reception) :
    (self.awaiting receptions).awaiting receptions' = self.awaiting receptions' := rfl

@[simp] theorem receptions_awaiting (receptions : List Reception) :
    (self.awaiting receptions).receptions = receptions := rfl

theorem packetsOf_append (first second : List (UInt8 × List UInt8)) :
    self.packetsOf (first ++ second) = self.packetsOf first ++ self.packetsOf second := by
  rw [packetsOf, List.filter_append, List.map_append]
  rfl

/-- What a call for a packet comes to: the first packet that is ready, or, when there is none,
the reception that is no frame. -/
inductive Delivers : Except String (Option Packet) × Feed → Prop where
  | packet {packet : Packet} {rest : List Reception}
      (first : self.packets = packet :: (self.awaiting rest).packets)
      (same : behind rest = behind self.receptions) :
      Delivers (.ok (some packet), self.awaiting rest)
  | last {result : Except String (Option Packet)} (nothing : self.packets = [])
      (notPacket : ∀ packet, result ≠ .ok (some packet)) :
      Delivers (result, self.awaiting (behind self.receptions))

section Frames

variable {self} {kind : UInt8} {bytes : List UInt8}

theorem packetsOf_cons_of_wanted (wanted : self.wants kind (bytes.take self.size) = true)
    (frames : List (UInt8 × List UInt8)) :
    self.packetsOf ((kind, bytes) :: frames) =
      (receivedPacket kind (bytes.take self.size)).handedOut :: self.packetsOf frames := by
  rw [packetsOf, List.filter_cons_of_pos (p := fun frame : UInt8 × List UInt8 =>
    self.wants frame.1 (frame.2.take self.size)) wanted, List.map_cons]
  rfl

theorem packetsOf_cons_of_unwanted (unwanted : self.wants kind (bytes.take self.size) = false)
    (frames : List (UInt8 × List UInt8)) :
    self.packetsOf ((kind, bytes) :: frames) = self.packetsOf frames := by
  rw [packetsOf, List.filter_cons_of_neg (p := fun frame : UInt8 × List UInt8 =>
    self.wants frame.1 (frame.2.take self.size)) (Bool.eq_false_iff.mp unwanted)]
  rfl

/-- A call by what is fetched. -/
theorem nextPacket_awaiting (self : Feed) (receptions : List Reception) :
    (self.awaiting receptions).nextPacket =
      (((fetch self.size self.wants receptions).1.map (·.map PcapPacket.handedOut)).mapError
        IoError.message, self.awaiting (fetch self.size self.wants receptions).2) := rfl

theorem nextPacket_of_wanted (wanted : self.wants kind (bytes.take self.size) = true)
    (rest : List Reception) :
    (self.awaiting (.frame kind bytes :: rest)).nextPacket =
      (.ok (some (receivedPacket kind (bytes.take self.size)).handedOut), self.awaiting rest) := by
  have found : fetch self.size self.wants (.frame kind bytes :: rest) =
      (.ok (some (receivedPacket kind (bytes.take self.size))), rest) := if_pos wanted
  rw [nextPacket_awaiting, found]
  rfl

theorem nextPacket_of_unwanted (unwanted : self.wants kind (bytes.take self.size) = false)
    (rest : List Reception) :
    (self.awaiting (.frame kind bytes :: rest)).nextPacket = (self.awaiting rest).nextPacket := by
  have further : fetch self.size self.wants (.frame kind bytes :: rest) =
      fetch self.size self.wants rest := if_neg (Bool.eq_false_iff.mp unwanted)
  rw [nextPacket_awaiting, nextPacket_awaiting, further]

end Frames

theorem nextPacket_delivers : self.Delivers self.nextPacket := by
  suffices awaits : ∀ receptions, (self.awaiting receptions).Delivers
      (self.awaiting receptions).nextPacket from awaits self.receptions
  intro receptions
  induction receptions with
  | nil => exact .last rfl Source.end_ne_some
  | cons reception rest ih =>
      cases reception with
      | wouldBlock => exact .last rfl Source.end_ne_some
      | failed e => exact .last rfl (Source.error_ne_some e.message)
      | frame kind bytes =>
          cases wanted : self.wants kind (bytes.take self.size) with
          | true =>
              rw [nextPacket_of_wanted wanted]
              exact .packet (packetsOf_cons_of_wanted wanted (ready rest)) rfl
          | false =>
              have same := packetsOf_cons_of_unwanted wanted (ready rest)
              rw [nextPacket_of_unwanted wanted]
              generalize (self.awaiting rest).nextPacket = result at ih
              cases ih with
              | packet first same' => exact .packet (same.trans first) same'
              | last nothing notPacket => exact .last (same.trans nothing) notPacket

/-- What is handed out of a frame fits the buffer. -/
theorem length_of_mem_packetsOf {frames : List (UInt8 × List UInt8)} {packet : Packet}
    (member : packet ∈ self.packetsOf frames) : packet.2.length ≤ self.size := by
  obtain ⟨frame, _, rfl⟩ := List.mem_map.mp member
  exact List.length_take_le _ _

/-- At most every reception is a packet that is ready. -/
theorem length_packets_le : self.packets.length ≤ self.receptions.length := by
  have frames : ∀ receptions, (ready receptions).length ≤ receptions.length := by
    intro receptions
    induction receptions with
    | nil => exact Nat.le_refl _
    | cons reception rest ih =>
        cases reception with
        | wouldBlock | failed e => exact Nat.zero_le _
        | frame kind bytes => exact Nat.succ_le_succ ih
  rw [packets, packetsOf, List.length_map]
  exact (List.length_filter_le _ _).trans (frames _)

/-- A test that comes in where none was applied leaves out the packets that it rejects. -/
theorem packets_filter {self : Feed} (all : self.keeps = fun _ => true)
    (test : List UInt8 → Bool) :
    packets { self with keeps := test } = self.packets.filter fun packet => test packet.2 := by
  rw [packets, packets, packetsOf, packetsOf, List.filter_map, List.filter_filter]
  refine congrArg (List.map _) (List.filter_congr fun frame _ => ?_)
  simp only [wants, all, Bool.and_true, Function.comp, receivedPacket, PcapPacket.handedOut]
  exact Bool.and_comm _ _

/-! ### Receptions up to one that is no frame -/

/-- The receptions that are no frame. -/
def gaps (receptions : List Reception) : Nat :=
  receptions.countP fun reception => reception.frame?.isNone

theorem gaps_cons (reception : Reception) (rest : List Reception) :
    gaps (reception :: rest) = gaps rest + if reception.frame?.isNone then 1 else 0 :=
  List.countP_cons

theorem exists_front (receptions : List Reception) :
    ∃ front, receptions = front ++ behind receptions ∧
      front.filterMap Reception.frame? = ready receptions := by
  induction receptions with
  | nil => exact ⟨[], rfl, rfl⟩
  | cons reception rest ih =>
      cases reception with
      | wouldBlock => exact ⟨[.wouldBlock], rfl, rfl⟩
      | failed e => exact ⟨[.failed e], rfl, rfl⟩
      | frame kind bytes =>
          obtain ⟨front, split, frames⟩ := ih
          exact ⟨.frame kind bytes :: front, congrArg (Reception.frame kind bytes :: ·) split,
            congrArg ((kind, bytes) :: ·) frames⟩

theorem length_behind_iterate_le (n : Nat) (receptions : List Reception) :
    (behind^[n] receptions).length ≤ receptions.length := by
  induction n generalizing receptions with
  | zero => exact Nat.le_refl _
  | succ n ih =>
      obtain ⟨front, split, _⟩ := exists_front receptions
      have fewer := congrArg List.length split
      rw [List.length_append] at fewer
      rw [Function.iterate_succ_apply]
      exact (ih _).trans (by omega)

/-- One reception that is no frame is left behind, if there is one. -/
theorem gaps_behind (receptions : List Reception) :
    gaps (behind receptions) = gaps receptions - 1 ∧
      (gaps receptions = 0 → behind receptions = []) := by
  induction receptions with
  | nil => exact ⟨rfl, fun _ => rfl⟩
  | cons reception rest ih =>
      cases reception with
      | wouldBlock | failed e =>
          rw [gaps_cons, if_pos (by rfl)]
          refine ⟨rfl, ?_⟩
          intro nothing
          cases nothing
      | frame kind bytes =>
          have same : gaps (.frame kind bytes :: rest) = gaps rest := gaps_cons _ rest
          rw [same]
          exact ih

/-- Whoever goes behind every reception that is no frame comes to the end. -/
theorem behind_iterate {receptions : List Reception} {n : Nat} (enough : gaps receptions < n) :
    behind^[n] receptions = [] := by
  induction n generalizing receptions with
  | zero => cases enough
  | succ n ih =>
      obtain ⟨fewer, last⟩ := gaps_behind receptions
      rw [Function.iterate_succ_apply]
      rcases Nat.eq_zero_or_pos (gaps receptions) with nothing | some_
      · rw [last nothing]
        exact Function.iterate_fixed rfl n
      · refine ih ?_
        omega

end Feed

/-! ## Recording -/

namespace LiveCapture

section Calls

variable {self after : LiveCapture}

/-- A packet that is handed out was the first that was ready. -/
theorem packets_of_some {packet : Packet}
    (returned : self.nextPacket = (.ok (some packet), after)) :
    self.feed.packets = packet :: after.feed.packets ∧
      ∃ rest, after.feed = self.feed.awaiting rest ∧
        Feed.behind rest = Feed.behind self.feed.receptions := by
  obtain ⟨same, later⟩ := self.nextPacket_feed
  have delivers := self.feed.nextPacket_delivers
  rw [returned] at same later
  generalize self.feed.nextPacket = result at same later delivers
  cases delivers with
  | @packet packet' rest first behind =>
      cases same
      exact ⟨later ▸ first, rest, later, behind⟩
  | last nothing notPacket => exact absurd same.symm (notPacket packet)

/-- Where no packet is handed out, none was ready. -/
theorem packets_of_last {result : Except String (Option Packet)}
    (returned : self.nextPacket = (result, after))
    (last : ∀ packet, result ≠ .ok (some packet)) :
    self.feed.packets = [] ∧
      after.feed = self.feed.awaiting (Feed.behind self.feed.receptions) := by
  obtain ⟨same, later⟩ := self.nextPacket_feed
  have delivers := self.feed.nextPacket_delivers
  rw [returned] at same later
  generalize self.feed.nextPacket = result' at same later delivers
  cases delivers with
  | packet first behind => exact absurd same (last _)
  | last nothing notPacket => exact ⟨nothing, later⟩

theorem length_of_some {packet : Packet}
    (returned : self.nextPacket = (.ok (some packet), after)) :
    after.feed.packets.length < self.feed.packets.length := by
  rw [(packets_of_some returned).1, List.length_cons]
  exact Nat.lt_succ_self _

end Calls

/-- A live capture as a source: what is left of it are the packets that are ready. -/
def source : Source LiveCapture Packet String :=
  ⟨nextPacket, fun self => self.feed.packets.length, length_of_some⟩

/-- Write all captured packets to a savefile until none is ready. -/
def captureToFile (self : LiveCapture) (linktype : UInt32) :
    Option (Except IoError UInt32) × ByteStream × LiveCapture :=
  copyToFile source self self.snaplen linktype

open Capture (written recopied)

/-- **The source of a live capture** hands out what is ready, and leaves behind what comes in
after the reception that is no frame. -/
theorem items_source (self : LiveCapture) :
    source.items self = self.feed.packets ∧
      (source.last self).feed = self.feed.awaiting (Feed.behind self.feed.receptions) := by
  induction self using source.run_induction with
  | item self packet after returned ih =>
      obtain ⟨items, left⟩ := ih
      obtain ⟨first, rest, later, behind⟩ := packets_of_some returned
      rw [source.items_of_some returned, source.last_of_some returned, items, left]
      refine ⟨first.symm, ?_⟩
      rw [later, Feed.receptions_awaiting, Feed.awaiting_awaiting, behind]
  | ended self result after returned ended =>
      obtain ⟨nothing, left⟩ := packets_of_last returned ended
      rw [Source.items_of_none returned ended, Source.last_of_none returned ended]
      exact ⟨nothing.symm, left⟩

theorem snaplen_last (self : LiveCapture) : (source.last self).snaplen = self.snaplen := by
  refine Source.last_invariant (fun after : LiveCapture => after.snaplen = self.snaplen) ?_ rfl
  intro after same
  exact after.nextPacket_keeps.snaplen.trans same

/-- What a recording comes to. -/
theorem captureToFile_of_lt (self : LiveCapture) (linktype : UInt32)
    (counted : self.feed.packets.length < 2 ^ 32) :
    self.captureToFile linktype =
      (some (.ok (UInt32.ofNat self.feed.packets.length)),
        writeFile self.snaplen linktype (self.feed.packets.map written), source.last self) := by
  have items := self.items_source.1
  rw [captureToFile, copyToFile_of_lt self.snaplen linktype (by rwa [items]), items]

/-- What a recording leaves behind. -/
theorem captureToFile_leaves {self : LiveCapture} (linktype : UInt32)
    (counted : self.feed.packets.length < 2 ^ 32) :
    (self.captureToFile linktype).2.2.feed =
        self.feed.awaiting (Feed.behind self.feed.receptions) ∧
      (self.captureToFile linktype).2.2.snaplen = self.snaplen := by
  rw [self.captureToFile_of_lt linktype counted]
  exact ⟨self.items_source.2, self.snaplen_last⟩

/-! ### Reading a recording -/

/-- **A recording is a capture** of the packets that were ready. -/
theorem exists_recording (self : LiveCapture) (linktype : UInt32)
    (counted : self.feed.packets.length < 2 ^ 32) :
    ∃ copy, Capture.openOffline (self.captureToFile linktype).2.1 = .ok copy ∧
      copy.snaplen = self.snaplen ∧ copy.linktype = linktype.toInt32 ∧
      copy.readRest = self.feed.packets.map (recopied self.snaplen) := by
  rw [self.captureToFile_of_lt linktype counted]
  obtain ⟨copy, opens, snaplen, link, _, read⟩ :=
    Capture.exists_written self.snaplen linktype self.feed.packets
  exact ⟨copy, opens, snaplen, link, read⟩

/-- The buffer of a capture that was opened, whatever has been called since. -/
theorem size_afterCalls {sys : PacketSystem} {device : String} {snaplen : UInt32}
    {opened : LiveCapture} (opens : openLive sys device snaplen = .ok opened)
    (calls : List LiveCall) :
    (opened.afterCalls calls).snaplen = snaplen ∧
      (opened.afterCalls calls).feed.size = max snaplen.toNat 64 := by
  have kept := opened.afterCalls_keeps calls
  have fresh := openedWith_of_openLive opens
  exact ⟨kept.snaplen.trans fresh.snaplen, kept.buf.trans fresh.buf⟩

/-- The packets that are ready are among the receptions that were to come. -/
theorem length_packets_of_openLive {sys : PacketSystem} {receptions : List Reception}
    {device : String} {snaplen : UInt32} {opened : LiveCapture}
    (socket : sys.socket = .ok receptions)
    (opens : openLive sys device snaplen = .ok opened) (calls : List LiveCall) :
    (opened.afterCalls calls).feed.packets.length ≤ receptions.length := by
  have kept := (opened.afterCalls_keeps calls).socket.length_le
  have fresh : opened.raw.socket = receptions :=
    congrArg Feed.receptions (CaptureHandle.feed_of_openLive socket opens)
  rw [fresh] at kept
  exact (opened.afterCalls calls).feed.length_packets_le.trans kept

/-- As many recordings: the files, and the capture after them. -/
def recordings (self : LiveCapture) (linktype : UInt32) : Nat → List ByteStream × LiveCapture
  | 0 => ([], self)
  | n + 1 =>
      let recorded := self.captureToFile linktype
      let later := recorded.2.2.recordings linktype n
      (recorded.2.1 :: later.1, later.2)

/-- What each recording can count. -/
def Counts (self : LiveCapture) (n : Nat) : Prop :=
  ∀ i < n, (self.feed.awaiting (Feed.behind^[i] self.raw.socket)).packets.length < 2 ^ 32

theorem counts_of_length {self : LiveCapture} (short : self.raw.socket.length < 2 ^ 32) (n : Nat) :
    self.Counts n := by
  intro i _
  have fewer := Feed.length_behind_iterate_le i self.raw.socket
  exact lt_of_le_of_lt ((Feed.length_packets_le _).trans fewer) short

/-- The logs of as many recordings. -/
theorem exists_logs (self : LiveCapture) (linktype : UInt32) {n : Nat} (counts : self.Counts n) :
    (self.recordings linktype n).2.raw.socket = Feed.behind^[n] self.raw.socket ∧
      ∃ taken logs, self.raw.socket = taken ++ (self.recordings linktype n).2.raw.socket ∧
        List.Forall₂ (fun file log => readAll file = .ok log)
          (self.recordings linktype n).1 logs ∧
        logs.flatten = (self.feed.packetsOf (taken.filterMap Reception.frame?)).map
          (recopied self.snaplen) := by
  induction n generalizing self with
  | zero => exact ⟨rfl, [], [], rfl, .nil, rfl⟩
  | succ n ih =>
      have counted : self.feed.packets.length < 2 ^ 32 := counts 0 (Nat.succ_pos n)
      obtain ⟨left, snaplen⟩ := captureToFile_leaves linktype counted
      obtain ⟨copy, copied, _, _, log⟩ := self.exists_recording linktype counted
      obtain ⟨front, split, frames⟩ := Feed.exists_front self.raw.socket
      rw [recordings]
      generalize (self.captureToFile linktype).2.2 = after at left snaplen
      have socket : after.raw.socket = Feed.behind self.raw.socket :=
        congrArg Feed.receptions left
      have counts' : after.Counts n := by
        intro i small
        rw [left, socket, Feed.awaiting_awaiting, ← Function.iterate_succ_apply]
        exact counts (i + 1) (Nat.succ_lt_succ small)
      obtain ⟨last, taken, logs, split', read, content⟩ := ih after counts'
      rw [socket, ← Function.iterate_succ_apply] at last
      refine ⟨last, front ++ taken, copy.readRest :: logs, ?_, .cons ?_ read, ?_⟩
      · rw [List.append_assoc, ← split', socket]
        exact split
      · rw [readAll, copied]
      · rw [List.flatten_cons, log, content, left, snaplen, Feed.packetsOf_awaiting,
          List.filterMap_append, frames, Feed.packetsOf_append, List.map_append]
        rfl

/-- **Recordings lose nothing.** Whatever the state of the capture, the files of as many
recordings hold each wanted frame of the receptions that they took, once and in order, and
what they did not take is still to come. More recordings than there are receptions without a
frame take all. -/
theorem recordings_lossless (self : LiveCapture) (linktype : UInt32) {n : Nat}
    (counts : self.Counts n) :
    ∃ taken logs, self.raw.socket = taken ++ (self.recordings linktype n).2.raw.socket ∧
      List.Forall₂ (fun file log => readAll file = .ok log) (self.recordings linktype n).1 logs ∧
      logs.flatten = (self.feed.packetsOf (taken.filterMap Reception.frame?)).map
        (recopied self.snaplen) ∧
      (Feed.gaps self.raw.socket < n → taken = self.raw.socket) := by
  obtain ⟨last, taken, logs, split, read, content⟩ := self.exists_logs linktype counts
  refine ⟨taken, logs, split, read, content, ?_⟩
  intro enough
  rw [last, Feed.behind_iterate enough, List.append_nil] at split
  exact split.symm

/-- The first recording is stopped by a reception without a frame, the second takes the rest. -/
theorem recordings_lossless_two :
    ∃ opened, openLive CaptureHandle.bothWays "lo" 65535 = .ok opened ∧
      ∃ taken logs, opened.raw.socket = taken ++ (opened.recordings 1 2).2.raw.socket ∧
        List.Forall₂ (fun file log => readAll file = .ok log) (opened.recordings 1 2).1 logs ∧
        logs.flatten = (opened.feed.packetsOf (taken.filterMap Reception.frame?)).map
          (recopied opened.snaplen) ∧
        (Feed.gaps opened.raw.socket < 2 → taken = opened.raw.socket) := by
  have opens : ∃ opened, openLive CaptureHandle.bothWays "lo" 65535 = .ok opened := ⟨_, rfl⟩
  obtain ⟨opened, opens⟩ := opens
  have short : opened.raw.socket.length < 2 ^ 32 := by
    have receptions := congrArg Feed.receptions (CaptureHandle.feed_of_openLive rfl opens)
    exact lt_of_eq_of_lt (congrArg List.length receptions) (by decide)
  exact ⟨opened, opens, recordings_lossless opened 1 (counts_of_length short 2)⟩

/-! ## Filters before and after a recording -/

/-- What is ready under a filter. -/
theorem packets_setFilter {self filtered : LiveCapture} {expr : String}
    (unfiltered : self.filter = none) (set : self.setFilter expr = (.ok (), filtered)) :
    ∃ (program : BpfProgram) (compiled : FilterBuilder.compile expr self.linktype = .ok program),
      filtered.snaplen = self.snaplen ∧ filtered.raw.socket = self.raw.socket ∧
        filtered.feed.packets = self.feed.packets.filter fun packet =>
          (ForwardProgram.ofCompiled compiled).filter packet.2 := by
  unfold setFilter at set
  split at set
  · cases set
  · rename_i program compiled
    refine ⟨program, compiled, ?_⟩
    cases set
    have all : self.feed.keeps = fun _ => true := by
      funext data
      simp only [feed, keeps, unfiltered]
    exact ⟨rfl, rfl, Feed.packets_filter all _⟩

/-- A filter that compiles is accepted. -/
theorem exists_setFilter {self : LiveCapture} {expr : String} {program : BpfProgram}
    (compiled : FilterBuilder.compile expr self.linktype = .ok program) :
    ∃ filtered, self.setFilter expr = (.ok (), filtered) := by
  unfold setFilter
  split
  · rename_i e failed
    rw [compiled] at failed
    cases failed
  · exact ⟨_, rfl⟩

/-- **A filter now or later.** A recording under a filter yields the packets that a recording
without it yields when it is read under the filter, where the snapshot length cuts no packet
short of what a filter looks at. Both take the same receptions. -/
theorem filter_now_or_later {sys : PacketSystem} {device : String} {snaplen : UInt32}
    {opened : LiveCapture} (opens : openLive sys device snaplen = .ok opened)
    (calls : List LiveCall) {filtered : LiveCapture} {expr : String} {linktype : UInt32}
    (unfiltered : (opened.afterCalls calls).filter = none)
    (link : linktype.toInt32 = (opened.afterCalls calls).linktype)
    (set : (opened.afterCalls calls).setFilter expr = (.ok (), filtered))
    (counted : (opened.afterCalls calls).feed.packets.length < 2 ^ 32)
    (enough : linkHeaderLen (opened.afterCalls calls).linktype + 20 ≤ snaplen.toNat ∨
      ∀ packet ∈ (opened.afterCalls calls).feed.packets, packet.2.length ≤ snaplen.toNat) :
    let self := opened.afterCalls calls
    ∃ whole late early, Capture.openOffline (self.captureToFile linktype).2.1 = .ok whole ∧
      whole.setFilter expr = (.ok (), late) ∧
      Capture.openOffline (filtered.captureToFile linktype).2.1 = .ok early ∧
      late.readRest = early.readRest ∧
      (filtered.captureToFile linktype).2.2.raw.socket =
        (self.captureToFile linktype).2.2.raw.socket := by
  intro self
  obtain ⟨sameSnaplen, size⟩ := size_afterCalls opens calls
  obtain ⟨program, compiled, snaplen', receptions, packets⟩ := packets_setFilter unfiltered set
  have few : filtered.feed.packets.length < 2 ^ 32 := by
    rw [packets]
    exact lt_of_le_of_lt (List.length_filter_le _ _) counted
  have compiled' : FilterBuilder.compile expr linktype.toInt32 = .ok program := by
    rw [link, compiled]
  have sameTest := Capture.filter_ofCompiled_congr link.symm compiled compiled'
  have wide : ∀ packet ∈ self.feed.packets, packet.2.length < 2 ^ 32 := by
    intro packet member
    have inside := self.feed.length_of_mem_packetsOf member
    have narrow := snaplen.toNat_lt
    rw [size] at inside
    omega
  rw [← link] at enough
  obtain ⟨whole, late, recorded, setLate, _, read⟩ :=
    Capture.exists_filtered compiled' wide enough
  obtain ⟨early, recorded', _, _, read'⟩ := filtered.exists_recording linktype few
  refine ⟨whole, late, early, ?_, setLate, recorded', ?_, ?_⟩
  · rw [self.captureToFile_of_lt linktype counted, sameSnaplen]
    exact recorded
  · rw [read, read', packets, snaplen', sameSnaplen, sameTest]
  · have socket := congrArg Feed.receptions (captureToFile_leaves linktype few).1
    have socket' := congrArg Feed.receptions (captureToFile_leaves linktype counted).1
    exact (socket.trans (congrArg Feed.behind receptions)).trans socket'.symm

/-- The filter `arp`, before a recording of two frames and after it. -/
theorem filter_now_or_later_arp :
    ∃ opened filtered, openLive CaptureHandle.bothWays "lo" 65535 = .ok opened ∧
      opened.setFilter "arp" = (.ok (), filtered) ∧
      ∃ whole late early, Capture.openOffline (opened.captureToFile 1).2.1 = .ok whole ∧
        whole.setFilter "arp" = (.ok (), late) ∧
        Capture.openOffline (filtered.captureToFile 1).2.1 = .ok early ∧
        late.readRest = early.readRest ∧
        (filtered.captureToFile 1).2.2.raw.socket = (opened.captureToFile 1).2.2.raw.socket := by
  have opens : ∃ opened, openLive CaptureHandle.bothWays "lo" 65535 = .ok opened := ⟨_, rfl⟩
  obtain ⟨opened, opens⟩ := opens
  have link : opened.linktype = dltEn10mb :=
    congrArg Feed.linktype (CaptureHandle.feed_of_openLive rfl opens)
  have compiled : FilterBuilder.compile "arp" opened.linktype =
      .ok ⟨[loadInsn bpfLd bpfH 12, jmpInsn bpfJeq 0x0806 1 0, ret bpfReject, ret bpfAccept,
        ret bpfAccept]⟩ := by
    rw [link]
    rfl
  obtain ⟨filtered, set⟩ := exists_setFilter compiled
  have few := length_packets_of_openLive rfl opens []
  have enough : linkHeaderLen opened.linktype + 20 ≤ (65535 : UInt32).toNat := by
    rw [link]
    decide
  exact ⟨opened, filtered, opens, set, filter_now_or_later opens []
    (openedWith_of_openLive opens).unfiltered link.symm set (lt_of_le_of_lt few (by decide))
    (.inl enough)⟩

end LiveCapture

end Wnr.Pcap
