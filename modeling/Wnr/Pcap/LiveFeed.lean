import Wnr.Pcap.CaptureHandle

/-! # A live capture as a feed of frames

A live capture receives into one buffer, which keeps the ends of longer frames, and runs one
interpreter for all of them. What it hands out does not show this: it is a feed, the frames
that come in one after the other, cut to the size of the buffer, without those that the
direction or the filter in force rejects (`CaptureHandle.live_feed`).
-/

namespace Wnr.Pcap

/-! ## Feeds -/

/-- What is to come from a packet socket, and which frames of it are wanted. -/
structure Feed where
  receptions : List Reception
  /-- The most bytes of a frame that are handed out. -/
  size : Nat
  direction : Direction
  /-- The test that frames have to pass. -/
  keeps : List UInt8 → Bool
  linktype : Int32

/-- A frame as it is received. -/
def receivedPacket (kind : UInt8) (bytes : List UInt8) : PcapPacket :=
  { tsSec := 0
    tsFrac := 0
    caplen := UInt32.ofNat bytes.length
    origlen := UInt32.ofNat bytes.length
    pkttype := kind.toUInt16
    data := bytes }

namespace Feed

/-- The first frame of a wanted kind and content, unless the socket has none ready or fails
before it. -/
def fetch (size : Nat) (wants : UInt8 → List UInt8 → Bool) :
    List Reception → Except IoError (Option PcapPacket) × List Reception
  | [] => (.ok none, [])
  | .wouldBlock :: rest => (.ok none, rest)
  | .failed e :: rest => (.error e, rest)
  | .frame kind bytes :: rest =>
      if wants kind (bytes.take size) then (.ok (some (receivedPacket kind (bytes.take size))), rest)
      else fetch size wants rest

/-- The frames that the feed hands out. -/
def wants (self : Feed) (kind : UInt8) (bytes : List UInt8) : Bool :=
  pkttypeMatchesDir kind.toUInt16 self.direction && self.keeps bytes

/-- The next packet. -/
def nextPacket (self : Feed) : Except String (Option (PacketHeader × List UInt8)) × Feed :=
  let fetched := fetch self.size self.wants self.receptions
  ((fetched.1.map (·.map PcapPacket.handedOut)).mapError IoError.message,
    { self with receptions := fetched.2 })

/-- A filter that compiles replaces the test, another one changes nothing. -/
def setFilter (self : Feed) (expr : String) : Feed :=
  match compiled : FilterBuilder.compile expr self.linktype with
  | .error _ => self
  | .ok _ => { self with keeps := (ForwardProgram.ofCompiled compiled).filter }

/-- The packet that a call hands out, where it is one for a packet. -/
def step (self : Feed) :
    HandleCall → Option (Except String (Option (PacketHeader × List UInt8))) × Feed
  | .nextPacket => (some self.nextPacket.1, self.nextPacket.2)
  | .setFilter expr => (none, self.setFilter expr)
  | .setDirection direction => (none, { self with direction })
  | .setNonblock .. | .stats .. | .inject .. | .transmitSendqueue .. | .geterr | .nonblock =>
      (none, self)

/-- Wanting less is looking further among what is wanted. -/
theorem fetch_and (size : Nat) (wants : UInt8 → List UInt8 → Bool) (keeps : List UInt8 → Bool)
    (receptions : List Reception) :
    fetch size (fun kind bytes => wants kind bytes && keeps bytes) receptions =
      match fetch size wants receptions with
      | (.ok (some pkt), rest) =>
          if keeps pkt.data then (.ok (some pkt), rest)
          else fetch size (fun kind bytes => wants kind bytes && keeps bytes) rest
      | other => other := by
  induction receptions with
  | nil => rfl
  | cons reception rest ih =>
      cases reception with
      | wouldBlock => rfl
      | failed e => rfl
      | frame kind bytes =>
          rw [fetch, fetch]
          cases wanted : wants kind (bytes.take size) with
          | false => simpa only [Bool.false_and, Bool.false_eq_true, ↓reduceIte] using ih
          | true => simp only [Bool.true_and, ↓reduceIte, receivedPacket]

end Feed

/-! ## Captures as feeds -/

/-- What a receive from the socket comes to. -/
structure Fetches (before : RawCapture) (result : Except IoError (Option PcapPacket))
    (after : RawCapture) : Prop where
  fetched : (result, after.socket) = Feed.fetch before.buf.length
    (fun kind _ => pkttypeMatchesDir kind.toUInt16 before.direction) before.socket
  size : after.buf.length = before.buf.length
  direction : after.direction = before.direction

theorem RawCapture.nextPacket_fetches (self : RawCapture) :
    Fetches self self.nextPacket.1 self.nextPacket.2 := by
  fun_induction nextPacket self with
  | case1 self receptions =>
      refine ⟨?_, rfl, rfl⟩
      rw [receptions]
      rfl
  | case2 self socket receptions =>
      refine ⟨?_, rfl, rfl⟩
      rw [receptions]
      rfl
  | case3 self err socket receptions =>
      refine ⟨?_, rfl, rfl⟩
      rw [receptions]
      rfl
  | case4 self sllPkttype frame socket receptions shorter buf pkttype skipped ih =>
      have size : buf.length = self.buf.length := length_recvfrom _ _
      refine ⟨?_, ih.size.trans size, ih.direction⟩
      have fetched := ih.fetched
      rw [receptions, Feed.fetch, if_neg (by simpa using skipped)]
      simp only [size] at fetched
      exact fetched
  | case5 self sllPkttype frame socket receptions shorter buf n pkttype admitted =>
      have front : buf.take n = frame.take self.buf.length := take_recvfrom _ _
      have length : n = (frame.take self.buf.length).length := by
        rw [List.length_take]
        exact Nat.min_comm _ _
      refine ⟨?_, length_recvfrom _ _, rfl⟩
      rw [receptions, Feed.fetch, if_pos (by simpa using admitted), receivedPacket, front, ← length]

namespace LiveCapture

/-- The verdict of the filter in force. -/
def keeps (self : LiveCapture) (data : List UInt8) : Bool :=
  match self.filter with
  | none => true
  | some prog => prog.filter data

/-- What the capture hands out from now on. -/
def feed (self : LiveCapture) : Feed where
  receptions := self.raw.socket
  size := self.raw.buf.length
  direction := self.raw.direction
  keeps := self.keeps
  linktype := self.linktype

theorem feed_fetched {self : LiveCapture} {result : Except IoError (Option PcapPacket)}
    {raw : RawCapture} (fetches : Fetches self.raw result raw) (filterVm : BpfVm) :
    { self with raw, filterVm }.feed = { self.feed with receptions := raw.socket } := by
  simp only [feed, fetches.size, fetches.direction]
  rfl

/-- What the feed looks at after a receive. -/
theorem fetch_feed {self : LiveCapture} {result : Except IoError (Option PcapPacket)}
    {raw : RawCapture} (fetches : Fetches self.raw result raw) :
    Feed.fetch self.feed.size self.feed.wants self.feed.receptions =
      match result with
      | .ok (some pkt) =>
          if self.keeps pkt.data then (.ok (some pkt), raw.socket)
          else Feed.fetch self.feed.size self.feed.wants raw.socket
      | result => (result, raw.socket) := by
  have both := Feed.fetch_and self.raw.buf.length
    (fun kind _ => pkttypeMatchesDir kind.toUInt16 self.raw.direction) self.keeps self.raw.socket
  rw [← fetches.fetched] at both
  refine both.trans ?_
  match result with
  | .ok (some pkt) => rfl
  | .ok none => rfl
  | .error e => rfl

/-- **One packet.** A capture hands out the packet that its feed does. -/
theorem nextPacket_feed (self : LiveCapture) :
    self.nextPacket.1 = self.feed.nextPacket.1 ∧ self.nextPacket.2.feed = self.feed.nextPacket.2 := by
  fun_induction nextPacket self with
  | case1 self e raw fetched =>
      have fetches := self.raw.nextPacket_fetches
      rw [fetched] at fetches
      rw [Feed.nextPacket, fetch_feed fetches]
      exact ⟨rfl, feed_fetched fetches self.filterVm⟩
  | case2 self raw fetched =>
      have fetches := self.raw.nextPacket_fetches
      rw [fetched] at fetches
      rw [Feed.nextPacket, fetch_feed fetches]
      exact ⟨rfl, feed_fetched fetches self.filterVm⟩
  | case3 self pkt raw fetched unfiltered =>
      have fetches := self.raw.nextPacket_fetches
      rw [fetched] at fetches
      have kept : self.keeps pkt.data = true := by rw [keeps, unfiltered]
      simp only [Feed.nextPacket, fetch_feed fetches, kept, ↓reduceIte]
      exact ⟨rfl, feed_fetched fetches self.filterVm⟩
  | case4 self pkt raw fetched prog filtered shorter verdict passed =>
      have fetches := self.raw.nextPacket_fetches
      rw [fetched] at fetches
      have kept : self.keeps pkt.data = true := by
        rw [keeps, filtered]
        exact (self.filterVm.filterOk_fst prog pkt.data).symm.trans passed
      simp only [Feed.nextPacket, fetch_feed fetches, kept, ↓reduceIte]
      exact ⟨rfl, feed_fetched fetches verdict.2⟩
  | case5 self pkt raw fetched prog filtered shorter verdict rejected ih =>
      have fetches := self.raw.nextPacket_fetches
      rw [fetched] at fetches
      have dropped : self.keeps pkt.data = false := by
        rw [keeps, filtered]
        exact (self.filterVm.filterOk_fst prog pkt.data).symm.trans (Bool.eq_false_iff.mpr rejected)
      have same : self.feed.nextPacket = { self.feed with receptions := raw.socket }.nextPacket := by
        simp only [Feed.nextPacket, fetch_feed fetches, dropped, Bool.false_eq_true, ↓reduceIte]
        rfl
      rw [same, ← feed_fetched fetches verdict.2]
      exact ih

theorem setFilter_feed (self : LiveCapture) (expr : String) :
    (self.setFilter expr).2.feed = self.feed.setFilter expr := by
  have linktype : self.feed.linktype = self.linktype := rfl
  unfold setFilter Feed.setFilter
  split <;> split
  · rfl
  · rename_i e failed program compiled
    rw [linktype, failed] at compiled
    cases compiled
  · rename_i program compiled e failed
    rw [linktype, compiled] at failed
    cases failed
  · rename_i program compiled program' compiled'
    have same : program = program' := by
      rw [linktype, compiled] at compiled'
      exact Except.ok.inj compiled'
    subst same
    rfl

end LiveCapture

/-! ## Runs of calls -/

/-- The answer to a call for a packet. -/
def HandleAnswer.packet? :
    HandleAnswer → Option (Except String (Option (PacketHeader × List UInt8)))
  | .packet result => some result
  | _ => none

namespace CaptureHandle

open CallMachine

/-- The handle is a live capture with the feed. -/
def Feeds (self : CaptureHandle) (feed : Feed) : Prop :=
  ∃ capture, self.kind = .live capture ∧ capture.feed = feed

theorem feeds_taking {self : CaptureHandle} {feed : Feed} (feeds : self.Feeds feed)
    (frames : List (List UInt8)) : (self.taking frames).Feeds feed :=
  feeds

theorem feeds_record {self : CaptureHandle} {feed : Feed} (feeds : self.Feeds feed)
    (message : String) : (self.record message).Feeds feed := by
  obtain ⟨capture, live, isFeed⟩ := feeds
  obtain ⟨kind, nonblock, sent⟩ := self
  obtain rfl : kind = .live capture := live
  exact ⟨_, rfl, isFeed⟩

theorem simulates_feed : Simulates step Feed.step HandleAnswer.packet? Feeds where
  answer := by
    rintro ⟨kind, nonblock, sent⟩ feed call ⟨capture, live, rfl⟩
    obtain rfl : kind = .live capture := live
    cases call with
    | nextPacket => exact congrArg some capture.nextPacket_feed.1
    | setFilter | setDirection | setNonblock | stats | inject | transmitSendqueue | geterr
    | nonblock => rfl
  related := by
    rintro ⟨kind, nonblock, sent⟩ feed call ⟨capture, live, rfl⟩
    obtain rfl : kind = .live capture := live
    have feeds : Feeds ⟨.live capture, nonblock, sent⟩ capture.feed := ⟨capture, rfl, rfl⟩
    cases call with
    | nextPacket => exact ⟨_, rfl, capture.nextPacket_feed.2⟩
    | setFilter expr => exact ⟨_, rfl, capture.setFilter_feed expr⟩
    | setDirection dir => exact ⟨_, rfl, rfl⟩
    | setNonblock nb fcntl =>
        cases fcntl with
        | error e => exact feeds_record feeds e.message
        | ok done => exact ⟨capture, rfl, rfl⟩
    | inject data sendto =>
        cases sendto with
        | error e => exact feeds_record feeds e.message
        | ok n => exact feeds_taking feeds [data]
    | transmitSendqueue queue sendto =>
        have sent : Transmits ⟨.live capture, nonblock, sent⟩ _ _ _ _ :=
          transmitAll_live rfl queue.pkts 0 sendto
        rw [step, transmitSendqueue]
        generalize transmitAll _ queue.pkts 0 sendto = result at sent
        cases sent with
        | done | overflow => exact feeds_taking feeds _
        | refused i e => exact feeds_record (feeds_taking feeds _) e.message
    | stats | geterr | nonblock => exact feeds

/-- The receptions to come are those of the socket. -/
theorem socket_of_openDevice {sys : PacketSystem} {receptions : List Reception} {device : String}
    {snaplen : UInt32} {raw : RawCapture} (socket : sys.socket = .ok receptions)
    (opens : RawCapture.openDevice sys device snaplen = .ok raw) : raw.socket = receptions := by
  rw [RawCapture.openDevice, socket] at opens
  simp only at opens
  split at opens
  · cases opens
  split at opens
  · cases opens
  split at opens
  · cases opens
  · cases opens
    rfl

theorem feed_of_openLive {sys : PacketSystem} {receptions : List Reception} {device : String}
    {snaplen : UInt32} {capture : LiveCapture} (socket : sys.socket = .ok receptions)
    (opens : LiveCapture.openLive sys device snaplen = .ok capture) :
    capture.feed =
      { receptions
        size := max snaplen.toNat 64
        direction := .inOut
        keeps := fun _ => true
        linktype := dltEn10mb } := by
  rw [LiveCapture.openLive] at opens
  split at opens
  · cases opens
  · rename_i raw found
    cases opens
    obtain ⟨size, both⟩ := RawCapture.of_openDevice found
    simp only [LiveCapture.feed, size, both, socket_of_openDevice socket found]
    rfl

/-- **A live capture is a feed.** Whatever is called in between, the packets that a capture
hands out are those of the frames that come in, cut to the size of its buffer and without
those that the direction or the filter in force rejects. -/
theorem live_feed {sys : PacketSystem} {receptions : List Reception} {device : String}
    {snaplen : UInt32} {handle : CaptureHandle} (socket : sys.socket = .ok receptions)
    (opens : openLive sys device snaplen = .ok handle) (calls : List HandleCall) :
    (CallMachine.answers step calls handle).map HandleAnswer.packet? =
      CallMachine.answers Feed.step calls
        { receptions
          size := max snaplen.toNat 64
          direction := .inOut
          keeps := fun _ => true
          linktype := dltEn10mb } := by
  apply simulates_feed.answers
  rw [openLive] at opens
  cases opened : LiveCapture.openLive sys device snaplen with
  | error e =>
      rw [opened] at opens
      cases opens
  | ok capture =>
      rw [opened] at opens
      cases opens
      exact ⟨capture, rfl, feed_of_openLive socket opened⟩

/-- A frame that this host sends, and one that it gets. -/
def bothWays : PacketSystem where
  socket := .ok [.frame 4 [1, 2, 3], .wouldBlock, .frame 0 [4, 5]]
  ifNametoindex _ := 1
  bind _ := .ok ()
  lastOsError := ⟨.other, ""⟩

theorem live_feed_bothWays :
    ∃ handle, openLive bothWays "lo" 65535 = .ok handle ∧
      (CallMachine.answers step [.nextPacket, .setDirection .in_, .nextPacket, .nextPacket]
          handle).map HandleAnswer.packet? =
        CallMachine.answers Feed.step
          [.nextPacket, .setDirection .in_, .nextPacket, .nextPacket]
          { receptions := [.frame 4 [1, 2, 3], .wouldBlock, .frame 0 [4, 5]]
            size := max (65535 : UInt32).toNat 64
            direction := .inOut
            keeps := fun _ => true
            linktype := dltEn10mb } := by
  have opens : ∃ handle, openLive bothWays "lo" 65535 = .ok handle := ⟨_, rfl⟩
  obtain ⟨handle, opens⟩ := opens
  exact ⟨handle, opens, live_feed rfl opens _⟩

end CaptureHandle

end Wnr.Pcap
