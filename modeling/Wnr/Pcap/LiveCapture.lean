import Wnr.Pcap.Capture

/-! # Live captures

A live capture reads frames from a packet socket of Linux into a buffer of fixed
size. What the socket will deliver is unknown: the model is given the receptions in
their order, and what is proved holds for all of them. Whatever is handed out is
the front of a frame that came in, as much of it as the buffer holds
(`Wnr.Pcap.LiveCapture.nextPacket_spec`).
-/

namespace Wnr.Pcap

/-! ## The packet socket -/

/-- Packet direction filter. -/
inductive Direction where
  /-- Capture only packets sent to this host. -/
  | in_
  /-- Capture only packets sent by this host. -/
  | out
  /-- Capture packets travelling in both directions. -/
  | inOut
deriving DecidableEq

/-- The `sll_pkttype` of a frame that this host sends. -/
abbrev pktOutgoing : UInt16 := 4

/-- Whether a packet with type `pkttype` is admitted by `dir`. -/
def pkttypeMatchesDir (pkttype : UInt16) (dir : Direction) : Bool :=
  match dir with
  | .in_ => pkttype ≠ pktOutgoing
  | .out => pkttype = pktOutgoing
  | .inOut => true

/-- What one `recvfrom` on the socket finds. -/
inductive Reception where
  /-- No frame is ready. -/
  | wouldBlock
  /-- Any other error. -/
  | failed (error : IoError)
  /-- A frame and the `sll_pkttype` that comes with it. -/
  | frame (pkttype : UInt8) (bytes : List UInt8)
deriving DecidableEq

/-- The answers of the system when a packet socket is opened and bound. -/
structure PacketSystem where
  /-- `socket(AF_PACKET, SOCK_RAW, 0)`: the receptions to come, or an error. -/
  socket : Except IoError (List Reception)
  /-- `if_nametoindex`, 0 for an unknown name. -/
  ifNametoindex : String → UInt32
  /-- `bind` to an interface. -/
  bind : UInt32 → Except IoError Unit
  lastOsError : IoError

/-- A handle to a live raw packet socket. -/
structure RawCapture where
  ifindex : UInt32
  direction : Direction
  /-- Reusable read buffer. -/
  buf : List UInt8
  /-- The receptions to come; after them nothing arrives. -/
  socket : List Reception

/-- `recvfrom` of a frame: the buffer, of which the front is overwritten, and the number
of bytes written. -/
def recvfrom (buf frame : List UInt8) : List UInt8 × Nat :=
  (frame.take buf.length ++ buf.drop frame.length, min frame.length buf.length)

namespace RawCapture

/-- `RawCapture::open`'s error for a name with a NUL inside. -/
def badInterfaceName : IoError := ⟨.other, "bad interface name"⟩

/-- Open a raw socket on `device` and bind to it. The other arguments are not used on Linux. -/
def openDevice (sys : PacketSystem) (device : String) (snaplen : UInt32) :
    Except IoError RawCapture :=
  match sys.socket with
  | .error e => .error e
  | .ok socket =>
      if device.toList.contains '\x00' then .error badInterfaceName
      else
        let ifindex := sys.ifNametoindex device
        if ifindex = 0 then .error sys.lastOsError
        else
          match sys.bind ifindex with
          | .error e => .error e
          | .ok () =>
              .ok
                { ifindex
                  direction := .inOut
                  buf := List.replicate (max snaplen 64).toNat 0
                  socket }

/-- Read the next raw frame. Returns `none` while no frame is ready. -/
def nextPacket (self : RawCapture) : Except IoError (Option PcapPacket) × RawCapture :=
  match receptions : self.socket with
  | [] => (.ok none, self)
  | .wouldBlock :: socket => (.ok none, { self with socket })
  | .failed err :: socket => (.error err, { self with socket })
  | .frame sllPkttype frame :: socket =>
      have : socket.length < self.socket.length := by
        rw [receptions]
        exact Nat.lt_succ_self _
      let buf := (recvfrom self.buf frame).1
      let n := (recvfrom self.buf frame).2
      let pkttype := sllPkttype.toUInt16
      if !pkttypeMatchesDir pkttype self.direction then nextPacket { self with buf, socket }
      else
        (.ok (some
          { tsSec := 0
            tsFrac := 0
            caplen := UInt32.ofNat n
            origlen := UInt32.ofNat n
            pkttype
            data := buf.take n }), { self with buf, socket })
termination_by self.socket.length
decreasing_by exact this

/-- Set the packet direction filter. -/
def setDirection (self : RawCapture) (dir : Direction) : RawCapture :=
  { self with direction := dir }

end RawCapture

/-- What is received is the front of the frame. -/
theorem take_recvfrom (buf frame : List UInt8) :
    (recvfrom buf frame).1.take (recvfrom buf frame).2 = frame.take buf.length := by
  have front : (frame.take buf.length).length = (recvfrom buf frame).2 :=
    List.length_take.trans (Nat.min_comm _ _)
  rw [← front, recvfrom, List.take_left]

/-- Receiving keeps the size of the buffer. -/
@[simp] theorem length_recvfrom (buf frame : List UInt8) :
    (recvfrom buf frame).1.length = buf.length := by
  rw [recvfrom, List.length_append, List.length_take, List.length_drop]
  omega

/-- What a returned packet says about the socket. -/
structure Received (before : RawCapture) (pkt : PcapPacket) (after : RawCapture) : Prop where
  /-- It is as much of a frame as the buffer holds. -/
  front : ∃ kind frame skipped, before.socket = skipped ++ .frame kind frame :: after.socket ∧
    pkt.data = frame.take before.buf.length
  caplen : pkt.caplen = UInt32.ofNat pkt.data.length

/-- A packet takes a reception. -/
theorem Received.shorter {before after : RawCapture} {pkt : PcapPacket}
    (received : Received before pkt after) : after.socket.length < before.socket.length := by
  obtain ⟨kind, frame, skipped, split, _⟩ := received.front
  rw [split, List.length_append, List.length_cons]
  omega

/-- The frame that a packet is made of is one of the receptions. -/
theorem Received.exists_frame {before after : RawCapture} {pkt : PcapPacket}
    (received : Received before pkt after) :
    ∃ kind frame, .frame kind frame ∈ before.socket ∧ pkt.data = frame.take before.buf.length := by
  obtain ⟨kind, frame, skipped, split, front⟩ := received.front
  refine ⟨kind, frame, ?_, front⟩
  rw [split]
  exact List.mem_append_right _ List.mem_cons_self

namespace RawCapture

variable {self after : RawCapture}

/-- The buffer of a new capture has the snapshot length, but at least 64 bytes. -/
theorem of_openDevice {sys : PacketSystem} {device : String} {snaplen : UInt32} {raw : RawCapture}
    (opens : openDevice sys device snaplen = .ok raw) :
    raw.buf.length = max snaplen.toNat 64 ∧ raw.direction = .inOut := by
  have least : (max snaplen 64).toNat = max snaplen.toNat 64 := by
    change (if snaplen ≤ 64 then (64 : UInt32) else snaplen).toNat = _
    split
    · rename_i small
      exact (max_eq_right (UInt32.le_iff_toNat_le.mp small)).symm
    · rename_i large
      exact (max_eq_left (UInt32.le_iff_toNat_le.mp (UInt32.le_of_lt (UInt32.not_le.mp large)))).symm
  rw [openDevice] at opens
  split at opens
  · cases opens
  · split at opens
    · cases opens
    · simp only at opens
      split at opens
      · cases opens
      · split at opens
        · cases opens
        · cases opens
          exact ⟨List.length_replicate.trans least, rfl⟩

/-- **One frame.** A returned packet is the front of a frame that came in. -/
theorem nextPacket_spec {pkt : PcapPacket} (received : self.nextPacket = (.ok (some pkt), after)) :
    Received self pkt after := by
  fun_induction nextPacket self with
  | case1 self receptions => cases received
  | case2 self socket receptions => cases received
  | case3 self err socket receptions => cases received
  | case4 self sllPkttype frame socket receptions shorter buf pkttype skipped ih =>
      have size : buf.length = self.buf.length := length_recvfrom _ _
      obtain ⟨⟨kind, later, between, split, front⟩, caplen⟩ := ih received
      refine ⟨⟨kind, later, .frame sllPkttype frame :: between, ?_, ?_⟩, caplen⟩
      · rw [receptions]
        exact congrArg (Reception.frame sllPkttype frame :: ·) split
      · rw [← size]
        exact front
  | case5 self sllPkttype frame socket receptions shorter buf n pkttype admitted =>
      have front : buf.take n = frame.take self.buf.length := take_recvfrom _ _
      cases received
      refine ⟨⟨sllPkttype, frame, [], receptions, front⟩, ?_⟩
      rw [front, List.length_take, Nat.min_comm]
      rfl

/-- Every call shortens the receptions to come, if there are any, and keeps the size of the
buffer and the direction. -/
theorem nextPacket_keeps (self : RawCapture) :
    self.nextPacket.2.socket <:+ self.socket ∧
      self.nextPacket.2.buf.length = self.buf.length := by
  fun_induction nextPacket self with
  | case1 self receptions => exact ⟨List.suffix_rfl, rfl⟩
  | case2 self socket receptions =>
      rw [receptions]
      exact ⟨List.suffix_cons _ _, rfl⟩
  | case3 self err socket receptions =>
      rw [receptions]
      exact ⟨List.suffix_cons _ _, rfl⟩
  | case4 self sllPkttype frame socket receptions shorter buf pkttype skipped ih =>
      rw [receptions]
      exact ⟨ih.1.trans (List.suffix_cons _ _), ih.2.trans (length_recvfrom _ _)⟩
  | case5 self sllPkttype frame socket receptions shorter buf n pkttype admitted =>
      rw [receptions]
      exact ⟨List.suffix_cons _ _, length_recvfrom _ _⟩

/-- With both directions admitted, every call takes one reception and returns its frame. -/
theorem nextPacket_inOut {reception : Reception} {socket : List Reception}
    (both : self.direction = .inOut) (receptions : self.socket = reception :: socket) :
    self.nextPacket.2.socket = socket ∧ self.nextPacket.2.direction = .inOut ∧
      ∀ kind frame, reception = .frame kind frame →
        ∃ pkt, self.nextPacket.1 = .ok (some pkt) ∧ pkt.data = frame.take self.buf.length := by
  fun_induction nextPacket self with
  | case1 self nothing =>
      rw [nothing] at receptions
      cases receptions
  | case2 self later blocks =>
      rw [blocks] at receptions
      cases receptions
      exact ⟨rfl, both, nofun⟩
  | case3 self err later fails =>
      rw [fails] at receptions
      cases receptions
      exact ⟨rfl, both, nofun⟩
  | case4 self sllPkttype frame later comes shorter buf pkttype skipped ih =>
      rw [both] at skipped
      cases skipped
  | case5 self sllPkttype frame later comes shorter buf n pkttype admitted =>
      rw [comes] at receptions
      cases receptions
      refine ⟨rfl, both, ?_⟩
      rintro kind other ⟨⟩
      exact ⟨_, rfl, take_recvfrom _ _⟩

end RawCapture

/-! ## The capture handle -/

/-- A capture handle over a packet socket. -/
structure LiveCapture where
  raw : RawCapture
  snaplen : UInt32
  linktype : Int32
  filter : Option ForwardProgram
  filterVm : BpfVm
  direction : Direction
  lastErr : String

namespace LiveCapture

/-- Open a live capture; `snaplen` is the maximum of bytes captured per frame. -/
def openLive (sys : PacketSystem) (device : String) (snaplen : UInt32) :
    Except String LiveCapture :=
  match RawCapture.openDevice sys device snaplen with
  | .error e => .error ("unable to open device: " ++ e.message)
  | .ok raw =>
      .ok
        { raw
          snaplen
          linktype := dltEn10mb
          filter := none
          filterVm := .new
          direction := .inOut
          lastErr := "" }

/-- Set a BPF filter. -/
def setFilter (self : LiveCapture) (expr : String) : Except String Unit × LiveCapture :=
  match compiled : FilterBuilder.compile expr self.linktype with
  | .error e => (.error e, { self with lastErr := "syntax error: " ++ e })
  | .ok _ => (.ok (), { self with filter := some (.ofCompiled compiled), filterVm := .new })

/-- Restrict capture to packets of a given direction. -/
def setDirection (self : LiveCapture) (dir : Direction) : LiveCapture :=
  { self with raw := self.raw.setDirection dir, direction := dir }

/-- Read the next packet. Returns `none` while no frame is ready. -/
def nextPacket (self : LiveCapture) :
    Except String (Option (PacketHeader × List UInt8)) × LiveCapture :=
  match fetched : self.raw.nextPacket with
  | (.error e, raw) => (.error e.message, { self with raw })
  | (.ok none, raw) => (.ok none, { self with raw })
  | (.ok (some pkt), raw) =>
      match self.filter with
      | none => (.ok (some pkt.handedOut), { self with raw })
      | some prog =>
          have : raw.socket.length < self.raw.socket.length :=
            (RawCapture.nextPacket_spec fetched).shorter
          let verdict := self.filterVm.filterOk prog pkt.data
          if verdict.1 then
            (.ok (some pkt.handedOut), { self with raw, filterVm := verdict.2 })
          -- filtered: on to the next matching packet
          else nextPacket { self with raw, filterVm := verdict.2 }
termination_by self.raw.socket.length
decreasing_by exact this

/-- **One packet.** What is handed out is the front of a frame that came in, as much of it as
the buffer holds. -/
theorem nextPacket_spec {self after : LiveCapture} {packet : PacketHeader × List UInt8}
    (returned : self.nextPacket = (.ok (some packet), after)) :
    (∃ kind frame, .frame kind frame ∈ self.raw.socket ∧
        packet.2 = frame.take self.raw.buf.length) ∧
      packet.1.caplen = UInt32.ofNat packet.2.length := by
  fun_induction nextPacket self with
  | case1 self e raw fetched => cases returned
  | case2 self raw fetched => cases returned
  | case3 self pkt raw fetched unfiltered =>
      have received := RawCapture.nextPacket_spec fetched
      cases returned
      exact ⟨received.exists_frame, received.caplen⟩
  | case4 self pkt raw fetched prog filtered shorter verdict passed =>
      have received := RawCapture.nextPacket_spec fetched
      cases returned
      exact ⟨received.exists_frame, received.caplen⟩
  | case5 self pkt raw fetched prog filtered shorter verdict rejected ih =>
      obtain ⟨suffix, size⟩ := self.raw.nextPacket_keeps
      rw [fetched] at suffix size
      obtain ⟨⟨kind, frame, member, front⟩, caplen⟩ := ih returned
      exact ⟨⟨kind, frame, suffix.subset member, size ▸ front⟩, caplen⟩

/-- What a capture keeps: its snapshot length and the size of its buffer. Receptions only go. -/
structure Keeps (before after : LiveCapture) : Prop where
  socket : after.raw.socket <:+ before.raw.socket
  buf : after.raw.buf.length = before.raw.buf.length
  snaplen : after.snaplen = before.snaplen

theorem Keeps.trans {first second third : LiveCapture} (before : Keeps first second)
    (after : Keeps second third) : Keeps first third :=
  ⟨after.socket.trans before.socket, after.buf.trans before.buf, after.snaplen.trans before.snaplen⟩

theorem keeps_raw (self : LiveCapture) (filterVm : BpfVm) :
    Keeps self { self with raw := self.raw.nextPacket.2, filterVm } := by
  obtain ⟨suffix, size⟩ := self.raw.nextPacket_keeps
  exact ⟨suffix, size, rfl⟩

theorem nextPacket_keeps (self : LiveCapture) : Keeps self self.nextPacket.2 := by
  fun_induction nextPacket self with
  | case1 self e raw fetched =>
      have kept := self.keeps_raw self.filterVm
      rwa [fetched] at kept
  | case2 self raw fetched =>
      have kept := self.keeps_raw self.filterVm
      rwa [fetched] at kept
  | case3 self pkt raw fetched unfiltered =>
      have kept := self.keeps_raw self.filterVm
      rwa [fetched] at kept
  | case4 self pkt raw fetched prog filtered shorter verdict passed =>
      have kept := self.keeps_raw verdict.2
      rwa [fetched] at kept
  | case5 self pkt raw fetched prog filtered shorter verdict rejected ih =>
      have kept := self.keeps_raw verdict.2
      rw [fetched] at kept
      exact kept.trans ih

/-- Without a filter a capture hands out what the socket gives. -/
theorem nextPacket_unfiltered {self : LiveCapture} (unfiltered : self.filter = none) :
    self.nextPacket.2 = { self with raw := self.raw.nextPacket.2 } ∧
      ∀ pkt, self.raw.nextPacket.1 = .ok (some pkt) →
        self.nextPacket.1 = .ok (some pkt.handedOut) := by
  fun_cases nextPacket self with
  | case1 e raw fetched =>
      rw [fetched]
      exact ⟨rfl, nofun⟩
  | case2 raw fetched =>
      rw [fetched]
      exact ⟨rfl, nofun⟩
  | case3 pkt raw fetched =>
      rw [fetched]
      refine ⟨rfl, ?_⟩
      rintro _ ⟨⟩
      rfl
  | case4 pkt raw fetched prog filtered =>
      rw [unfiltered] at filtered
      cases filtered
  | case5 pkt raw fetched prog filtered =>
      rw [unfiltered] at filtered
      cases filtered

/-- What a live capture has been opened with. -/
structure OpenedWith (capture : LiveCapture) (requested : UInt32) : Prop where
  snaplen : capture.snaplen = requested
  buf : capture.raw.buf.length = max requested.toNat 64
  unfiltered : capture.filter = none
  both : capture.raw.direction = .inOut

theorem openedWith_of_openLive {sys : PacketSystem} {device : String} {snaplen : UInt32}
    {opened : LiveCapture} (opens : openLive sys device snaplen = .ok opened) :
    OpenedWith opened snaplen := by
  rw [openLive] at opens
  split at opens
  · cases opens
  · rename_i raw found
    cases opens
    obtain ⟨size, both⟩ := RawCapture.of_openDevice found
    exact ⟨rfl, size, rfl, both⟩

/-! ## Sequences of calls -/

end LiveCapture

/-- A call on a live capture handle. -/
inductive LiveCall where
  | nextPacket
  | setFilter (expr : String)
  | setDirection (dir : Direction)
deriving DecidableEq

namespace LiveCapture

/-- The handle after a call. -/
def afterCall (self : LiveCapture) : LiveCall → LiveCapture
  | .nextPacket => self.nextPacket.2
  | .setFilter expr => (self.setFilter expr).2
  | .setDirection dir => self.setDirection dir

/-- The handle after calls. -/
def afterCalls (self : LiveCapture) (calls : List LiveCall) : LiveCapture :=
  calls.foldl afterCall self

theorem setFilter_keeps (self : LiveCapture) (expr : String) :
    Keeps self (self.setFilter expr).2 := by
  unfold setFilter
  split
  · exact ⟨List.suffix_rfl, rfl, rfl⟩
  · exact ⟨List.suffix_rfl, rfl, rfl⟩

theorem afterCall_keeps (self : LiveCapture) (call : LiveCall) :
    Keeps self (self.afterCall call) := by
  cases call with
  | nextPacket => exact self.nextPacket_keeps
  | setFilter expr => exact self.setFilter_keeps expr
  | setDirection dir => exact ⟨List.suffix_rfl, rfl, rfl⟩

/-- **Whole runs** keep what each call keeps. -/
theorem afterCalls_keeps (self : LiveCapture) (calls : List LiveCall) :
    Keeps self (self.afterCalls calls) := by
  induction calls generalizing self with
  | nil => exact ⟨List.suffix_rfl, rfl, rfl⟩
  | cons call calls ih => exact (self.afterCall_keeps call).trans (ih (self.afterCall call))

/-- Unfiltered and in both directions, calls of `next_packet` come to every reception. -/
theorem exists_calls (self : LiveCapture) (unfiltered : self.filter = none)
    (both : self.raw.direction = .inOut) {front rest : List Reception}
    (split : self.raw.socket = front ++ rest) :
    ∃ calls, (self.afterCalls calls).raw.socket = rest ∧
      (self.afterCalls calls).filter = none ∧
      (self.afterCalls calls).raw.direction = .inOut := by
  induction front generalizing self with
  | nil => exact ⟨[], split, unfiltered, both⟩
  | cons reception front ih =>
      obtain ⟨socket, direction, _⟩ := RawCapture.nextPacket_inOut both split
      have moved := (nextPacket_unfiltered unfiltered).1
      obtain ⟨calls, reached⟩ := ih self.nextPacket.2 (by rw [moved]; exact unfiltered)
        (by rw [moved]; exact direction) (by rw [moved]; exact socket)
      exact ⟨.nextPacket :: calls, reached⟩

end LiveCapture

end Wnr.Pcap
