import Mathlib.Algebra.Order.BigOperators.Group.List
import Wnr.Foundation.CallMachines
import Wnr.Pcap.LiveCapture
import Wnr.Pcap.Sendqueue

/-! # The capture handle

A handle wraps a savefile or a packet socket, and answers calls one after the other. What
the system answers to the calls that it gets is unknown and enters with each call. The error
that `geterr` returns is that of the last call that recorded one
(`CaptureHandle.geterr_register`), and a queue is transmitted up to its first frame that the
socket refuses (`CaptureHandle.transmitSendqueue_run`).
-/

namespace Wnr.Pcap

/-- Capture statistics. -/
structure CaptureStats where
  psRecv : UInt32
  psDrop : UInt32
  psIfdrop : UInt32
deriving DecidableEq

inductive CaptureKind where
  | offline (capture : Capture)
  | live (capture : LiveCapture)

/-- A capture handle of either kind. -/
structure CaptureHandle where
  kind : CaptureKind
  /-- Non-blocking read mode. -/
  nonblock : Bool
  /-- The frames that the socket has taken, for the observer only. -/
  sent : List (List UInt8)

namespace CaptureHandle

/-- Open a savefile for offline reading. -/
def openOffline (file : ByteStream) : Except String CaptureHandle :=
  (Capture.openOffline file).map fun capture => ⟨.offline capture, false, []⟩

/-- Open a live capture. -/
def openLive (sys : PacketSystem) (device : String) (snaplen : UInt32) :
    Except String CaptureHandle :=
  (LiveCapture.openLive sys device snaplen).map fun capture => ⟨.live capture, false, []⟩

variable (self : CaptureHandle)

/-- The most recent error message. -/
def geterr : String :=
  match self.kind with
  | .offline capture => capture.lastErr
  | .live capture => capture.lastErr

/-- The datalink type of this capture. -/
def datalink : Int32 :=
  match self.kind with
  | .offline capture => capture.linktype
  | .live capture => capture.linktype

def snaplen : UInt32 :=
  match self.kind with
  | .offline capture => capture.snaplen
  | .live capture => capture.snaplen

/-- Record an error. -/
def record (message : String) : CaptureHandle :=
  match self.kind with
  | .offline capture => { self with kind := .offline { capture with lastErr := message } }
  | .live capture => { self with kind := .live { capture with lastErr := message } }

/-- Set a BPF filter. -/
def setFilter (expr : String) : Except String Unit × CaptureHandle :=
  match self.kind with
  | .offline capture =>
      ((capture.setFilter expr).1, { self with kind := .offline (capture.setFilter expr).2 })
  | .live capture =>
      ((capture.setFilter expr).1, { self with kind := .live (capture.setFilter expr).2 })

/-- Read the next packet. -/
def nextPacket : Except String (Option (PacketHeader × List UInt8)) × CaptureHandle :=
  match self.kind with
  | .offline capture =>
      (capture.nextPacket.1, { self with kind := .offline capture.nextPacket.2 })
  | .live capture => (capture.nextPacket.1, { self with kind := .live capture.nextPacket.2 })

/-- Set or clear non-blocking mode; `fcntl` is what setting the flags comes to. -/
def setNonblock (nb : Bool) (fcntl : Except IoError Unit) : Except String Unit × CaptureHandle :=
  match self.kind, fcntl with
  | .live _, .error e => (.error ("pcap_setnonblock: " ++ e.message), self.record e.message)
  | .live _, .ok () | .offline _, _ => (.ok (), { self with nonblock := nb })

/-- `set_direction`'s error. -/
def offlineDirection : String := "pcap_setdirection: cannot set direction on an offline capture"

/-- Restrict capture to packets of a given direction. -/
def setDirection (dir : Direction) : Except String Unit × CaptureHandle :=
  match self.kind with
  | .offline _ => (.error offlineDirection, self.record offlineDirection)
  | .live capture => (.ok (), { self with kind := .live (capture.setDirection dir) })

/-- Read capture statistics; `pollStats` is what the socket has counted. -/
def stats (pollStats : Except IoError (UInt32 × UInt32)) : CaptureStats :=
  match self.kind, pollStats with
  | .live _, .ok (recv, drop) => ⟨recv, drop, 0⟩
  | .live _, .error _ | .offline _, _ => ⟨0, 0, 0⟩

/-- The socket takes frames. -/
def taking (frames : List (List UInt8)) : CaptureHandle := { self with sent := self.sent ++ frames }

/-- `inject`'s error. -/
def offlineInject : String := "cannot inject on an offline capture"

/-- Inject a raw frame onto the wire; `sendto` is what sending it comes to. -/
def inject (data : List UInt8) (sendto : Except IoError Nat) : Except String Nat × CaptureHandle :=
  match self.kind, sendto with
  | .offline _, _ => (.error offlineInject, self.record offlineInject)
  | .live _, .error e => (.error ("pcap_inject: " ++ e.message), self.record e.message)
  | .live _, .ok n => (.ok n, self.taking [data])

/-- The loop of `transmit_sendqueue`; `sendto` says what each call comes to, and the outer
`none` is the overflow of the total. -/
def transmitAll (self : CaptureHandle) :
    List PcapPacket → UInt32 → (Nat → Except IoError Nat) →
      Option (Except String UInt32) × CaptureHandle
  | [], total, _ => (some (.ok total), self)
  | pkt :: rest, total, sendto =>
      match self.inject pkt.data (sendto 0) with
      | (.error e, after) => (some (.error e), after)
      | (.ok n, after) =>
          match checkedAdd total (UInt32.ofNat n) with
          | none => (none, after)
          | some total => transmitAll after rest total fun i => sendto (i + 1)

/-- Transmit every packet in `queue`. Returns the total number of bytes transmitted. -/
def transmitSendqueue (queue : Sendqueue) (sendto : Nat → Except IoError Nat) :
    Option (Except String UInt32) × CaptureHandle :=
  self.transmitAll queue.pkts 0 sendto

end CaptureHandle

/-! ## Runs of calls -/

/-- A call on a capture handle, with what the system answers to it. -/
inductive HandleCall where
  | nextPacket
  | setFilter (expr : String)
  | setDirection (dir : Direction)
  | setNonblock (nb : Bool) (fcntl : Except IoError Unit)
  | stats (pollStats : Except IoError (UInt32 × UInt32))
  | inject (data : List UInt8) (sendto : Except IoError Nat)
  | transmitSendqueue (queue : Sendqueue) (sendto : Nat → Except IoError Nat)
  | geterr
  | nonblock

inductive HandleAnswer where
  | packet (result : Except String (Option (PacketHeader × List UInt8)))
  | set (result : Except String Unit)
  | stats (stats : CaptureStats)
  | injected (result : Except String Nat)
  | transmitted (result : Option (Except String UInt32))
  | message (text : String)
  | flag (value : Bool)

namespace CaptureHandle

open CallMachine

/-- Answer a call. -/
def step (self : CaptureHandle) : HandleCall → HandleAnswer × CaptureHandle
  | .nextPacket => (.packet self.nextPacket.1, self.nextPacket.2)
  | .setFilter expr => (.set (self.setFilter expr).1, (self.setFilter expr).2)
  | .setDirection dir => (.set (self.setDirection dir).1, (self.setDirection dir).2)
  | .setNonblock nb fcntl => (.set (self.setNonblock nb fcntl).1, (self.setNonblock nb fcntl).2)
  | .stats pollStats => (.stats (self.stats pollStats), self)
  | .inject data sendto => (.injected (self.inject data sendto).1, (self.inject data sendto).2)
  | .transmitSendqueue queue sendto =>
      (.transmitted (self.transmitSendqueue queue sendto).1,
        (self.transmitSendqueue queue sendto).2)
  | .geterr => (.message self.geterr, self)
  | .nonblock => (.flag self.nonblock, self)

/-- The capture reads from a packet socket. -/
def isLive (self : CaptureHandle) : Bool :=
  match self.kind with
  | .offline _ => false
  | .live _ => true

variable {self : CaptureHandle}

/-! ## Errors that are recorded -/

theorem geterr_record (self : CaptureHandle) (message : String) :
    (self.record message).geterr = message := by
  obtain ⟨kind, nonblock, sent⟩ := self
  cases kind <;> rfl

theorem isLive_record (self : CaptureHandle) (message : String) :
    (self.record message).isLive = self.isLive := by
  obtain ⟨kind, nonblock, sent⟩ := self
  cases kind <;> rfl

theorem sent_record (self : CaptureHandle) (message : String) :
    (self.record message).sent = self.sent := by
  obtain ⟨kind, nonblock, sent⟩ := self
  cases kind <;> rfl

/-! ## Transmitting -/

theorem toNat_of_checkedAdd {a b sum : UInt32} (added : checkedAdd a b = some sum) :
    sum.toNat = a.toNat + b.toNat := by
  rw [checkedAdd] at added
  split at added
  · rename_i fits
    rw [← Option.some.inj added, UInt32.toNat_add, Nat.mod_eq_of_lt fits]
  · cases added

theorem le_of_checkedAdd {a b : UInt32} (overflow : checkedAdd a b = none) :
    2 ^ 32 ≤ a.toNat + b.toNat := by
  rw [checkedAdd] at overflow
  split at overflow
  · cases overflow
  · rename_i large
    exact Nat.not_lt.mp large

theorem taking_nil (self : CaptureHandle) : self.taking [] = self := by
  rw [taking, List.append_nil]

theorem taking_taking (self : CaptureHandle) (first second : List (List UInt8)) :
    (self.taking first).taking second = self.taking (first ++ second) := by
  rw [taking, taking, taking, List.append_assoc]

theorem inject_live {capture : LiveCapture} (live : self.kind = .live capture) (data : List UInt8)
    (sendto : Except IoError Nat) :
    self.inject data sendto =
      match sendto with
      | .error e => (.error ("pcap_inject: " ++ e.message), self.record e.message)
      | .ok n => (.ok n, self.taking [data]) := by
  obtain ⟨kind, nonblock, sent⟩ := self
  obtain rfl : kind = .live capture := live
  cases sendto <;> rfl

/-- The bytes of the first frames, as they are counted. -/
def sentBytes (sendto : Nat → Except IoError Nat) : Nat → Nat
  | 0 => 0
  | count + 1 =>
      (match sendto 0 with
        | .ok n => (UInt32.ofNat n).toNat
        | .error _ => 0) + sentBytes (fun i => sendto (i + 1)) count

theorem sentBytes_succ {sendto : Nat → Except IoError Nat} {n : Nat} (first : sendto 0 = .ok n)
    (count : Nat) : sentBytes sendto (count + 1) =
      (UInt32.ofNat n).toNat + sentBytes (fun i => sendto (i + 1)) count := by
  rw [sentBytes, first]

/-- The frames of packets. -/
def frames (pkts : List PcapPacket) : List (List UInt8) := pkts.map PcapPacket.data

/-- What transmitting packets on a packet socket comes to: the first frame that is refused
ends it, or the total when it overflows. -/
inductive Transmits (self : CaptureHandle) (pkts : List PcapPacket) (total : UInt32)
    (sendto : Nat → Except IoError Nat) : Option (Except String UInt32) × CaptureHandle → Prop
  | done (sum : UInt32) (taken : ∀ i < pkts.length, ∃ n, sendto i = .ok n)
      (isSum : sum.toNat = total.toNat + sentBytes sendto pkts.length) :
      Transmits self pkts total sendto (some (.ok sum), self.taking (frames pkts))
  | refused (i : Nat) (e : IoError) (within : i < pkts.length) (error : sendto i = .error e)
      (taken : ∀ j < i, ∃ n, sendto j = .ok n) :
      Transmits self pkts total sendto (some (.error ("pcap_inject: " ++ e.message)),
        (self.taking (frames (pkts.take i))).record e.message)
  | overflow (i : Nat) (within : i < pkts.length)
      (much : 2 ^ 32 ≤ total.toNat + sentBytes sendto (i + 1)) :
      Transmits self pkts total sendto (none, self.taking (frames (pkts.take (i + 1))))

theorem taken_succ {sendto : Nat → Except IoError Nat} {n : Nat} (first : sendto 0 = .ok n)
    {count : Nat} (later : ∀ i < count, ∃ n, sendto (i + 1) = .ok n) :
    ∀ i < count + 1, ∃ n, sendto i = .ok n := by
  intro i within
  cases i with
  | zero => exact ⟨n, first⟩
  | succ i => exact later i (Nat.lt_of_succ_lt_succ within)

/-- **Transmitting**, one packet after the other. -/
theorem transmitAll_live {capture : LiveCapture} (live : self.kind = .live capture)
    (pkts : List PcapPacket) (total : UInt32) (sendto : Nat → Except IoError Nat) :
    Transmits self pkts total sendto (self.transmitAll pkts total sendto) := by
  induction pkts generalizing self total sendto with
  | nil =>
      have none : Transmits self [] total sendto _ :=
        .done total (fun _ within => absurd within (Nat.not_lt_zero _)) rfl
      rwa [frames, List.map_nil, taking_nil] at none
  | cons pkt rest ih =>
      have one (pkts : List PcapPacket) :
          (self.taking [pkt.data]).taking (frames pkts) = self.taking (frames (pkt :: pkts)) :=
        taking_taking ..
      rw [transmitAll, inject_live live]
      cases first : sendto 0 with
      | error e =>
          have refused : Transmits self (pkt :: rest) total sendto _ :=
            .refused 0 e (Nat.zero_lt_succ _) first fun j before => absurd before (Nat.not_lt_zero j)
          rwa [List.take_zero, frames, List.map_nil, taking_nil] at refused
      | ok n =>
          simp only
          cases added : checkedAdd total (UInt32.ofNat n) with
          | none =>
              refine .overflow 0 (Nat.zero_lt_succ _) ?_
              rw [sentBytes_succ first]
              exact le_of_checkedAdd added
          | some sum =>
              have isSum := toNat_of_checkedAdd added
              have live' : (self.taking [pkt.data]).kind = .live capture := live
              have later := ih live' sum fun i => sendto (i + 1)
              simp only
              generalize (self.taking [pkt.data]).transmitAll rest sum (fun i => sendto (i + 1)) =
                result at later
              cases later with
              | done sum' taken isSum' =>
                  rw [one]
                  refine .done sum' (taken_succ first taken) ?_
                  rw [List.length_cons, sentBytes_succ first]
                  omega
              | refused i e within error taken =>
                  rw [one, ← List.take_succ_cons]
                  exact .refused (i + 1) e (Nat.succ_lt_succ within) error (taken_succ first taken)
              | overflow i within much =>
                  rw [one, ← List.take_succ_cons]
                  refine .overflow (i + 1) (Nat.succ_lt_succ within) ?_
                  rw [sentBytes_succ first]
                  omega

theorem transmitAll_offline {capture : Capture} (offline : self.kind = .offline capture)
    (pkts : List PcapPacket) (total : UInt32) (sendto : Nat → Except IoError Nat) :
    self.transmitAll pkts total sendto =
      if pkts = [] then (some (.ok total), self)
      else (some (.error offlineInject), self.record offlineInject) := by
  obtain ⟨kind, nonblock, sent⟩ := self
  obtain rfl : kind = .offline capture := offline
  cases pkts <;> rfl

/-- What the socket says of frames it takes: no more bytes than the frame has. -/
def Documented (pkts : List PcapPacket) (sendto : Nat → Except IoError Nat) : Prop :=
  ∀ i n, sendto i = .ok n → ∀ pkt, pkts[i]? = some pkt → n ≤ pkt.data.length

theorem sentBytes_le {pkts : List PcapPacket} {sendto : Nat → Except IoError Nat}
    (documented : Documented pkts sendto) {count : Nat} (within : count ≤ pkts.length) :
    sentBytes sendto count ≤ dataTotal pkts := by
  induction pkts generalizing sendto count with
  | nil =>
      obtain rfl := Nat.le_zero.mp within
      exact Nat.zero_le _
  | cons pkt rest ih =>
      cases count with
      | zero => exact Nat.zero_le _
      | succ count =>
          have later := ih (fun i n sent => documented (i + 1) n sent) (Nat.le_of_succ_le_succ within)
          have total : dataTotal (pkt :: rest) = pkt.data.length + dataTotal rest := rfl
          rw [sentBytes, total]
          refine Nat.add_le_add ?_ later
          cases first : sendto 0 with
          | error e => exact Nat.zero_le _
          | ok n =>
              have narrowed : (UInt32.ofNat n).toNat ≤ n := Nat.mod_le n _
              exact narrowed.trans (documented 0 n first pkt rfl)

theorem length_le_dataTotal {pkts : List PcapPacket} {pkt : PcapPacket} (member : pkt ∈ pkts) :
    pkt.data.length ≤ dataTotal pkts :=
  List.le_sum_of_mem (List.mem_map_of_mem member)

/-- **A queue goes out** up to its first frame that the socket refuses. In every history of a
queue that is counted as it is, the total does not overflow. -/
theorem transmitSendqueue_run {capacity : UInt32} {ops : List SendqueueOp} {queue : Sendqueue}
    {capture : LiveCapture} {sendto : Nat → Except IoError Nat}
    (along : History.Along (staged capacity.toNat) (Countable capacity.toNat) ops [])
    (reached : Sendqueue.run capacity ops = some queue) (live : self.kind = .live capture)
    (documented : Documented queue.pkts sendto) :
    let pkts := ops.foldl (staged capacity.toNat) []
    let result := self.transmitSendqueue queue sendto
    ((∀ i < pkts.length, ∃ n < 2 ^ 32, sendto i = .ok n) ∧ ∃ total, result.1 = some (.ok total) ∧
        total.toNat = sentBytes sendto pkts.length ∧ result.2.sent = self.sent ++ frames pkts ∧
        result.2.geterr = self.geterr) ∨
      ∃ i e, i < pkts.length ∧ (∀ j < i, ∃ n, sendto j = .ok n) ∧ sendto i = .error e ∧
        result.1 = some (.error ("pcap_inject: " ++ e.message)) ∧
        result.2.sent = self.sent ++ frames (pkts.take i) ∧ result.2.geterr = e.message := by
  obtain ⟨queue', reached', holds⟩ := Sendqueue.run_of_along along
  obtain rfl := Option.some.inj (reached.symm.trans reached')
  intro pkts result
  have same : queue.pkts = pkts := holds.entries
  have transmits : Transmits self pkts 0 sendto result :=
    same ▸ transmitAll_live live queue.pkts 0 sendto
  have fits : dataTotal pkts < 2 ^ 32 := lt_of_le_of_lt holds.within capacity.toNat_lt
  rw [same] at documented
  generalize result = result at transmits
  cases transmits with
  | done sum taken isSum =>
      refine .inl ⟨fun i within => ?_, sum, rfl, isSum.trans (Nat.zero_add _), rfl, rfl⟩
      obtain ⟨n, sent⟩ := taken i within
      have least := documented i n sent _ (List.getElem?_eq_getElem within)
      have most := length_le_dataTotal (List.getElem_mem within)
      exact ⟨n, by omega, sent⟩
  | refused i e within error taken =>
      exact .inr ⟨i, e, within, taken, error, rfl, sent_record _ _, geterr_record _ _⟩
  | overflow i within much =>
      have bound : sentBytes sendto (i + 1) ≤ dataTotal pkts :=
        sentBytes_le documented (Nat.succ_le_of_lt within)
      have zero : (0 : UInt32).toNat = 0 := rfl
      omega

/-- A capture on a socket to which nothing comes. -/
def silent : CaptureHandle :=
  ⟨.live ⟨⟨1, .inOut, List.replicate 64 0, []⟩, 64, dltEn10mb, none, .new, .inOut, ""⟩, false, []⟩

/-- A socket that takes a frame of three bytes and then none. -/
def takesOne : Nat → Except IoError Nat
  | 0 => .ok 3
  | _ + 1 => .error ⟨.other, "Network is down"⟩

theorem transmitSendqueue_run_silent :
    let pkts := [SendqueueOp.addRaw 1 0 [1, 2, 3], .addRaw 1 0 [4]].foldl (staged 8) []
    let result := silent.transmitSendqueue ⟨8, 4, pkts⟩ takesOne
    ((∀ i < pkts.length, ∃ n < 2 ^ 32, takesOne i = .ok n) ∧
        ∃ total, result.1 = some (.ok total) ∧ total.toNat = sentBytes takesOne pkts.length ∧
          result.2.sent = silent.sent ++ frames pkts ∧ result.2.geterr = silent.geterr) ∨
      ∃ i e, i < pkts.length ∧ (∀ j < i, ∃ n, takesOne j = .ok n) ∧ takesOne i = .error e ∧
        result.1 = some (.error ("pcap_inject: " ++ e.message)) ∧
        result.2.sent = silent.sent ++ frames (pkts.take i) ∧ result.2.geterr = e.message := by
  have documented : Documented [Sendqueue.rawPacket 1 0 [1, 2, 3], Sendqueue.rawPacket 1 0 [4]]
      takesOne := by
    intro i n took pkt here
    cases i with
    | zero =>
        obtain rfl := Option.some.inj here
        obtain rfl := Except.ok.inj took
        exact le_rfl
    | succ i => cases took
  have along : History.Along (staged (8 : UInt32).toNat) (Countable (8 : UInt32).toNat)
      [.addRaw 1 0 [1, 2, 3], .addRaw 1 0 [4]] [] := by
    decide
  exact transmitSendqueue_run along rfl rfl documented

/-! ## The error register -/

/-- The message of an error. -/
def messageOf {α : Type} : Except IoError α → Option String
  | .error e => some e.message
  | .ok _ => none

/-- What a call records of its failure. -/
def recorded (live : Bool) : HandleCall × HandleAnswer → Option String
  | (.setFilter _, .set (.error e)) => some ("syntax error: " ++ e)
  | (.setDirection _, .set (.error e)) => some e
  | (.setNonblock _ fcntl, .set (.error _)) => messageOf fcntl
  | (.inject _ sendto, .injected (.error _)) => if live then messageOf sendto else some offlineInject
  | (.transmitSendqueue queue sendto, .transmitted (some (.error _))) =>
      if live then (List.range queue.pkts.length).findSome? fun i => messageOf (sendto i)
      else some offlineInject
  | _ => none

/-- What a call leaves in the register, and that it leaves the kind of capture alone. -/
structure Registers (handle : CaptureHandle) (call : HandleCall) : Prop where
  isLive : (handle.step call).2.isLive = handle.isLive
  geterr : (handle.step call).2.geterr =
    (recorded handle.isLive (call, (handle.step call).1)).getD handle.geterr

theorem nextPacket_lastErr (capture : Capture) : capture.nextPacket.2.lastErr = capture.lastErr := by
  fun_induction Capture.nextPacket capture with
  | case1 | case2 | case3 | case4 => rfl
  | case5 self pkt reader fetched prog filtered shorter verdict rejected ih => exact ih

theorem nextPacket_live_lastErr (capture : LiveCapture) :
    capture.nextPacket.2.lastErr = capture.lastErr := by
  fun_induction LiveCapture.nextPacket capture with
  | case1 | case2 | case3 | case4 => rfl
  | case5 self pkt raw fetched prog filtered shorter verdict rejected ih => exact ih

/-- The first index at which something is found. -/
theorem findSome?_range {α : Type} {find : Nat → Option α} {found : α} {i count : Nat}
    (within : i < count) (here : find i = some found) (earlier : ∀ j < i, find j = none) :
    (List.range count).findSome? find = some found := by
  obtain ⟨more, rfl⟩ := Nat.exists_eq_add_of_lt within
  have nothing : (List.range i).findSome? find = none :=
    List.findSome?_eq_none_iff.mpr fun j member => earlier j (List.mem_range.mp member)
  rw [Nat.add_assoc, List.range_add, List.findSome?_append, nothing, Option.none_or,
    List.range_succ_eq_map, List.map_cons, List.findSome?_cons, Nat.add_zero, here]

theorem registers_transmit (self : CaptureHandle) (queue : Sendqueue)
    (sendto : Nat → Except IoError Nat) : Registers self (.transmitSendqueue queue sendto) := by
  cases isKind : self.kind with
  | offline capture =>
      have sent := transmitAll_offline isKind queue.pkts 0 sendto
      have offline : self.isLive = false := by rw [isLive, isKind]
      by_cases empty : queue.pkts = []
      · rw [if_pos empty] at sent
        constructor <;> simp only [step, transmitSendqueue, sent, recorded, Option.getD_none]
      · rw [if_neg empty] at sent
        constructor <;>
          simp only [step, transmitSendqueue, sent, recorded, offline, geterr_record,
            isLive_record, Bool.false_eq_true, ↓reduceIte, Option.getD_some]
  | live capture =>
      have sent := transmitAll_live isKind queue.pkts 0 sendto
      have live : self.isLive = true := by rw [isLive, isKind]
      constructor
      · rw [step, transmitSendqueue]
        generalize self.transmitAll queue.pkts 0 sendto = result at sent
        cases sent with
        | done | overflow => rfl
        | refused => exact isLive_record _ _
      · rw [step, transmitSendqueue]
        generalize self.transmitAll queue.pkts 0 sendto = result at sent
        cases sent with
        | done | overflow => rfl
        | refused i e within error taken =>
            have first : (List.range queue.pkts.length).findSome? (fun i => messageOf (sendto i)) =
                some e.message := by
              refine findSome?_range within (by rw [error]; rfl) fun j before => ?_
              obtain ⟨n, took⟩ := taken j before
              rw [took]
              rfl
            simp only [recorded, live, ↓reduceIte, first, geterr_record, Option.getD_some]

theorem registers (self : CaptureHandle) (call : HandleCall) : Registers self call := by
  obtain ⟨kind, nonblock, sent⟩ := self
  cases call with
  | nextPacket =>
      cases kind with
      | offline capture => exact ⟨rfl, nextPacket_lastErr capture⟩
      | live capture => exact ⟨rfl, nextPacket_live_lastErr capture⟩
  | setFilter expr =>
      cases kind with
      | offline capture =>
          refine ⟨rfl, ?_⟩
          simp only [step, setFilter, geterr, Capture.setFilter]
          split <;> rfl
      | live capture =>
          refine ⟨rfl, ?_⟩
          simp only [step, setFilter, geterr, LiveCapture.setFilter]
          split <;> rfl
  | setDirection dir => cases kind <;> exact ⟨rfl, rfl⟩
  | setNonblock nb fcntl => cases kind <;> cases fcntl <;> exact ⟨rfl, rfl⟩
  | stats pollStats => exact ⟨rfl, rfl⟩
  | inject data sendto => cases kind <;> cases sendto <;> exact ⟨rfl, rfl⟩
  | transmitSendqueue queue sendto => exact registers_transmit _ queue sendto
  | geterr => exact ⟨rfl, rfl⟩
  | nonblock => exact ⟨rfl, rfl⟩

/-- **The error register.** The message of `geterr` is what the last call recorded that
recorded something. -/
theorem geterr_register (calls : List HandleCall) (handle : CaptureHandle) :
    (after step calls handle).geterr =
      (((exchanges step calls handle).filterMap (recorded handle.isLive)).getLast?).getD
        handle.geterr := by
  apply register (fun state => state.isLive = handle.isLive)
  · intro state call same
    exact (registers state call).isLive.trans same
  · intro state call same
    rw [← same]
    exact (registers state call).geterr
  · rfl

end CaptureHandle

end Wnr.Pcap
