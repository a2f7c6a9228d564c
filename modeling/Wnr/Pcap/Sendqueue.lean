import Wnr.Foundation.Histories
import Wnr.Pcap.Bpf
import Wnr.Pcap.Savefile

/-! # The transmission queue

A queue of packets with a capacity in bytes. What it counts is narrowed to 32 bits and
added twice, once saturating and once not. The queue is the list of the packets that fit
exactly along those histories in which neither matters
(`Wnr.Pcap.Sendqueue.countsExactly_iff`).
-/

namespace Wnr.Pcap

open History

/-- `a.saturating_add(b)` on `u32`. -/
def saturatingAdd (a b : UInt32) : UInt32 :=
  if a.toNat + b.toNat < 2 ^ 32 then a + b else 0xffffffff

/-- A fixed-capacity queue of packets ready to be transmitted. -/
structure Sendqueue where
  /-- Reserved capacity in bytes. -/
  capacity : UInt32
  /-- Total bytes queued so far. -/
  bytes : UInt32
  /-- The staged packets. -/
  pkts : List PcapPacket
deriving DecidableEq

/-- What is done to a queue. -/
inductive SendqueueOp where
  | add (pkt : PcapPacket)
  | addRaw (tsSec tsFrac : UInt32) (data : List UInt8)
  | clear
deriving DecidableEq

namespace Sendqueue

/-- Allocate a send queue with a maximum capacity of `capacity` bytes. -/
def new (capacity : UInt32) : Sendqueue := ⟨capacity, 0, []⟩

/-- The error of `add`. -/
def queueFull (bytes need capacity : UInt32) : String :=
  "sendqueue: queue full (" ++ toString bytes ++ " bytes queued + " ++ toString need ++
    " requested exceeds capacity " ++ toString capacity ++ ")"

/-- Add a packet to the queue; `none` is the panic of an overflow. -/
def add (self : Sendqueue) (pkt : PcapPacket) : Option (Except String Unit × Sendqueue) :=
  let need := UInt32.ofNat pkt.data.length
  if saturatingAdd self.bytes need > self.capacity then
    some (.error (queueFull self.bytes need self.capacity), self)
  else
    match checkedAdd self.bytes need with
    | none => none
    | some bytes => some (.ok (), { self with bytes, pkts := self.pkts ++ [pkt] })

/-- The packet of `add_raw`. -/
def rawPacket (tsSec tsFrac : UInt32) (data : List UInt8) : PcapPacket :=
  { tsSec
    tsFrac
    caplen := UInt32.ofNat data.length
    origlen := UInt32.ofNat data.length
    pkttype := 0
    data }

/-- Add a packet by its fields. -/
def addRaw (self : Sendqueue) (tsSec tsFrac : UInt32) (data : List UInt8) :
    Option (Except String Unit × Sendqueue) :=
  self.add (rawPacket tsSec tsFrac data)

/-- Remove all staged packets. -/
def clear (self : Sendqueue) : Sendqueue := { self with pkts := [], bytes := 0 }

def perform (self : Sendqueue) : SendqueueOp → Option (Except String Unit × Sendqueue)
  | .add pkt => self.add pkt
  | .addRaw tsSec tsFrac data => self.addRaw tsSec tsFrac data
  | .clear => some (.ok (), self.clear)

/-- A history of a new queue, as far as no operation of it panics. -/
def run (capacity : UInt32) (ops : List SendqueueOp) : Option Sendqueue :=
  ops.foldlM (fun self op => (self.perform op).map (·.2)) (new capacity)

end Sendqueue

/-! ## The queue as a list of packets -/

/-- The data lengths of packets. -/
def dataTotal (pkts : List PcapPacket) : Nat := (pkts.map (·.data.length)).sum

@[simp] theorem dataTotal_nil : dataTotal [] = 0 := rfl

@[simp] theorem dataTotal_concat (pkts : List PcapPacket) (pkt : PcapPacket) :
    dataTotal (pkts ++ [pkt]) = dataTotal pkts + pkt.data.length := by
  rw [dataTotal, List.map_append, List.sum_append]
  rfl

/-- The packet that an operation adds. -/
def SendqueueOp.added : SendqueueOp → Option PcapPacket
  | .add pkt => some pkt
  | .addRaw tsSec tsFrac data => some (Sendqueue.rawPacket tsSec tsFrac data)
  | .clear => none

/-- What a queue of exact size holds after an operation: a packet is added where it fits. -/
def staged (capacity : Nat) (pkts : List PcapPacket) (op : SendqueueOp) : List PcapPacket :=
  match op.added with
  | some pkt => if dataTotal pkts + pkt.data.length ≤ capacity then pkts ++ [pkt] else pkts
  | none => []

theorem staged_of_added {op : SendqueueOp} {pkt : PcapPacket} (added : op.added = some pkt)
    (capacity : Nat) (pkts : List PcapPacket) :
    staged capacity pkts op =
      if dataTotal pkts + pkt.data.length ≤ capacity then pkts ++ [pkt] else pkts := by
  simp only [staged, added]

/-- What the operation adds is counted as it is: no sum has to saturate at a capacity that
is the greatest count, and a length that the count cannot hold is still refused by what is
left of it. -/
def Countable (capacity : Nat) (pkts : List PcapPacket) (op : SendqueueOp) : Prop :=
  ∀ pkt ∈ op.added,
    (capacity < 2 ^ 32 - 1 ∨ dataTotal pkts + pkt.data.length < 2 ^ 32) ∧
      (2 ^ 32 ≤ pkt.data.length → capacity < dataTotal pkts + pkt.data.length % 2 ^ 32)

instance (capacity : Nat) (pkts : List PcapPacket) (op : SendqueueOp) :
    Decidable (Countable capacity pkts op) :=
  inferInstanceAs (Decidable (∀ pkt ∈ op.added, _))

namespace Sendqueue

/-- The queue holds the packets and counts their bytes, which are within its capacity. -/
structure Holds (queue : Sendqueue) (capacity : UInt32) (pkts : List PcapPacket) : Prop where
  reserved : queue.capacity = capacity
  entries : queue.pkts = pkts
  bytes : queue.bytes.toNat = dataTotal pkts
  within : dataTotal pkts ≤ capacity.toNat

/-- A history in which no operation panics, the queue holds the packets that fit since it was
last cleared, and an operation that adds a packet fails exactly when the packet does not fit,
and then changes nothing. -/
structure CountsExactly (capacity : UInt32) (ops : List SendqueueOp) : Prop where
  holds : ∀ reached, reached <+: ops → ∃ queue, run capacity reached = some queue ∧
    queue.Holds capacity (reached.foldl (staged capacity.toNat) [])
  answers : ∀ earlier op queue result after, earlier ++ [op] <+: ops →
    run capacity earlier = some queue → queue.perform op = some (result, after) →
      ∀ pkt ∈ op.added,
        ((∃ error, result = .error error) ↔
          capacity.toNat <
            dataTotal (earlier.foldl (staged capacity.toNat) []) + pkt.data.length) ∧
        ((∃ error, result = .error error) → after = queue)

variable {queue : Sendqueue} {capacity : UInt32} {pkts : List PcapPacket} {op : SendqueueOp}
  {ops : List SendqueueOp}

/-! ## One operation -/

theorem toNat_saturatingAdd (a b : UInt32) :
    (saturatingAdd a b).toNat = min (a.toNat + b.toNat) (2 ^ 32 - 1) := by
  unfold saturatingAdd
  split
  · rw [UInt32.toNat_add]
    omega
  · rw [show (0xffffffff : UInt32).toNat = 2 ^ 32 - 1 from rfl]
    omega

/-- Whatever adds a packet does what `add` does. -/
theorem perform_of_added {pkt : PcapPacket} (added : op.added = some pkt) :
    queue.perform op = queue.add pkt := by
  cases op with
  | add own => rw [perform, Option.some.inj added]
  | addRaw tsSec tsFrac data => rw [perform, addRaw, Option.some.inj added]
  | clear => cases added

/-- **What `add` does**: refuse the packet, panic, or put it into the queue. -/
theorem add_cases (queue : Sendqueue) (pkt : PcapPacket) :
    (queue.capacity.toNat <
        min (queue.bytes.toNat + pkt.data.length % 2 ^ 32) (2 ^ 32 - 1) ∧
      ∃ error, queue.add pkt = some (.error error, queue)) ∨
    (queue.capacity.toNat = 2 ^ 32 - 1 ∧
      2 ^ 32 ≤ queue.bytes.toNat + pkt.data.length % 2 ^ 32 ∧ queue.add pkt = none) ∨
    (queue.bytes.toNat + pkt.data.length % 2 ^ 32 ≤ queue.capacity.toNat ∧
      ∃ after, queue.add pkt = some (.ok (), after) ∧ after.capacity = queue.capacity ∧
        after.pkts = queue.pkts ++ [pkt] ∧
        after.bytes.toNat = queue.bytes.toNat + pkt.data.length % 2 ^ 32) := by
  have need : (UInt32.ofNat pkt.data.length).toNat = pkt.data.length % 2 ^ 32 :=
    UInt32.toNat_ofNat'
  have bound := queue.capacity.toNat_lt
  by_cases full : saturatingAdd queue.bytes (UInt32.ofNat pkt.data.length) > queue.capacity
  · refine .inl ⟨?_, _, if_pos full⟩
    have more := UInt32.lt_iff_toNat_lt.mp full
    rwa [toNat_saturatingAdd, need] at more
  · have room : min (queue.bytes.toNat + pkt.data.length % 2 ^ 32) (2 ^ 32 - 1) ≤
        queue.capacity.toNat := by
      rw [← need, ← toNat_saturatingAdd]
      exact Nat.not_lt.mp (mt UInt32.lt_iff_toNat_lt.mpr full)
    by_cases small : queue.bytes.toNat + pkt.data.length % 2 ^ 32 < 2 ^ 32
    · refine .inr (.inr ⟨by omega, { queue with
        bytes := queue.bytes + UInt32.ofNat pkt.data.length
        pkts := queue.pkts ++ [pkt] }, ?_, rfl, rfl, ?_⟩)
      · simp only [add, full, if_false, checkedAdd, need, small, if_true]
      · rw [UInt32.toNat_add, need, Nat.mod_eq_of_lt small]
    · refine .inr (.inl ⟨by omega, Nat.not_lt.mp small, ?_⟩)
      simp only [add, full, if_false, checkedAdd, need, small]

/-- **One operation** that is counted as it is does what it does to the list of packets. -/
theorem Holds.perform (holds : queue.Holds capacity pkts)
    (countable : Countable capacity.toNat pkts op) :
    ∃ result after, queue.perform op = some (result, after) ∧
      after.Holds capacity (staged capacity.toNat pkts op) ∧
      ∀ pkt ∈ op.added,
        ((∃ error, result = .error error) ↔
          capacity.toNat < dataTotal pkts + pkt.data.length) ∧
        ((∃ error, result = .error error) → after = queue) := by
  cases adds : op.added with
  | none =>
      cases op with
      | add pkt => cases adds
      | addRaw tsSec tsFrac data => cases adds
      | clear =>
          exact ⟨.ok (), queue.clear, rfl, ⟨holds.reserved, rfl, rfl, Nat.zero_le _⟩, nofun⟩
  | some pkt =>
      obtain ⟨roomy, seen⟩ := countable pkt adds
      have bytes := holds.bytes
      have within := holds.within
      have reserved := congrArg UInt32.toNat holds.reserved
      have low : pkt.data.length % 2 ^ 32 ≤ pkt.data.length := Nat.mod_le _ _
      rw [perform_of_added adds, staged_of_added adds]
      rcases add_cases queue pkt with ⟨less, error, refused⟩ | ⟨greatest, wraps, _⟩ |
        ⟨fits, after, put, sameCapacity, entries, counted⟩
      · have exceeds : capacity.toNat < dataTotal pkts + pkt.data.length := by omega
        refine ⟨.error error, queue, refused, ?_, ?_⟩
        · rw [if_neg (Nat.not_le.mpr exceeds)]
          exact holds
        · intro other same
          rw [← Option.some.inj same]
          exact ⟨iff_of_true ⟨error, rfl⟩ exceeds, fun _ => rfl⟩
      · -- the greatest capacity is not passed by a saturated sum
        omega
      · have small : pkt.data.length < 2 ^ 32 := by omega
        rw [Nat.mod_eq_of_lt small] at fits counted
        have room : dataTotal pkts + pkt.data.length ≤ capacity.toNat := by omega
        refine ⟨.ok (), after, put, ?_, ?_⟩
        · rw [if_pos room]
          refine ⟨sameCapacity.trans holds.reserved, ?_, ?_, ?_⟩
          · rw [entries, holds.entries]
          · rw [counted, dataTotal_concat, bytes]
          · rw [dataTotal_concat]
            exact room
        · intro other same
          rw [← Option.some.inj same]
          exact ⟨iff_of_false nofun (Nat.not_lt.mpr room), nofun⟩

/-- An operation after which the queue holds what it should was counted as it is. -/
theorem Holds.countable {result : Except String Unit} {after : Sendqueue}
    (holds : queue.Holds capacity pkts) (performed : queue.perform op = some (result, after))
    (next : after.Holds capacity (staged capacity.toNat pkts op)) :
    Countable capacity.toNat pkts op := by
  intro pkt adds
  have bytes := holds.bytes
  have within := holds.within
  have reserved := congrArg UInt32.toNat holds.reserved
  have low : pkt.data.length % 2 ^ 32 ≤ pkt.data.length := Nat.mod_le _ _
  have bound := capacity.toNat_lt
  rw [perform_of_added adds] at performed
  rcases add_cases queue pkt with ⟨less, _⟩ | ⟨_, _, panics⟩ | ⟨fits, own, put, _, entries, _⟩
  · omega
  · rw [panics] at performed
    cases performed
  · rw [put] at performed
    have isOwn : own = after := congrArg Prod.snd (Option.some.inj performed)
    have grown := next.entries
    rw [← isOwn, entries, holds.entries, staged_of_added adds] at grown
    split at grown
    · omega
    · exact absurd (List.append_right_eq_self.mp grown) (List.cons_ne_nil pkt [])

/-! ## Histories -/

theorem run_concat (capacity : UInt32) (ops : List SendqueueOp) (op : SendqueueOp) :
    run capacity (ops ++ [op]) =
      (run capacity ops).bind fun queue => (queue.perform op).map (·.2) := by
  rw [run, List.foldlM_append]
  simp only [List.foldlM_cons, List.foldlM_nil, bind_pure]
  rfl

theorem foldl_staged_concat (capacity : Nat) (ops : List SendqueueOp) (op : SendqueueOp) :
    (ops ++ [op]).foldl (staged capacity) [] =
      staged capacity (ops.foldl (staged capacity) []) op := by
  rw [List.foldl_append]
  rfl

theorem holds_new (capacity : UInt32) : (new capacity).Holds capacity [] :=
  ⟨rfl, rfl, rfl, Nat.zero_le _⟩

/-- **A run** of operations that are counted as they are does not panic and holds what it
should. -/
theorem run_of_along (along : Along (staged capacity.toNat) (Countable capacity.toNat) ops []) :
    ∃ queue, run capacity ops = some queue ∧
      queue.Holds capacity (ops.foldl (staged capacity.toNat) []) := by
  induction ops using List.reverseRecOn with
  | nil => exact ⟨new capacity, rfl, holds_new capacity⟩
  | append_singleton ops op ih =>
      obtain ⟨earlier, countable⟩ := along_concat.mp along
      obtain ⟨queue, ran, holds⟩ := ih earlier
      obtain ⟨result, after, performed, next, _⟩ := holds.perform countable
      refine ⟨after, ?_, ?_⟩
      · rw [run_concat, ran, Option.bind_some, performed, Option.map_some]
      · rw [foldl_staged_concat]
        exact next

/-- The operations of an exact history are counted as they are. -/
theorem CountsExactly.along (exact : CountsExactly capacity ops) :
    Along (staged capacity.toNat) (Countable capacity.toNat) ops [] := by
  refine along_of_forall fun earlier op first => ?_
  obtain ⟨queue, ran, holds⟩ := exact.holds earlier ((List.prefix_append earlier [op]).trans first)
  obtain ⟨after, ranOn, next⟩ := exact.holds (earlier ++ [op]) first
  rw [run_concat, ran, Option.bind_some] at ranOn
  obtain ⟨⟨result, own⟩, performed, isAfter⟩ := Option.map_eq_some_iff.mp ranOn
  rw [foldl_staged_concat, ← isAfter] at next
  exact holds.countable performed next

/-- **The queue is exact** along a history exactly when each packet that it adds is counted
as it is. -/
theorem countsExactly_iff (capacity : UInt32) (ops : List SendqueueOp) :
    CountsExactly capacity ops ↔
      Along (staged capacity.toNat) (Countable capacity.toNat) ops [] := by
  constructor
  · exact CountsExactly.along
  · intro along
    constructor
    · intro reached first
      exact run_of_along (along.of_prefix first)
    · intro earlier op queue result after first ran performed
      obtain ⟨before, countable⟩ := along_concat.mp (along.of_prefix first)
      obtain ⟨own, isOwn, holds⟩ := run_of_along before
      rw [ran] at isOwn
      rw [← Option.some.inj isOwn] at holds
      obtain ⟨result', after', performed', _, answers⟩ := holds.perform countable
      rw [performed] at performed'
      obtain ⟨sameResult, sameAfter⟩ := Prod.mk.inj (Option.some.inj performed')
      rw [sameResult, sameAfter]
      exact answers

/-- A packet of `2^32` bytes is counted as none. -/
theorem hugePacket_not_counted :
    ¬ ∀ (capacity : UInt32) (ops : List SendqueueOp), CountsExactly capacity ops := by
  intro always
  obtain ⟨countable, _⟩ := (always 10 [.addRaw 0 0 (List.replicate (2 ^ 32) 0)]).along
  have length : (rawPacket 0 0 (List.replicate (2 ^ 32) 0)).data.length = 2 ^ 32 :=
    List.length_replicate
  have seen := (countable _ rfl).2
  have ten : (10 : UInt32).toNat = 10 := rfl
  rw [length, dataTotal_nil, ten] at seen
  omega

end Sendqueue

end Wnr.Pcap
