import Wnr.Pcap.FilteredCapture

/-! # The loop over a capture

`loop_` hands packets to a callback until one of four things stops it: the count, a break,
the end of the capture or an error. Its counter has 32 bits, and "no limit" is the greatest
of its values. So the loop does what it says exactly when it is given a count, or something
else stops it before or at that value (`Wnr.Pcap.Capture.loop_iff`).
-/

namespace Wnr.Pcap

/-- Return value a callback can use. -/
inductive LoopControl where
  /-- Keep processing packets. -/
  | continue_
  /-- Stop processing. -/
  | break_
deriving DecidableEq

/-- A callback with a state of its own. -/
abbrev LoopCallback (State : Type) := State → Packet → LoopControl × State

variable {State : Type} (cb : LoopCallback State)

namespace Capture

/-- The loop of `loop_`; the `none` is the overflow of the counter. -/
def loopFrom (limit : UInt32) (self : Capture) (state : State) (processed : UInt32) :
    Option (Except String UInt32) × State × Capture :=
  if processed ≥ limit then (some (.ok processed), state, self)
  else
    match returned : self.nextPacket with
    | (.ok (some packet), after) =>
        have : after.unread < self.unread := (nextPacket_spec returned).1
        match checkedAdd processed 1 with
        | none => (none, state, after)
        | some processed =>
            match cb state packet with
            | (.break_, state) => (some (.ok processed), state, after)
            | (.continue_, state) => loopFrom limit after state processed
    | (.ok none, after) => (some (.ok processed), state, after)
    | (.error e, after) => (some (.error e), state, after)
termination_by self.unread
decreasing_by exact this

/-- Process up to `count` packets. Returns the number of packets processed. -/
def loop (self : Capture) (count : Int32) (state : State) :
    Option (Except String UInt32) × State × Capture :=
  let limit := if count ≤ 0 then 0xffffffff else count.toUInt32
  loopFrom cb limit self state 0

end Capture

/-! ## What stops the loop -/

/-- The number of calls up to the first one that breaks. -/
def breakPosition : State → List Packet → Option Nat
  | _, [] => none
  | state, packet :: rest =>
      match cb state packet with
      | (.break_, _) => some 1
      | (.continue_, state) => (breakPosition state rest).map (· + 1)

/-- The callback's state after calls on the packets. -/
def called (state : State) (packets : List Packet) : State :=
  packets.foldl (fun state packet => (cb state packet).2) state

/-- The number of packets that are processed: the least of the limit, the position of the
first break and the number of packets. -/
def processedOf (limit : Option Nat) (state : State) (packets : List Packet) : Nat :=
  min (limit.getD packets.length)
    (min ((breakPosition cb state packets).getD packets.length) packets.length)

/-- What the loop returns: the number of packets, or the error of the capture where neither
the limit nor a break stops the loop before it. -/
def loopResult (limit : Option Nat) (state : State) (packets : List Packet)
    (ending : Except String Unit) : Except String Nat :=
  if (∃ most ∈ limit, most ≤ packets.length) ∨ (breakPosition cb state packets).isSome then
    .ok (processedOf cb limit state packets)
  else ending.map fun _ => processedOf cb limit state packets

section Steps

variable {cb} {state next : State} {packet : Packet}

theorem breakPosition_le {packets : List Packet} {position : Nat}
    (breaks : breakPosition cb state packets = some position) : position ≤ packets.length := by
  induction packets generalizing state position with
  | nil => cases breaks
  | cons packet rest ih =>
      rw [breakPosition] at breaks
      split at breaks
      · rw [← Option.some.inj breaks, List.length_cons]
        exact Nat.le_add_left 1 _
      · obtain ⟨later, found, isNext⟩ := Option.map_eq_some_iff.mp breaks
        rw [← isNext, List.length_cons]
        exact Nat.succ_le_succ (ih found)

/-- A break ends the loop with its packet. -/
theorem loop_of_break (breaks : cb state packet = (.break_, next)) (most : Nat)
    (rest : List Packet) (ending : Except String Unit) :
    processedOf cb (some (most + 1)) state (packet :: rest) = 1 ∧
      loopResult cb (some (most + 1)) state (packet :: rest) ending = .ok 1 := by
  have first : breakPosition cb state (packet :: rest) = some 1 := by
    rw [breakPosition, breaks]
  have one : processedOf cb (some (most + 1)) state (packet :: rest) = 1 := by
    rw [processedOf, first, Option.getD_some, Option.getD_some, List.length_cons]
    omega
  refine ⟨one, ?_⟩
  rw [loopResult, first, if_pos (.inr rfl), one]

/-- Without a break the loop goes on with one packet less. -/
theorem loop_of_continue (continues : cb state packet = (.continue_, next)) (most : Nat)
    (rest : List Packet) (ending : Except String Unit) :
    processedOf cb (some (most + 1)) state (packet :: rest) =
        processedOf cb (some most) next rest + 1 ∧
      loopResult cb (some (most + 1)) state (packet :: rest) ending =
        (loopResult cb (some most) next rest ending).map (· + 1) := by
  have later : breakPosition cb state (packet :: rest) =
      (breakPosition cb next rest).map (· + 1) := by
    rw [breakPosition, continues]
  have count : processedOf cb (some (most + 1)) state (packet :: rest) =
      processedOf cb (some most) next rest + 1 := by
    rw [processedOf, processedOf, later, List.length_cons]
    cases breakPosition cb next rest with
    | none =>
        simp only [Option.getD_some, Option.map_none, Option.getD_none]
        omega
    | some position =>
        simp only [Option.getD_some, Option.map_some]
        omega
  refine ⟨count, ?_⟩
  have same : ((∃ bound ∈ some (most + 1), bound ≤ (packet :: rest).length) ∨
        (breakPosition cb state (packet :: rest)).isSome = true) ↔
      (∃ bound ∈ some most, bound ≤ rest.length) ∨ (breakPosition cb next rest).isSome = true := by
    rw [later, Option.isSome_map, List.length_cons]
    simp only [Option.mem_some_iff, exists_eq_left', Nat.add_le_add_iff_right]
  simp only [loopResult, same, count]
  split
  · rfl
  · cases ending with
    | ok done => rfl
    | error e => rfl

/-- A limit of no packets. -/
theorem loop_of_zero (state : State) (packets : List Packet) (ending : Except String Unit) :
    processedOf cb (some 0) state packets = 0 ∧
      loopResult cb (some 0) state packets ending = .ok 0 := by
  have none : processedOf cb (some 0) state packets = 0 := Nat.zero_min _
  refine ⟨none, ?_⟩
  rw [loopResult, if_pos (.inl ⟨0, rfl, Nat.zero_le _⟩), none]

/-- No packets. -/
theorem loop_of_nil (state : State) (most : Nat) (ending : Except String Unit) :
    processedOf cb (some (most + 1)) state [] = 0 ∧
      loopResult cb (some (most + 1)) state [] ending = ending.map fun _ => 0 := by
  have none : processedOf cb (some (most + 1)) state [] = 0 := by
    rw [processedOf, List.length_nil, Nat.min_zero, Nat.min_zero]
  refine ⟨none, ?_⟩
  rw [loopResult, if_neg, none]
  intro stops
  rcases stops with ⟨bound, isBound, noMore⟩ | breaks
  · rw [← Option.some.inj isBound, List.length_nil] at noMore
    cases noMore
  · cases breaks

end Steps

namespace Capture

/-- How the capture ends after its packets. -/
def ending (self : Capture) : Except String Unit :=
  self.reader.readToEnd.2.mapError IoError.message

variable {self after : Capture} {packet : Packet}

theorem ending_of_some (returned : self.nextPacket = (.ok (some packet), after)) :
    after.ending = self.ending := by
  obtain ⟨_, listed⟩ := self.nextPacket_listing
  rw [returned] at listed
  have kept : self.listing.nextPacket.2.ending = self.listing.ending := by
    unfold Listing.nextPacket
    split <;> rfl
  have same := (congrArg Listing.ending (listed packet rfl)).trans kept
  exact congrArg (Except.mapError IoError.message) same

/-- What is returned when no packet is left says how the capture ends. -/
theorem ending_of_last (last : ∀ packet, self.nextPacket.1 ≠ .ok (some packet)) :
    self.nextPacket.1 = self.ending.map fun _ => none := by
  have listed := self.nextPacket_listing.1
  rw [listed] at last ⊢
  unfold Listing.nextPacket at last ⊢
  split
  · rename_i pkt packets dropped
    rw [dropped] at last
    exact absurd rfl (last pkt.handedOut)
  · rw [Capture.ending]
    change Listing.ended self.reader.readToEnd.2 = _
    cases self.reader.readToEnd.2 with
    | ok done => rfl
    | error e => rfl

theorem budget_of_not_ge {limit processed : UInt32} (below : ¬ processed ≥ limit) :
    ∃ most, limit.toNat - processed.toNat = most + 1 := by
  have room : processed.toNat < limit.toNat := UInt32.lt_iff_toNat_lt.mp (UInt32.not_le.mp below)
  exact ⟨limit.toNat - processed.toNat - 1, by omega⟩

/-- **The loop** with a limit: what it returns, and what the callback has seen. -/
theorem loopFrom_spec (limit : UInt32) (self : Capture) (state : State) {processed : UInt32}
    (within : processed ≤ limit) :
    (∃ result, (loopFrom cb limit self state processed).1 = some result ∧
      result.map UInt32.toNat =
        (loopResult cb (some (limit.toNat - processed.toNat)) state self.readRest self.ending).map
          (processed.toNat + ·)) ∧
    (loopFrom cb limit self state processed).2.1 = called cb state (self.readRest.take
      (processedOf cb (some (limit.toNat - processed.toNat)) state self.readRest)) := by
  fun_induction loopFrom cb limit self state processed with
  | case1 self state processed reached =>
      have none : limit.toNat - processed.toNat = 0 :=
        Nat.sub_eq_zero_of_le (UInt32.le_iff_toNat_le.mp reached)
      obtain ⟨count, result⟩ := @loop_of_zero _ cb state self.readRest self.ending
      rw [none, count, result, List.take_zero]
      exact ⟨⟨_, rfl, rfl⟩, rfl⟩
  | case2 self state processed below packet after returned shorter overflow =>
      have wide := le_of_checkedAdd_one overflow
      have bound := limit.toNat_lt
      exact absurd (UInt32.le_iff_toNat_le.mpr (by omega)) below
  | case3 self state processed below packet after returned shorter next added state' breaks =>
      obtain ⟨most, budget⟩ := budget_of_not_ge below
      obtain ⟨count, result⟩ := loop_of_break breaks most after.readRest self.ending
      rw [budget, readRest_of_some returned, count, result, List.take_succ_cons, List.take_zero]
      refine ⟨⟨_, rfl, ?_⟩, ?_⟩
      · exact congrArg Except.ok (toNat_of_checkedAdd_one added)
      · rw [called, List.foldl_cons, breaks]
        rfl
  | case4 self state processed below packet after returned shorter next added state' continues ih =>
      have room : processed.toNat < limit.toNat := UInt32.lt_iff_toNat_lt.mp (UInt32.not_le.mp below)
      have advanced := toNat_of_checkedAdd_one added
      obtain ⟨most, isMost⟩ := Nat.exists_eq_add_of_lt room
      have budget : limit.toNat - processed.toNat = most + 1 := by omega
      have less : limit.toNat - next.toNat = most := by omega
      obtain ⟨⟨result, returns, isResult⟩, seen⟩ := ih (UInt32.le_iff_toNat_le.mpr (by omega))
      rw [less, ending_of_some returned] at isResult
      rw [less] at seen
      obtain ⟨count, total⟩ := loop_of_continue continues most after.readRest self.ending
      rw [budget, readRest_of_some returned, count, total]
      refine ⟨⟨result, returns, ?_⟩, ?_⟩
      · rw [isResult, advanced]
        cases loopResult cb (some most) state' after.readRest self.ending with
        | ok value => exact congrArg Except.ok (Nat.add_right_comm _ _ _)
        | error e => rfl
      · rw [seen, List.take_succ_cons, called, called, List.foldl_cons, continues]
  | case5 self state processed below after returned =>
      obtain ⟨most, budget⟩ := budget_of_not_ge below
      have ended := self.ending_of_last fun packet => by rw [returned]; nofun
      obtain ⟨count, result⟩ := @loop_of_nil _ cb state most self.ending
      rw [budget, readRest_of_none returned, count, result]
      rw [returned] at ended
      refine ⟨⟨_, rfl, ?_⟩, rfl⟩
      cases ending : self.ending with
      | ok done => rfl
      | error e => rw [ending] at ended; cases ended
  | case6 self state processed below e after returned =>
      obtain ⟨most, budget⟩ := budget_of_not_ge below
      have ended := self.ending_of_last fun packet => by rw [returned]; nofun
      obtain ⟨count, result⟩ := @loop_of_nil _ cb state most self.ending
      rw [budget, readRest_of_error returned, count, result]
      rw [returned] at ended
      refine ⟨⟨_, rfl, ?_⟩, rfl⟩
      cases ending : self.ending with
      | ok done => rw [ending] at ended; cases ended
      | error e' =>
          rw [ending] at ended
          exact congrArg Except.error (Except.error.inj ended)

end Capture

/-! ## With and without a count -/

/-- The limit that a count stands for. -/
def limitOf (count : Int32) : Option Nat := if 0 < count then some count.toNatClampNeg else none

namespace Capture

/-- The loop returns the number of packets that it has processed, or the error of the
capture where nothing stops it before, and has called the callback on exactly these packets,
each once and in order. -/
structure LoopsAsDocumented (cb : LoopCallback State) (capture : Capture) (count : Int32)
    (state : State) : Prop where
  returned : ∃ result, (loop cb capture count state).1 = some result ∧
    result.map UInt32.toNat =
      loopResult cb (limitOf count) state capture.readRest capture.ending
  seen : (loop cb capture count state).2.1 = called cb state
    (capture.readRest.take (processedOf cb (limitOf count) state capture.readRest))

variable {cb} {self : Capture} {state : State}

/-- What a loop does whose limit is not the documented one. -/
theorem loop_spec (self : Capture) (count : Int32) (state : State) {limit : UInt32}
    (isLimit : (if count ≤ 0 then 0xffffffff else count.toUInt32) = limit) :
    (∃ result, (loop cb self count state).1 = some result ∧
      result.map UInt32.toNat =
        loopResult cb (some limit.toNat) state self.readRest self.ending) ∧
    (loop cb self count state).2.1 = called cb state
      (self.readRest.take (processedOf cb (some limit.toNat) state self.readRest)) := by
  have spec := loopFrom_spec cb limit self state UInt32.zero_le
  have zero : limit.toNat - (0 : UInt32).toNat = limit.toNat := Nat.sub_zero _
  rw [zero] at spec
  rw [loop, isLimit]
  refine ⟨?_, spec.2⟩
  obtain ⟨result, returns, isResult⟩ := spec.1
  refine ⟨result, returns, ?_⟩
  rw [isResult]
  cases loopResult cb (some limit.toNat) state self.readRest self.ending with
  | ok value => exact congrArg Except.ok (Nat.zero_add value)
  | error e => rfl

/-- A count is the limit it says. -/
theorem loopsAsDocumented_of_pos {count : Int32} (positive : 0 < count) :
    LoopsAsDocumented cb self count state := by
  have limit : limitOf count = some count.toUInt32.toNat := by
    rw [limitOf, if_pos positive, Int32.toNat_toUInt32_of_le (Int32.le_of_lt positive)]
  obtain ⟨returned, seen⟩ := loop_spec self count state (if_neg (Int32.not_le.mpr positive))
  rw [← limit] at returned seen
  exact ⟨returned, seen⟩

end Capture

/-- A limit that something else stops the loop before is none. -/
theorem loop_of_unreached {state : State} {packets : List Packet} {ending : Except String Unit}
    {most : Nat}
    (unreached : (∃ position ≤ most, breakPosition cb state packets = some position) ∨
      packets.length < most ∨ packets.length = most ∧ ending = .ok ()) :
    processedOf cb (some most) state packets = processedOf cb none state packets ∧
      loopResult cb (some most) state packets ending = loopResult cb none state packets ending := by
  have count : processedOf cb (some most) state packets = processedOf cb none state packets := by
    unfold processedOf
    rcases unreached with ⟨position, early, breaks⟩ | fewer | ⟨all, _⟩
    · rw [breaks, Option.getD_some, Option.getD_some, Option.getD_none]
      omega
    · rw [Option.getD_some, Option.getD_none]
      omega
    · rw [Option.getD_some, Option.getD_none, all]
  refine ⟨count, ?_⟩
  unfold loopResult
  rw [count]
  rcases unreached with ⟨position, early, breaks⟩ | fewer | ⟨all, clean⟩
  · rw [if_pos (.inr (breaks ▸ rfl)), if_pos (.inr (breaks ▸ rfl))]
  · have below : ¬ ∃ bound ∈ some most, bound ≤ packets.length := by
      intro reached
      obtain ⟨bound, isBound, noMore⟩ := reached
      rw [← Option.some.inj isBound] at noMore
      omega
    have never : ¬ ∃ bound ∈ (none : Option Nat), bound ≤ packets.length := by
      intro reached
      obtain ⟨bound, isBound, _⟩ := reached
      cases isBound
    simp only [below, never, false_or]
  · rw [clean]
    split <;> split <;> rfl

/-- A loop that only its limit stops does not do what it would without. -/
theorem loop_of_reached {state : State} {packets : List Packet} {ending : Except String Unit}
    {most : Nat}
    (late : ∀ position, breakPosition cb state packets = some position → most < position)
    (more : most ≤ packets.length) (unclean : packets.length = most → ending ≠ .ok ()) :
    loopResult cb (some most) state packets ending = .ok most ∧
      loopResult cb none state packets ending ≠ .ok most := by
  unfold loopResult processedOf
  rw [if_pos (.inl ⟨most, rfl, more⟩)]
  cases breaks : breakPosition cb state packets with
  | some position =>
      have after := late position breaks
      have inside := breakPosition_le breaks
      rw [if_pos (.inr rfl)]
      simp only [Option.getD_some, Option.getD_none]
      refine ⟨congrArg Except.ok (by omega), fun same => ?_⟩
      have isMost := Except.ok.inj same
      omega
  | none =>
      have unstopped : ¬ ((∃ bound ∈ (none : Option Nat), bound ≤ packets.length) ∨
          (none : Option Nat).isSome = true) := by
        intro stops
        rcases stops with ⟨bound, isBound, _⟩ | broken
        · cases isBound
        · cases broken
      rw [if_neg unstopped]
      simp only [Option.getD_some, Option.getD_none]
      refine ⟨congrArg Except.ok (by omega), fun same => ?_⟩
      cases ending with
      | error e => cases same
      | ok done =>
          have isMost : min packets.length (min packets.length packets.length) = most :=
            Except.ok.inj same
          exact unclean (by omega) rfl

namespace Capture

/-- Without a count the limit is the greatest value of the counter. -/
theorem loop_spec_of_nonpos (cb : LoopCallback State) (self : Capture) {count : Int32}
    (nonpos : ¬ 0 < count) (state : State) :
    (∃ result, (loop cb self count state).1 = some result ∧
      result.map UInt32.toNat =
        loopResult cb (some (2 ^ 32 - 1)) state self.readRest self.ending) ∧
    (loop cb self count state).2.1 = called cb state
      (self.readRest.take (processedOf cb (some (2 ^ 32 - 1)) state self.readRest)) :=
  loop_spec self count state (if_pos (Int32.not_lt.mp nonpos))

/-- A loop that only the greatest value of the counter stops does not what it says. -/
theorem not_loopsAsDocumented (cb : LoopCallback State) {self : Capture} {count : Int32}
    {state : State} (nonpos : ¬ 0 < count)
    (late : ∀ position, breakPosition cb state self.readRest = some position →
      2 ^ 32 - 1 < position)
    (more : 2 ^ 32 - 1 ≤ self.readRest.length)
    (unclean : self.readRest.length = 2 ^ 32 - 1 → self.ending ≠ .ok ()) :
    ¬ LoopsAsDocumented cb self count state := by
  intro documented
  have none : limitOf count = none := if_neg nonpos
  obtain ⟨⟨result, returns, isResult⟩, _⟩ := loop_spec_of_nonpos cb self nonpos state
  obtain ⟨stopped, unlimited⟩ := loop_of_reached cb late more unclean
  obtain ⟨result', returns', isResult'⟩ := documented.returned
  rw [returns] at returns'
  rw [← Option.some.inj returns', none, isResult, stopped] at isResult'
  exact unlimited isResult'.symm

/-- **The loop** does what it says exactly when it is given a count, or a break, the end of
the capture or an error stops it at or before the greatest value of its counter; at that
value a break or the end of the capture does. -/
theorem loop_iff (cb : LoopCallback State) (self : Capture) (count : Int32) (state : State) :
    LoopsAsDocumented cb self count state ↔
      0 < count ∨
      (∃ position ≤ 2 ^ 32 - 1, breakPosition cb state self.readRest = some position) ∨
      self.readRest.length < 2 ^ 32 - 1 ∨
      self.readRest.length = 2 ^ 32 - 1 ∧ self.ending = .ok () := by
  by_cases positive : 0 < count
  · exact iff_of_true (loopsAsDocumented_of_pos positive) (.inl positive)
  · rw [or_iff_right positive]
    constructor
    · intro documented
      by_contra reached
      simp only [not_or, not_exists, not_and, not_lt] at reached
      obtain ⟨late, more, unclean⟩ := reached
      refine not_loopsAsDocumented cb positive (fun position breaks => ?_) more unclean documented
      exact Nat.not_le.mp fun early => late position early breaks
    · intro unreached
      have none : limitOf count = none := if_neg positive
      obtain ⟨returned, seen⟩ := loop_spec_of_nonpos cb self positive state
      obtain ⟨processed, same⟩ := loop_of_unreached cb unreached
      rw [same, ← none] at returned
      rw [processed, ← none] at seen
      exact ⟨returned, seen⟩

/-- A callback that never breaks. -/
theorem breakPosition_of_continue (state : State) (packets : List Packet) :
    breakPosition (fun state _ => (.continue_, state)) state packets = none := by
  induction packets with
  | nil => rfl
  | cons packet rest ih =>
      rw [breakPosition]
      exact congrArg (Option.map (· + 1)) ih

/-- A file of `2^32` records is not read to its end. -/
theorem loop_stops_early :
    ¬ ∀ (file : ByteStream) (opened : Capture), openOffline file = .ok opened →
      ∀ (cb : LoopCallback Unit) (count : Int32), LoopsAsDocumented cb opened count () := by
  intro always
  let header := PcapFileHeader.new 65535 1
  let record : Record := ⟨0, 0, 0, [], by decide⟩
  have admitted : ∀ other ∈ List.replicate (2 ^ 32) record, header.Admits other := by
    intro other member limits
    rw [List.eq_of_mem_replicate member] at limits
    exact absurd limits.1 (by decide)
  obtain ⟨opened, opens, _, yielded⟩ := openOffline_encode (.inl rfl) admitted
  have length : opened.readRest.length = 2 ^ 32 := by
    rw [yielded, List.length_map, List.length_replicate]
  refine not_loopsAsDocumented (fun state _ => (.continue_, state)) (by decide) ?_ ?_ ?_
    (always _ opened opens (fun state _ => (.continue_, state)) 0)
  · intro position breaks
    rw [breakPosition_of_continue] at breaks
    cases breaks
  · omega
  · omega

end Capture

end Wnr.Pcap
