import Wnr.Pcap.CaptureFailures
import Wnr.Pcap.CaptureLoop

/-! # The consumers of a capture

A capture is read to its end by `read_all`, by `capture_to_file` and by `loop_`. They see
the same packets and leave the same handle behind, but only the loop reports how the
capture ends (`Wnr.Pcap.Capture.consumers_agree`). A copy is a capture again: copying it
once more changes nothing exactly when nothing was cut
(`Wnr.Pcap.Capture.copy_of_copy`).
-/

namespace Wnr.Pcap

namespace Capture

/-! ## Reading to the end -/

section Consumers

variable {State : Type} {cb : LoopCallback State}

/-- A callback that never breaks. -/
def NeverBreaks (cb : LoopCallback State) : Prop :=
  ∀ state packet, (cb state packet).1 = .continue_

theorem NeverBreaks.step (never : NeverBreaks cb) (state : State) (packet : Packet) :
    cb state packet = (.continue_, (cb state packet).2) :=
  Prod.ext (never state packet) rfl

theorem NeverBreaks.breakPosition_eq (never : NeverBreaks cb) (state : State)
    (packets : List Packet) : breakPosition cb state packets = none := by
  induction packets generalizing state with
  | nil => rfl
  | cons packet rest ih =>
      rw [breakPosition, never.step state packet]
      exact congrArg (Option.map (· + 1)) (ih _)

/-- Without a break and a limit all packets are processed. -/
theorem NeverBreaks.loopResult_eq (never : NeverBreaks cb) (state : State)
    (packets : List Packet) (ending : Except String Unit) :
    processedOf cb none state packets = packets.length ∧
      loopResult cb none state packets ending = ending.map fun _ => packets.length := by
  have all : processedOf cb none state packets = packets.length := by
    rw [processedOf, never.breakPosition_eq, Option.getD_none, Nat.min_self, Nat.min_self]
  refine ⟨all, ?_⟩
  rw [loopResult, all, if_neg]
  intro stops
  rcases stops with ⟨most, isMost, _⟩ | breaks
  · cases isMost
  · rw [never.breakPosition_eq] at breaks
    cases breaks

section Steps

variable {self after : Capture} {state : State} {limit processed : UInt32}

theorem loopFrom_of_some {packet : Packet} {next : UInt32} {state' : State}
    (below : ¬ processed ≥ limit) (returned : self.nextPacket = (.ok (some packet), after))
    (added : checkedAdd processed 1 = some next) (continues : cb state packet = (.continue_, state')) :
    loopFrom cb limit self state processed = loopFrom cb limit after state' next := by
  rw [loopFrom, if_neg below]
  split
  · rename_i packet' after' returned'
    rw [returned] at returned'
    cases returned'
    simp only [added, continues]
  · rename_i after' returned'
    rw [returned] at returned'
    cases returned'
  · rename_i e after' returned'
    rw [returned] at returned'
    cases returned'

/-- Whatever is not a packet ends the loop. -/
theorem loopFrom_of_last (below : ¬ processed ≥ limit)
    (last : ∀ packet, self.nextPacket.1 ≠ .ok (some packet)) :
    (loopFrom cb limit self state processed).2.2 = self.nextPacket.2 := by
  rw [loopFrom, if_neg below]
  split
  · rename_i packet after' returned
    exact absurd (congrArg Prod.fst returned) (last packet)
  · rename_i after' returned
    exact (congrArg Prod.snd returned).symm
  · rename_i e after' returned
    exact (congrArg Prod.snd returned).symm

end Steps

/-- A loop that nothing stops leaves the handle behind that every loop does. -/
theorem loopFrom_last (never : NeverBreaks cb) (self : Capture) (processed : UInt32) (state : State)
    (unreached : processed.toNat + self.readRest.length < 2 ^ 32 - 1) :
    (loopFrom cb 0xffffffff self state processed).2.2 = source.last self := by
  have limit : (0xffffffff : UInt32).toNat = 2 ^ 32 - 1 := rfl
  have going {processed : UInt32} (less : processed.toNat < 2 ^ 32 - 1) :
      ¬ processed ≥ 0xffffffff := by
    intro reached
    have most := UInt32.le_iff_toNat_le.mp reached
    rw [limit] at most
    omega
  induction self using source.run_induction generalizing processed state with
  | item self packet after returned ih =>
      rw [readRest_of_some returned, List.length_cons] at unreached
      have small : processed.toNat + (1 : UInt32).toNat < 2 ^ 32 := by
        rw [show (1 : UInt32).toNat = 1 from rfl]
        omega
      have further : checkedAdd processed 1 = some (processed + 1) := if_pos small
      have further' := toNat_of_checkedAdd_one further
      rw [loopFrom_of_some (going (by omega)) returned further (never.step state _),
        source.last_of_some returned]
      exact ih (processed + 1) _ (by omega)
  | ended self result after returned ended =>
      have returned' : self.nextPacket = (result, after) := returned
      rw [loopFrom_of_last (going (by omega)) (by rwa [returned']),
        Source.last_of_none returned ended, returned']

/-- **The consumers agree.** A loop without a limit whose callback never breaks sees the
packets that `read_all`'s loop returns, `capture_to_file` writes these packets, and both
leave the same handle behind. They differ in the ending alone: the loop returns the error
that a record fails with, and the copy counts what came before it. -/
theorem consumers_agree (never : NeverBreaks cb) (self : Capture) (linktype : UInt32)
    {count : Int32} (nonpos : ¬ 0 < count) (state : State)
    (counted : self.readRest.length < 2 ^ 32 - 1) :
    (self.captureToFile linktype).2.1 =
        writeFile self.snaplen linktype (self.readRest.map written) ∧
      (loop cb self count state).2.1 =
        self.readRest.foldl (fun state packet => (cb state packet).2) state ∧
      (self.captureToFile linktype).2.2 = (loop cb self count state).2.2 ∧
      (self.captureToFile linktype).1 = some (.ok (UInt32.ofNat self.readRest.length)) ∧
      (loop cb self count state).1 =
        some (self.ending.map fun _ => UInt32.ofNat self.readRest.length) := by
  have few : self.readRest.length < 2 ^ 32 := by omega
  obtain ⟨total, file⟩ := self.captureToFile_of_lt linktype few
  obtain ⟨⟨result, returns, isResult⟩, seen⟩ := loop_spec_of_nonpos cb self nonpos state
  have unreached : (∃ position ≤ 2 ^ 32 - 1, breakPosition cb state self.readRest = some position) ∨
      self.readRest.length < 2 ^ 32 - 1 ∨
        self.readRest.length = 2 ^ 32 - 1 ∧ self.ending = .ok () := .inr (.inl counted)
  obtain ⟨processed, same⟩ := loop_of_unreached cb unreached
  obtain ⟨all, unlimited⟩ := never.loopResult_eq state self.readRest self.ending
  rw [processed, all, List.take_length] at seen
  rw [same, unlimited] at isResult
  refine ⟨file, seen, ?_, total, ?_⟩
  · have zero : (0 : UInt32).toNat = 0 := rfl
    rw [loop, if_pos (Int32.not_lt.mp nonpos), loopFrom_last never self 0 state (by omega),
      captureToFile, copyToFile_of_lt self.snaplen linktype few]
  · rw [returns]
    refine congrArg some ?_
    cases result with
    | error e =>
        cases ending : self.ending with
        | ok done => rw [ending] at isResult; cases isResult
        | error e' =>
            rw [ending] at isResult
            exact congrArg Except.error (Except.error.inj isResult)
    | ok value =>
        cases ending : self.ending with
        | error e' => rw [ending] at isResult; cases isResult
        | ok done =>
            rw [ending] at isResult
            have number : value.toNat = self.readRest.length := Except.ok.inj isResult
            refine congrArg Except.ok ?_
            rw [← number, UInt32.ofNat_toNat]

/-- A loop that collects the packets of a file of two, as they are copied. -/
theorem consumers_agree_collect :
    ∃ opened, openOffline (writeFile 3 1 [(1000, 500, [1, 2, 3, 4]), (1001, 0, [1])]) =
        .ok opened ∧
      (opened.captureToFile 1).2.1 = writeFile opened.snaplen 1 (opened.readRest.map written) ∧
      (loop (fun seen packet => (.continue_, seen ++ [packet])) opened 0 []).2.1 =
        opened.readRest.foldl (fun seen packet => seen ++ [packet]) [] := by
  have admitted :=
    SavefileWriter.admits_cutAll 3 1 [(1000, 500, [1, 2, 3, 4]), (1001, 0, [1])]
  obtain ⟨opened, opens, _, read⟩ := openOffline_encode (.inl rfl) admitted
  have few : opened.readRest.length < 2 ^ 32 - 1 := by
    rw [read]
    exact lt_of_eq_of_lt (List.length_map _) (by decide)
  have never : NeverBreaks fun (seen : List Packet) packet => (.continue_, seen ++ [packet]) :=
    fun _ _ => rfl
  have unlimited : ¬ (0 : Int32) < 0 := by decide
  obtain ⟨file, seen, _⟩ := consumers_agree never opened 1 unlimited [] few
  rw [writeFile_eq, List.append_nil]
  exact ⟨opened, opens, file, seen⟩

end Consumers

/-! ## Copies of copies -/

/-- What a reader of a copy is handed for a packet. -/
def recopied (snaplen : UInt32) (packet : Packet) : Packet :=
  (Record.cut snaplen packet.1.tsSec packet.1.tsFrac packet.2).packet.handedOut

theorem recopied_snd (snaplen : UInt32) (packet : Packet) :
    (recopied snaplen packet).2 = packet.2.take snaplen.toNat := rfl

theorem recopied_len (snaplen : UInt32) (packet : Packet) :
    (recopied snaplen packet).1.len = UInt32.ofNat packet.2.length := rfl

/-- What is written of a copied packet is what fits the snapshot length. -/
theorem written_recopied (snaplen : UInt32) (packet : Packet) :
    written (recopied snaplen packet) =
      (packet.1.tsSec, packet.1.tsFrac, packet.2.take snaplen.toNat) := rfl

/-- A packet is copied as its copy is, exactly when it is not cut. -/
theorem recopied_twice_iff (snaplen : UInt32) {packet : Packet}
    (wide : packet.2.length < 2 ^ 32) :
    recopied snaplen (recopied snaplen packet) = recopied snaplen packet ↔
      packet.2.length ≤ snaplen.toNat := by
  constructor
  · intro same
    have lengths := congrArg (fun copy : Packet => copy.1.len.toNat) same
    simp only [recopied_len, recopied_snd] at lengths
    have short : (packet.2.take snaplen.toNat).length < 2 ^ 32 :=
      lt_of_le_of_lt (List.length_take_le' _ _) wide
    rw [UInt32.toNat_ofNat_of_lt' short, UInt32.toNat_ofNat_of_lt' wide] at lengths
    rw [← lengths]
    exact List.length_take_le _ _
  · intro fits
    have whole : (recopied snaplen packet).2 = packet.2 := List.take_of_length_le fits
    have times : (recopied snaplen packet).1.tsSec = packet.1.tsSec ∧
        (recopied snaplen packet).1.tsFrac = packet.1.tsFrac := ⟨rfl, rfl⟩
    rw [recopied, whole, times.1, times.2]
    rfl

/-- A file of packets is opened as a capture of them, each as it is copied. -/
theorem exists_written (snaplen linktype : UInt32) (packets : List Packet) :
    ∃ copy, openOffline (writeFile snaplen linktype (packets.map written)) = .ok copy ∧
      copy.snaplen = snaplen ∧ copy.linktype = linktype.toInt32 ∧ copy.filter = none ∧
      copy.readRest = packets.map (recopied snaplen) := by
  have admitted := SavefileWriter.admits_cutAll snaplen linktype (packets.map written)
  rw [openOffline, openFile_writeFile]
  refine ⟨_, rfl, rfl, rfl, rfl, ?_⟩
  rw [readRest_encode rfl rfl admitted, SavefileWriter.cutAll, List.map_map, List.map_map]
  rfl

/-- **A copy is a capture** of the copied packets. -/
theorem exists_copy (self : Capture) (linktype : UInt32)
    (counted : self.readRest.length < 2 ^ 32) :
    ∃ copy, openOffline (self.captureToFile linktype).2.1 = .ok copy ∧
      copy.snaplen = self.snaplen ∧ copy.linktype = linktype.toInt32 ∧ copy.filter = none ∧
      copy.readRest = self.readRest.map (recopied self.snaplen) := by
  rw [(self.captureToFile_of_lt linktype counted).2]
  exact exists_written self.snaplen linktype self.readRest

/-- Two captures of the same snapshot length and packets are copied alike. -/
theorem captureToFile_congr {first second : Capture} (linktype : UInt32)
    (snaplen : first.snaplen = second.snaplen) (packets : first.readRest = second.readRest)
    (counted : first.readRest.length < 2 ^ 32) :
    (first.captureToFile linktype).1 = (second.captureToFile linktype).1 ∧
      (first.captureToFile linktype).2.1 = (second.captureToFile linktype).2.1 := by
  obtain ⟨total, file⟩ := first.captureToFile_of_lt linktype counted
  obtain ⟨total', file'⟩ := second.captureToFile_of_lt linktype (packets ▸ counted)
  rw [total, file, total', file', snaplen, packets]
  exact ⟨rfl, rfl⟩

/-- **Copying a copy.** The copy of a copy is the copy, byte by byte, exactly when no
packet is longer than the snapshot length; the copy after that is it in any case. -/
theorem copy_of_copy (self : Capture) (linktype : UInt32)
    (counted : self.readRest.length < 2 ^ 32) :
    ∃ first second, openOffline (self.captureToFile linktype).2.1 = .ok first ∧
      openOffline (first.captureToFile linktype).2.1 = .ok second ∧
      ((first.captureToFile linktype).2.1 = (self.captureToFile linktype).2.1 ↔
        ∀ packet ∈ self.readRest, packet.2.length ≤ self.snaplen.toNat) ∧
      (second.captureToFile linktype).2.1 = (first.captureToFile linktype).2.1 := by
  obtain ⟨first, opens, snaplen, _, _, read⟩ := self.exists_copy linktype counted
  have counted' : first.readRest.length < 2 ^ 32 := by rwa [read, List.length_map]
  obtain ⟨second, opens', snaplen', _, _, read'⟩ := first.exists_copy linktype counted'
  have counted'' : second.readRest.length < 2 ^ 32 := by rwa [read', List.length_map]
  have wide : ∀ packet ∈ self.readRest, packet.2.length < 2 ^ 32 := by
    intro packet member
    rw [length_of_mem_readRest member]
    exact packet.1.caplen.toNat_lt
  refine ⟨first, second, opens, opens', ⟨fun same packet member => ?_, fun fits => ?_⟩, ?_⟩
  · rw [same, opens] at opens'
    obtain rfl := Except.ok.inj opens'
    rw [snaplen, read, List.map_map] at read'
    have pointwise := List.map_inj_left.mp read' packet member
    exact (recopied_twice_iff self.snaplen (wide packet member)).mp pointwise.symm
  · have same : ∀ packet ∈ self.readRest,
        written (recopied self.snaplen packet) = written packet := by
      intro packet member
      rw [written_recopied, List.take_of_length_le (fits packet member), written]
    rw [(first.captureToFile_of_lt linktype counted').2, snaplen, read, List.map_map,
      (self.captureToFile_of_lt linktype counted).2]
    exact congrArg (writeFile self.snaplen linktype) (List.map_congr_left same)
  · have same : ∀ packet ∈ self.readRest,
        written (recopied self.snaplen (recopied self.snaplen packet)) =
          written (recopied self.snaplen packet) := by
      intro packet _
      rw [written_recopied, recopied_snd, List.take_take, Nat.min_self, written_recopied]
      rfl
    rw [(second.captureToFile_of_lt linktype counted'').2,
      (first.captureToFile_of_lt linktype counted').2, snaplen', snaplen, read', snaplen, read,
      List.map_map, List.map_map, List.map_map]
    exact congrArg (writeFile self.snaplen linktype) (List.map_congr_left same)

/-- A file of snapshot length 3 with two records, of which the second is of four bytes: it is
cut by the copy, and the second copy differs from the first. -/
theorem copy_of_copy_cut :
    let records := SavefileWriter.cutAll 65535 [(1000, 500, [1, 2, 3]), (1001, 0, [1, 2, 3, 4])]
    ∃ opened first second, openOffline ⟨(PcapFileHeader.new 3 1).encode ++
        records.flatMap (Record.encode (PcapFileHeader.new 3 1).order), none⟩ = .ok opened ∧
      openOffline (opened.captureToFile 1).2.1 = .ok first ∧
      openOffline (first.captureToFile 1).2.1 = .ok second ∧
      ((first.captureToFile 1).2.1 = (opened.captureToFile 1).2.1 ↔
        ∀ packet ∈ opened.readRest, packet.2.length ≤ opened.snaplen.toNat) ∧
      (second.captureToFile 1).2.1 = (first.captureToFile 1).2.1 ∧
      (first.captureToFile 1).2.1 ≠ (opened.captureToFile 1).2.1 := by
  intro records
  have admitted : ∀ record ∈ records, (PcapFileHeader.new 3 1).Admits record := by decide
  obtain ⟨opened, opens, snaplen, read⟩ := openOffline_encode (.inl rfl) admitted
  have few : opened.readRest.length < 2 ^ 32 := by
    rw [read]
    exact lt_of_eq_of_lt (List.length_map _) (by decide)
  have long : ¬ ∀ packet ∈ opened.readRest, packet.2.length ≤ opened.snaplen.toNat := by
    rw [read, snaplen]
    decide
  obtain ⟨first, second, copied, copied', exact', again⟩ := copy_of_copy opened 1 few
  exact ⟨opened, first, second, opens, copied, copied', exact', again,
    fun same => long (exact'.mp same)⟩

/-! ## Filtered captures -/

/-- What is read under a filter. -/
theorem readRest_setFilter {self filtered : Capture} {expr : String}
    (unfiltered : self.filter = none) (set : self.setFilter expr = (.ok (), filtered)) :
    ∃ (program : BpfProgram)
      (compiled : FilterBuilder.compile expr self.linktype = .ok program),
      filtered.snaplen = self.snaplen ∧ filtered.linktype = self.linktype ∧
        filtered.readRest = self.readRest.filter fun packet =>
          (ForwardProgram.ofCompiled compiled).filter packet.2 := by
  unfold setFilter at set
  split at set
  · cases set
  · rename_i program compiled
    refine ⟨program, compiled, ?_⟩
    cases set
    refine ⟨rfl, rfl, ?_⟩
    have all : self.listing.kept = self.reader.readToEnd.1 := by
      refine List.filter_eq_self.mpr fun pkt _ => ?_
      simp only [listing, keeps, unfiltered]
    rw [readRest_eq, readRest_eq, all, List.filter_map]
    rfl

/-- The test that an expression stands for depends on the link type alone. -/
theorem filter_ofCompiled_congr {expr : String} {linktype linktype' : Int32}
    {program program' : BpfProgram} (same : linktype = linktype')
    (compiled : FilterBuilder.compile expr linktype = .ok program)
    (compiled' : FilterBuilder.compile expr linktype' = .ok program') :
    (ForwardProgram.ofCompiled compiled).filter = (ForwardProgram.ofCompiled compiled').filter := by
  subst same
  cases compiled.symm.trans compiled'
  rfl

/-- A filter that does not compile is refused with the message of the compiler. -/
theorem setFilter_of_error {self : Capture} {expr e : String}
    (failed : FilterBuilder.compile expr self.linktype = .error e) :
    (self.setFilter expr).1 = .error e := by
  unfold setFilter
  split
  · rename_i e' failed'
    rw [failed] at failed'
    cases failed'
    rfl
  · rename_i program compiled
    rw [failed] at compiled
    cases compiled

/-- A filter that is accepted on one capture is accepted on any of the same link type. -/
theorem exists_setFilter {self : Capture} {expr : String} {program : BpfProgram}
    (compiled : FilterBuilder.compile expr self.linktype = .ok program) :
    ∃ filtered, self.setFilter expr = (.ok (), filtered) := by
  unfold setFilter
  split
  · rename_i e failed
    rw [compiled] at failed
    cases failed
  · exact ⟨_, rfl⟩

end Capture

end Wnr.Pcap
