import Wnr.Pcap.Consumers
import Wnr.Pcap.StrippedFrames

/-! # What a filter needs of a frame

No compiled filter looks further into a frame than the link header and twenty bytes, and
one looks that far (`Wnr.Pcap.filter_front_iff`). So a capture that keeps that much of each
packet can be filtered before it is copied or after (`Wnr.Pcap.Capture.filter_copy_comm`).
-/

namespace Wnr.Pcap

open Bytes

/-! ## Fronts of frames -/

section Fronts

variable {expr : String} {linktype : Int32} {program : BpfProgram} {p : Primitive}

theorem loadedField_take {frame : List UInt8} (short : frame.length < 2 ^ 32)
    {offset width size : Nat} (inside : offset + width ≤ size) :
    loadedField (frame.take size) offset width = loadedField frame offset width := by
  have shorter : (frame.take size).length < 2 ^ 32 :=
    lt_of_le_of_lt (List.length_take_le' _ _) short
  rw [loadedField_of_short short, loadedField_of_short shorter, fieldAt_take _ inside]

/-- What a primitive says of a frame it says of a front that holds the link header and
twenty bytes. -/
theorem Primitive.accepts_front {frame : List UInt8} (short : frame.length < 2 ^ 32) {size : Nat}
    (enough : linkHeaderLen linktype + 20 ≤ size) :
    p.Accepts linktype (frame.take size) ↔ p.Accepts linktype frame := by
  have address : fieldAt (frame.take size) (linkHeaderLen linktype + 16) 4 =
      fieldAt frame (linkHeaderLen linktype + 16) 4 := fieldAt_take frame (by omega)
  cases p with
  | all | port port | portRange first last => exact Iff.rfl
  | proto number =>
      have etherType : fieldAt (frame.take size) 12 2 = fieldAt frame 12 2 :=
        fieldAt_take frame (by omega)
      have protocol : loadedField (frame.take size) (linkHeaderLen linktype + 9) 1 =
          loadedField frame (linkHeaderLen linktype + 9) 1 := loadedField_take short (by omega)
      simp only [Accepts, etherType, protocol]
  | hostIpv4 ip => simp only [Accepts, address]
  | broadcast => simp only [Accepts, address]
  | multicast =>
      have first : loadedField (frame.take size) (linkHeaderLen linktype + 16) 1 =
          loadedField frame (linkHeaderLen linktype + 16) 1 := loadedField_take short (by omega)
      simp only [Accepts, first]

theorem filter_front (compiled : FilterBuilder.compile expr linktype = .ok program)
    {frame : List UInt8} (short : frame.length < 2 ^ 32) {size : Nat}
    (enough : linkHeaderLen linktype + 20 ≤ size) :
    (ForwardProgram.ofCompiled compiled).filter (frame.take size) =
      (ForwardProgram.ofCompiled compiled).filter frame := by
  rcases empty_or_reads compiled with ⟨_, rfl⟩ | ⟨p, reads⟩
  · have accepted := (ForwardProgram.ofCompiled compiled).filter_accept rfl
    rw [accepted, accepted]
  · rw [Bool.eq_iff_iff, filter_ofCompiled_iff reads compiled,
      filter_ofCompiled_iff reads compiled]
    exact Primitive.accepts_front short enough

end Fronts

theorem reads_broadcast : Reads "broadcast" .broadcast :=
  ⟨["broadcast".toList], [], by decide, .keyword (by decide)⟩

/-- **How much of a frame a filter needs**: the link header and twenty bytes, no less. -/
theorem filter_front_iff (linktype : Int32) (size : Nat) :
    (∀ (expr : String) (program : BpfProgram)
        (compiled : FilterBuilder.compile expr linktype = .ok program) (frame : List UInt8),
        frame.length < 2 ^ 32 →
          (ForwardProgram.ofCompiled compiled).filter (frame.take size) =
            (ForwardProgram.ofCompiled compiled).filter frame) ↔
      linkHeaderLen linktype + 20 ≤ size := by
  constructor
  · intro enough
    obtain ⟨front, back, split, spells⟩ := reads_broadcast
    obtain ⟨program, compiled⟩ := (FilterBuilder.compile_eq_ok_iff "broadcast" linktype).mpr
      (.inr ⟨front, back, _, split, spells⟩)
    by_contra less
    let frame : List UInt8 := List.replicate (linkHeaderLen linktype + 20) 0xff
    have length : frame.length = linkHeaderLen linktype + 20 := List.length_replicate
    have short : frame.length < 2 ^ 32 := by
      have header := linkHeaderLen_le linktype
      rw [length]
      omega
    have same := enough "broadcast" program compiled frame short
    rw [Bool.eq_iff_iff, filter_ofCompiled_iff reads_broadcast compiled,
      filter_ofCompiled_iff reads_broadcast compiled] at same
    -- the frame goes to the broadcast address, which its front does not hold whole
    have whole : Primitive.broadcast.Accepts linktype frame := by
      have inside : linkHeaderLen linktype + 16 + 4 ≤ frame.length := length.ge
      rw [Primitive.Accepts, fieldAt_of_le inside]
      have address : slice frame (linkHeaderLen linktype + 16) (linkHeaderLen linktype + 16 + 4) =
          List.replicate 4 0xff := by
        rw [slice, List.drop_replicate, List.take_replicate]
        congr 1
        omega
      rw [address]
      rfl
    have cut : fieldAt (frame.take size) (linkHeaderLen linktype + 16) 4 = none := by
      refine fieldAt_of_lt ?_
      rw [List.length_take]
      omega
    have front : Primitive.broadcast.Accepts linktype (frame.take size) := same.mpr whole
    rw [Primitive.Accepts, cut] at front
    cases front
  · intro enough expr program compiled frame short
    exact filter_front compiled short enough

/-! ## Filters before and after a copy -/

namespace Capture

/-- A file of packets that is read under a filter yields the packets that pass it, where the
snapshot length cuts none of them short of what a filter looks at. -/
theorem exists_filtered {snaplen linktype : UInt32} {expr : String} {program : BpfProgram}
    (compiled : FilterBuilder.compile expr linktype.toInt32 = .ok program) {packets : List Packet}
    (wide : ∀ packet ∈ packets, packet.2.length < 2 ^ 32)
    (enough : linkHeaderLen linktype.toInt32 + 20 ≤ snaplen.toNat ∨
      ∀ packet ∈ packets, packet.2.length ≤ snaplen.toNat) :
    ∃ copy copyFiltered,
      openOffline (writeFile snaplen linktype (packets.map written)) = .ok copy ∧
      copy.setFilter expr = (.ok (), copyFiltered) ∧ copyFiltered.snaplen = snaplen ∧
      copyFiltered.readRest = (packets.filter fun packet =>
        (ForwardProgram.ofCompiled compiled).filter packet.2).map (recopied snaplen) := by
  obtain ⟨copy, copied, snaplen', link, unfiltered, copies⟩ :=
    exists_written snaplen linktype packets
  have compiles : FilterBuilder.compile expr copy.linktype = .ok program := by
    rw [link, compiled]
  obtain ⟨copyFiltered, setCopy⟩ := exists_setFilter compiles
  obtain ⟨program', compiled', keptCopy, _, read⟩ := readRest_setFilter unfiltered setCopy
  have sameTest := filter_ofCompiled_congr link compiled' compiled
  -- a packet passes on the copy if it passes before it
  have passes : ∀ packet ∈ packets,
      (ForwardProgram.ofCompiled compiled').filter (recopied snaplen packet).2 =
        (ForwardProgram.ofCompiled compiled).filter packet.2 := by
    intro packet member
    rw [recopied_snd, sameTest]
    rcases enough with holds | fits
    · exact filter_front compiled (wide packet member) holds
    · rw [List.take_of_length_le (fits packet member)]
  refine ⟨copy, copyFiltered, copied, setCopy, keptCopy.trans snaplen', ?_⟩
  rw [read, copies, List.filter_map]
  exact congrArg (List.map (recopied snaplen)) (List.filter_congr passes)

/-- **Filtering and copying** commute, where the snapshot length cuts no packet short of what
a filter looks at: a copy that is read under a filter yields the packets that a copy under
the filter holds, and further copies of the two are the same. -/
theorem filter_copy_comm {file : ByteStream} {opened filtered : Capture} {expr : String}
    (opens : openOffline file = .ok opened) (set : opened.setFilter expr = (.ok (), filtered))
    (counted : opened.readRest.length < 2 ^ 32)
    (enough : linkHeaderLen opened.linktype + 20 ≤ opened.snaplen.toNat ∨
      ∀ packet ∈ opened.readRest, packet.2.length ≤ opened.snaplen.toNat) :
    let linktype := opened.reader.header.linktype
    ∃ copy copyFiltered filteredCopy,
      openOffline (opened.captureToFile linktype).2.1 = .ok copy ∧
      copy.setFilter expr = (.ok (), copyFiltered) ∧
      openOffline (filtered.captureToFile linktype).2.1 = .ok filteredCopy ∧
      copyFiltered.readRest = filteredCopy.readRest ∧
      (copyFiltered.captureToFile linktype).2.1 = (filteredCopy.captureToFile linktype).2.1 := by
  intro linktype
  have fresh : opened.filter = none ∧ opened.linktype = linktype.toInt32 := by
    rw [openOffline] at opens
    split at opens
    · cases opens
    · cases opens
      exact ⟨rfl, rfl⟩
  obtain ⟨program, compiled, kept, _, read⟩ := readRest_setFilter fresh.1 set
  have few : filtered.readRest.length < 2 ^ 32 := by
    rw [read]
    exact lt_of_le_of_lt (List.length_filter_le _ _) counted
  have compiled' : FilterBuilder.compile expr linktype.toInt32 = .ok program := by
    rw [← fresh.2, compiled]
  have sameTest := filter_ofCompiled_congr fresh.2 compiled compiled'
  have wide : ∀ packet ∈ opened.readRest, packet.2.length < 2 ^ 32 := by
    intro packet member
    rw [length_of_mem_readRest member]
    exact packet.1.caplen.toNat_lt
  rw [fresh.2] at enough
  obtain ⟨copy, copyFiltered, copied, setCopy, snaplen, read'⟩ :=
    exists_filtered compiled' wide enough
  obtain ⟨filteredCopy, copied', snaplen', _, _, copies'⟩ := filtered.exists_copy linktype few
  have packets : copyFiltered.readRest = filteredCopy.readRest := by
    rw [read', copies', kept, read, sameTest]
  refine ⟨copy, copyFiltered, filteredCopy, ?_, setCopy, copied', packets, ?_⟩
  · rw [(opened.captureToFile_of_lt linktype counted).2]
    exact copied
  · refine (captureToFile_congr linktype ?_ packets ?_).2
    · rw [snaplen, snaplen', kept]
    · rw [packets, copies', List.length_map]
      exact few

/-- The filter `arp` on a file of two frames, of which the first is cut. -/
theorem filter_copy_comm_arp :
    ∃ opened filtered copy copyFiltered filteredCopy, openOffline
        (writeFile 34 1 [(1000, 500, List.replicate 12 0 ++ [8, 6] ++ List.replicate 28 0),
          (1001, 0, [1, 2])]) = .ok opened ∧
      opened.setFilter "arp" = (.ok (), filtered) ∧
      let linktype := opened.reader.header.linktype
      openOffline (opened.captureToFile linktype).2.1 = .ok copy ∧
      copy.setFilter "arp" = (.ok (), copyFiltered) ∧
      openOffline (filtered.captureToFile linktype).2.1 = .ok filteredCopy ∧
      copyFiltered.readRest = filteredCopy.readRest ∧
      (copyFiltered.captureToFile linktype).2.1 = (filteredCopy.captureToFile linktype).2.1 := by
  let frames : List (UInt32 × UInt32 × List UInt8) :=
    [(1000, 500, List.replicate 12 0 ++ [8, 6] ++ List.replicate 28 0), (1001, 0, [1, 2])]
  have admitted := SavefileWriter.admits_cutAll 34 1 frames
  obtain ⟨opened, opens, snaplen, read⟩ := openOffline_encode (.inl rfl) admitted
  have link : opened.linktype = dltEn10mb := by
    rw [openOffline, SavefileReader.openFile_encode _ none (.inl rfl)] at opens
    cases opens
    rfl
  have compiled : FilterBuilder.compile "arp" opened.linktype =
      .ok ⟨[loadInsn bpfLd bpfH 12, jmpInsn bpfJeq 0x0806 1 0, ret bpfReject, ret bpfAccept,
        ret bpfAccept]⟩ := by
    rw [link]
    rfl
  obtain ⟨filtered, set⟩ := exists_setFilter compiled
  have few : opened.readRest.length < 2 ^ 32 := by
    rw [read]
    exact lt_of_eq_of_lt (List.length_map _) (by decide)
  have enough : linkHeaderLen opened.linktype + 20 ≤ opened.snaplen.toNat := by
    rw [link, snaplen]
    decide
  obtain ⟨copy, copyFiltered, filteredCopy, settled⟩ :=
    filter_copy_comm opens set few (.inl enough)
  rw [writeFile_eq, List.append_nil]
  exact ⟨opened, filtered, copy, copyFiltered, filteredCopy, opens, set, settled⟩

end Capture

end Wnr.Pcap
