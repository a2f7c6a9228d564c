import Wnr.Pcap.Verdicts

/-! # Frames without their link header

A filter for a link type looks at a frame in one of two ways: an expression for a network
protocol compiles to the same program for every link type, and any other one sees no more
of the frame than `strip_link_header` leaves of it, on which it decides as the filter for
raw IP does (`Wnr.Pcap.filter_stripped`).
-/

namespace Wnr.Pcap

open Bytes

/-- Extract the IP payload from a frame given its datalink type: the offset, the remaining
length and the bytes after the link-layer header. -/
def stripLinkHeader (dlt : Int32) (frame : List UInt8) : Option (Nat × Nat × List UInt8) :=
  let off := linkHeaderLen dlt
  if frame.length < off then none else some (off, frame.length - off, frame.drop off)

/-- What is left of a frame, nothing where it is shorter than the header. -/
def l3 (dlt : Int32) (frame : List UInt8) : List UInt8 :=
  ((stripLinkHeader dlt frame).getD (0, 0, [])).2.2

theorem l3_eq_drop (dlt : Int32) (frame : List UInt8) :
    l3 dlt frame = frame.drop (linkHeaderLen dlt) := by
  unfold l3 stripLinkHeader
  simp only
  split
  · rename_i short
    exact (List.drop_of_length_le (Nat.le_of_lt short)).symm
  · rfl

/-- The header and what is left of a frame make up the frame. -/
theorem stripLinkHeader_eq_some_iff {dlt : Int32} {frame l3 : List UInt8} {off len : Nat} :
    stripLinkHeader dlt frame = some (off, len, l3) ↔
      off = linkHeaderLen dlt ∧ len = l3.length ∧
        ∃ header, header.length = off ∧ frame = header ++ l3 := by
  unfold stripLinkHeader
  simp only
  constructor
  · intro stripped
    split at stripped
    · cases stripped
    · rename_i long
      cases stripped
      refine ⟨rfl, List.length_drop.symm, frame.take (linkHeaderLen dlt), ?_, ?_⟩
      · exact List.length_take_of_le (Nat.not_lt.mp long)
      · exact (List.take_append_drop _ _).symm
  · intro parts
    obtain ⟨rfl, rfl, header, length, rfl⟩ := parts
    rw [if_neg, List.length_append, ← length, Nat.add_sub_cancel_left, List.drop_left]
    rw [List.length_append]
    omega

/-! ## Fields behind the header -/

theorem loadedField_drop {frame : List UInt8} (short : frame.length < 2 ^ 32) (off offset : Nat)
    {width : Nat} (wide : 0 < width) :
    loadedField (frame.drop off) offset width = loadedField frame (off + offset) width := by
  have shorter : (frame.drop off).length < 2 ^ 32 := by
    rw [List.length_drop]
    exact lt_of_le_of_lt (Nat.sub_le _ _) short
  rw [loadedField_of_short short, loadedField_of_short shorter, fieldAt_drop _ _ _ wide]

/-- The primitive stands for a protocol that an EtherType tells. -/
def Primitive.Network : Primitive → Prop
  | .proto number => number = 0x0806 ∨ number = 0x0800 ∨ number = 0x86dd
  | _ => False

namespace Primitive

variable {p : Primitive} {linktype : Int32}

/-- A primitive of the network layer is the same program for every link type. -/
theorem Network.compilePrimitive_eq (network : p.Network) (linktype linktype' : Int32) :
    compilePrimitive p linktype = compilePrimitive p linktype' := by
  cases p with
  | proto number =>
      have told : number = 0x0806 ∨ number = 0x0800 ∨ number = 0x86dd := network
      simp only [compilePrimitive, told, if_true]
  | all | port port | portRange first last | hostIpv4 ip | broadcast | multicast =>
      exact network.elim

/-- Any other primitive says of a frame what it says of the bytes behind the header. -/
theorem accepts_stripped (above : ¬ p.Network) {frame : List UInt8}
    (short : frame.length < 2 ^ 32) :
    p.Accepts linktype frame ↔ p.Accepts dltRaw (l3 linktype frame) := by
  have raw : linkHeaderLen dltRaw = 0 := rfl
  have field := fieldAt_drop frame (linkHeaderLen linktype)
  have loaded := loadedField_drop short (linkHeaderLen linktype)
  rw [l3_eq_drop]
  cases p with
  | all | port port | portRange first last => exact Iff.rfl
  | proto number =>
      have transport : ¬ (number = 0x0806 ∨ number = 0x0800 ∨ number = 0x86dd) := above
      simp only [Accepts, transport, if_false, raw, Nat.zero_add, loaded 9 Nat.one_pos]
  | hostIpv4 ip => simp only [Accepts, raw, Nat.zero_add, field 16 (by decide : 0 < 4)]
  | broadcast => simp only [Accepts, raw, Nat.zero_add, field 16 (by decide : 0 < 4)]
  | multicast => simp only [Accepts, raw, Nat.zero_add, loaded 16 Nat.one_pos]

end Primitive

/-! ## Compiled expressions -/

section Compiled

variable {expr : String} {linktype linktype' : Int32} {program program' : BpfProgram}

/-- An expression that compiles is empty or begins with a primitive. -/
theorem empty_or_reads (compiled : FilterBuilder.compile expr linktype = .ok program) :
    (tokenize expr = [] ∧ program = ⟨[ret bpfAccept]⟩) ∨ ∃ p, Reads expr p := by
  rcases FilterBuilder.compile_cases compiled with empty | ⟨p, after, insns, parsed, made, rfl⟩
  · exact .inl empty
  · obtain ⟨front, back, split, spells, _⟩ := FilterBuilder.spells_of_parsePrimitive parsed
    exact .inr ⟨p, front, back, split, spells⟩

/-- Whether an expression is accepted, and the message where it is not, does not depend on
the link type. -/
theorem compile_error_iff (expr : String) (linktype linktype' : Int32) (e : String) :
    FilterBuilder.compile expr linktype = .error e ↔
      FilterBuilder.compile expr linktype' = .error e := by
  unfold FilterBuilder.compile
  simp only
  split
  · exact iff_of_false nofun nofun
  · cases FilterBuilder.parsePrimitive ⟨tokenize expr, 0⟩ with
    | error e' => exact Iff.rfl
    | ok read =>
        obtain ⟨insns, made⟩ := FilterBuilder.compilePrimitive_ok read.1 linktype
        obtain ⟨insns', made'⟩ := FilterBuilder.compilePrimitive_ok read.1 linktype'
        simp only [made, made']
        exact iff_of_false nofun nofun

/-- The program of an expression for a network protocol. -/
theorem compile_network {p : Primitive} (reads : Reads expr p) (network : p.Network)
    (compiled : FilterBuilder.compile expr linktype = .ok program)
    (compiled' : FilterBuilder.compile expr linktype' = .ok program') : program = program' := by
  obtain ⟨insns, made, code⟩ := reads.compiled compiled
  obtain ⟨insns', made', code'⟩ := reads.compiled compiled'
  rw [network.compilePrimitive_eq linktype linktype', made'] at made
  cases made
  exact congrArg BpfProgram.mk (code.trans code'.symm)

/-- The verdict of any other expression. -/
theorem filter_above (above : ∀ p, Reads expr p → ¬ p.Network)
    (compiled : FilterBuilder.compile expr linktype = .ok program)
    (compiledRaw : FilterBuilder.compile expr dltRaw = .ok program') {frame : List UInt8}
    (short : frame.length < 2 ^ 32) :
    (ForwardProgram.ofCompiled compiled).filter frame =
      (ForwardProgram.ofCompiled compiledRaw).filter (l3 linktype frame) := by
  rcases empty_or_reads compiled with ⟨empty, rfl⟩ | ⟨p, reads⟩
  · have accepted := (ForwardProgram.ofCompiled compiled).filter_accept rfl frame
    rcases empty_or_reads compiledRaw with ⟨_, rfl⟩ | ⟨p, front, back, split, spells⟩
    · have acceptedRaw := (ForwardProgram.ofCompiled compiledRaw).filter_accept rfl
      rw [accepted, acceptedRaw]
    · rw [empty] at split
      obtain ⟨rfl, _⟩ := List.append_eq_nil_iff.mp split.symm
      cases spells
  · rw [Bool.eq_iff_iff, filter_ofCompiled_iff reads compiled,
      filter_ofCompiled_iff reads compiledRaw]
    exact Primitive.accepts_stripped (above p reads) short

end Compiled

/-- **What a filter sees.** The link type decides neither whether an expression is accepted
nor the program of one for a network protocol; any other filter decides on a frame as the
filter for raw IP does on what `strip_link_header` leaves of it. -/
theorem filter_stripped (expr : String) (linktype : Int32) :
    (∀ e, FilterBuilder.compile expr linktype = .error e ↔
        FilterBuilder.compile expr dltRaw = .error e) ∧
      ∀ (program raw : BpfProgram)
        (compiled : FilterBuilder.compile expr linktype = .ok program)
        (compiledRaw : FilterBuilder.compile expr dltRaw = .ok raw),
        ((∃ p, Reads expr p ∧ p.Network) → program = raw) ∧
          ((∀ p, Reads expr p → ¬ p.Network) → ∀ frame, frame.length < 2 ^ 32 →
            (ForwardProgram.ofCompiled compiled).filter frame =
              (ForwardProgram.ofCompiled compiledRaw).filter (l3 linktype frame)) := by
  refine ⟨compile_error_iff expr linktype dltRaw, fun program raw compiled compiledRaw => ⟨?_, ?_⟩⟩
  · intro network
    obtain ⟨p, reads, isNetwork⟩ := network
    exact compile_network reads isNetwork compiled compiledRaw
  · intro above frame short
    exact filter_above above compiled compiledRaw short

end Wnr.Pcap
