import Wnr.Pcap.BpfRefinement
import Wnr.Pcap.CompiledRuns
import Wnr.Pcap.FilterLanguage

/-! # What compiled programs decide

The verdict of a compiled program on a packet is a statement about the bytes of
the packet (`Wnr.Pcap.Primitive.Accepts`): the program of a primitive accepts
exactly the packets of which its statement holds
(`Wnr.Pcap.filter_ofCompiled_iff`).
-/

namespace Wnr.Pcap

open Bytes Text

/-! ## Loads as fields -/

/-- The field of a packet that a load reads. A single byte is compared with the
length of the packet as a 32-bit number. -/
def loadedField (pkt : List UInt8) (offset width : Nat) : Option Nat :=
  if width = 1 ∧ pkt.length % 2 ^ 32 ≤ offset then none else fieldAt pkt offset width

theorem fieldAt_of_loadedField {pkt : List UInt8} {offset width value : Nat}
    (seen : loadedField pkt offset width = some value) : fieldAt pkt offset width = some value := by
  unfold loadedField at seen
  split at seen
  · cases seen
  · exact seen

theorem loadedField_of_ne_one (pkt : List UInt8) (offset : Nat) {width : Nat} (wide : width ≠ 1) :
    loadedField pkt offset width = fieldAt pkt offset width :=
  if_neg fun single => wide single.1

/-- The length of a packet below 4 GiB fits the interpreter, so any field is loaded. -/
theorem loadedField_of_short {pkt : List UInt8} (short : pkt.length < 2 ^ 32) (offset width : Nat) :
    loadedField pkt offset width = fieldAt pkt offset width := by
  rw [loadedField, Nat.mod_eq_of_lt short]
  split
  · rename_i outside
    obtain ⟨rfl, past⟩ := outside
    rw [fieldAt, if_neg (by omega)]
  · rfl

theorem load_eq_loadedField {size : UInt8} (known : size ∈ [bpfW, bpfH, bpfB]) (pkt : List UInt8)
    (k : UInt32) :
    load pkt (UInt32.ofNat pkt.length) k size =
      some ((loadedField pkt k.toNat (loadWidth size)).map UInt32.ofNat) := by
  have classic (size : ClassicBpf.Size) :
      ClassicBpf.loadAt pkt k.toNat size = (fieldAt pkt k.toNat size.bytes).map UInt32.ofNat := by
    rw [ClassicBpf.loadAt, fieldAt, slice, Nat.add_sub_cancel_left]
    split <;> rfl
  simp only [List.mem_cons, List.not_mem_nil, or_false] at known
  rcases known with rfl | rfl | rfl
  · rw [show load pkt _ k bpfW = _ from load_eq_ite pkt k .word, classic]
    rfl
  · rw [show load pkt _ k bpfH = _ from load_eq_ite pkt k .half, classic]
    rfl
  · rw [show load pkt _ k bpfB = _ from load_eq_ite pkt k .byte, classic]
    have width : loadWidth bpfB = 1 := by decide
    rw [loadedField, width]
    simp only [true_and]
    split <;> rfl

/-! ## Runs of the program shapes -/

section Shapes

variable {pkt : List UInt8}

/-- What a program that begins with a load does first. -/
theorem runFor_loadInsn {size : UInt8} (known : size ∈ [bpfW, bpfH, bpfB]) (k : UInt32)
    (rest : List BpfInsn) (vm : BpfVm) (fuel : Nat) :
    StepMachine.runFor (BpfVm.runStep (loadInsn bpfLd size k :: rest) pkt) (fuel + 1) ⟨vm, 0⟩ =
      match loadedField pkt k.toNat (loadWidth size) with
      | none => .halt (0, vm)
      | some v => StepMachine.runFor (BpfVm.runStep (loadInsn bpfLd size k :: rest) pkt) fuel
          ⟨{ vm with acc := UInt32.ofNat v }, 1⟩ := by
  have stepped : BpfVm.runStep (loadInsn bpfLd size k :: rest) pkt ⟨vm, 0⟩ = _ :=
    (BpfVm.runStep_of_getElem? rfl).trans (runInsn_loadInsn vm pkt 0 known k)
  rw [load_eq_loadedField known] at stepped
  cases seen : loadedField pkt k.toNat (loadWidth size) with
  | none =>
      rw [seen] at stepped
      exact StepMachine.runFor_succ_of_halt stepped fuel
  | some v =>
      rw [seen] at stepped
      exact StepMachine.runFor_succ_of_next stepped fuel

theorem runFor_jmpInsn {program : List BpfInsn} {vm : BpfVm} {pc : Nat} {op : UInt8}
    (known : op ∈ [bpfJeq, bpfJgt, bpfJge]) {k : UInt32} {jt jf : UInt8}
    (here : program[pc]? = some (jmpInsn op k jt jf)) (near : pc < 256) (fuel : Nat) :
    StepMachine.runFor (BpfVm.runStep program pkt) (fuel + 1) ⟨vm, pc⟩ =
      StepMachine.runFor (BpfVm.runStep program pkt) fuel
        ⟨vm, pc + (if compares op vm.acc k then jt else jf).toNat + 1⟩ := by
  refine StepMachine.runFor_succ_of_next ?_ fuel
  exact (BpfVm.runStep_of_getElem? here).trans
    (runInsn_jmpInsn vm pkt pc known k jt jf (by omega))

theorem runFor_ret {program : List BpfInsn} {vm : BpfVm} {pc : Nat} {k : UInt32}
    (here : program[pc]? = some (ret k)) (fuel : Nat) :
    StepMachine.runFor (BpfVm.runStep program pkt) (fuel + 1) ⟨vm, pc⟩ = .halt (k, vm) := by
  refine StepMachine.runFor_succ_of_halt ?_ fuel
  exact (BpfVm.runStep_of_getElem? here).trans (runInsn_ret vm pkt pc k)

theorem loadedField_lt {size : UInt8} {offset value : Nat} (known : size ∈ [bpfW, bpfH, bpfB])
    (seen : loadedField pkt offset (loadWidth size) = some value) : value < 2 ^ 32 := by
  have bound := lt_of_fieldAt (fieldAt_of_loadedField seen)
  simp only [List.mem_cons, List.not_mem_nil, or_false] at known
  rcases known with rfl | rfl | rfl
  · exact bound
  · exact lt_trans bound (by decide)
  · exact lt_trans bound (by decide)

/-- A load that does not lie inside the packet rejects it. -/
theorem filter_of_loadedField_none {program : ForwardProgram} {size : UInt8}
    (known : size ∈ [bpfW, bpfH, bpfB]) {k : UInt32} {rest : List BpfInsn}
    (code : program.insns = loadInsn bpfLd size k :: rest)
    (outside : loadedField pkt k.toNat (loadWidth size) = none) : program.filter pkt = false := by
  have runs : BpfVm.new.Runs program.insns pkt 0 BpfVm.new := by
    refine ⟨1, ?_⟩
    rw [code]
    refine (runFor_loadInsn known k _ BpfVm.new 0).trans ?_
    rw [outside]
  rw [ForwardProgram.filter_of_runs runs]
  exact decide_eq_false fun nonzero => nonzero rfl

/-- **A test of one field.** A load, a comparison for equality and the two
returns accept exactly the packets whose field has the compared value. -/
theorem filter_test_iff {program : ForwardProgram} {size : UInt8}
    (known : size ∈ [bpfW, bpfH, bpfB]) {k target : UInt32} {rest : List BpfInsn}
    (code : program.insns = loadInsn bpfLd size k :: jmpInsn bpfJeq target 1 0 ::
      ret bpfReject :: ret bpfAccept :: rest) :
    program.filter pkt = true ↔
      loadedField pkt k.toNat (loadWidth size) = some target.toNat := by
  cases seen : loadedField pkt k.toNat (loadWidth size) with
  | none =>
      rw [filter_of_loadedField_none known code seen]
      exact iff_of_false Bool.false_ne_true nofun
  | some v =>
      have value : UInt32.ofNat v = target ↔ v = target.toNat := by
        rw [← UInt32.toNat_inj, UInt32.toNat_ofNat_of_lt' (loadedField_lt known seen)]
      rw [Option.some_inj, ← value]
      have runs : BpfVm.new.Runs program.insns pkt
          (if UInt32.ofNat v = target then bpfAccept else bpfReject)
          { BpfVm.new with acc := UInt32.ofNat v } := by
        refine ⟨3, ?_⟩
        rw [code]
        refine (runFor_loadInsn known k _ BpfVm.new 2).trans ?_
        rw [seen]
        refine (runFor_jmpInsn jeq_known rfl (by decide) 1).trans ?_
        by_cases same : UInt32.ofNat v = target
        · simp only [compares, if_true, same, decide_true]
          exact runFor_ret rfl 0
        · simp only [compares, if_true, if_false, same, decide_false, Bool.false_eq_true]
          exact runFor_ret rfl 0
      exact ForwardProgram.filter_iff_of_runs runs

/-- **A test for a range.** The program of `multicast` accepts exactly the
packets whose byte lies between the two compared values. -/
theorem filter_range_iff {program : ForwardProgram} {k : UInt32} {rest : List BpfInsn}
    (code : program.insns = loadInsn bpfLd bpfB k :: jmpInsn bpfJge 224 0 1 ::
      jmpInsn bpfJgt 239 0 1 :: ret bpfReject :: ret bpfAccept :: rest) :
    program.filter pkt = true ↔
      ∃ first, loadedField pkt k.toNat 1 = some first ∧ 224 ≤ first ∧ first ≤ 239 := by
  have width : loadWidth bpfB = 1 := by decide
  cases seen : loadedField pkt k.toNat 1 with
  | none =>
      rw [filter_of_loadedField_none byte_known code (width.symm ▸ seen)]
      exact iff_of_false Bool.false_ne_true nofun
  | some v =>
      have small : v < 2 ^ 32 := loadedField_lt byte_known (width.symm ▸ seen)
      have low : compares bpfJge (UInt32.ofNat v) 224 = decide (224 ≤ v) := by
        have atLeast : UInt32.ofNat v ≥ 224 ↔ 224 ≤ v := by
          rw [ge_iff_le, UInt32.le_iff_toNat_le, UInt32.toNat_ofNat_of_lt' small]
          rfl
        simp +decide only [compares, if_false, atLeast]
      have high : compares bpfJgt (UInt32.ofNat v) 239 = decide (239 < v) := by
        have above : UInt32.ofNat v > 239 ↔ 239 < v := by
          rw [gt_iff_lt, UInt32.lt_iff_toNat_lt, UInt32.toNat_ofNat_of_lt' small]
          rfl
        simp +decide only [compares, if_false, if_true, above]
      simp only [Option.some.injEq, exists_eq_left']
      have runs : BpfVm.new.Runs program.insns pkt
          (if 224 ≤ v ∧ v ≤ 239 then bpfAccept else bpfReject)
          { BpfVm.new with acc := UInt32.ofNat v } := by
        refine ⟨4, ?_⟩
        rw [code]
        refine (runFor_loadInsn byte_known k _ BpfVm.new 3).trans ?_
        rw [width, seen]
        refine (runFor_jmpInsn jge_known rfl (by decide) 2).trans ?_
        simp only [low]
        by_cases reaches : 224 ≤ v
        · simp only [reaches, decide_true, if_true, true_and]
          refine (runFor_jmpInsn jgt_known rfl (by decide) 1).trans ?_
          simp only [high]
          by_cases exceeds : 239 < v
          · simp only [exceeds, Nat.not_le.mpr exceeds, decide_true, if_true, if_false]
            exact runFor_ret rfl 0
          · simp only [exceeds, Nat.not_lt.mp exceeds, decide_false, Bool.false_eq_true, if_true,
              if_false]
            exact runFor_ret rfl 0
        · simp only [reaches, decide_false, Bool.false_eq_true, if_false, false_and]
          exact runFor_ret rfl 1
      exact ForwardProgram.filter_iff_of_runs runs

end Shapes

/-! ## Compiled expressions -/

/-- What the program of a primitive accepts. -/
def Primitive.Accepts (p : Primitive) (linktype : Int32) (pkt : List UInt8) : Prop :=
  let off := linkHeaderLen linktype
  match p with
  | .all | .port _ | .portRange _ _ => True
  | .proto number =>
      if number = 0x0806 ∨ number = 0x0800 ∨ number = 0x86dd then
        fieldAt pkt 12 2 = some number.toNat
      else loadedField pkt (off + 9) 1 = some number.toNat
  -- the source address is never looked at
  | .hostIpv4 ip => fieldAt pkt (off + 16) 4 = some (fromBe [ip.a, ip.b, ip.c, ip.d])
  | .broadcast => fieldAt pkt (off + 16) 4 = some 0xffffffff
  | .multicast => ∃ first, loadedField pkt (off + 16) 1 = some first ∧ 224 ≤ first ∧ first ≤ 239

/-- The expression begins with a primitive. -/
def Reads (expr : String) (p : Primitive) : Prop :=
  ∃ front back, tokenize expr = front ++ back ∧ Spells front p

theorem Reads.parsed {expr : String} {p : Primitive} (reads : Reads expr p) :
    ∃ after, FilterBuilder.parsePrimitive ⟨tokenize expr, 0⟩ = .ok (p, after) := by
  obtain ⟨front, back, split, spells⟩ := reads
  rw [split]
  exact ⟨_, FilterBuilder.parsePrimitive_of_spells spells back⟩

section Compiled

variable {expr : String} {p : Primitive} {linktype : Int32} {program : BpfProgram}

theorem Reads.compiled (reads : Reads expr p)
    (compiled : FilterBuilder.compile expr linktype = .ok program) :
    ∃ insns, compilePrimitive p linktype = .ok insns ∧ program.insns = insns ++ [ret bpfAccept] := by
  obtain ⟨after, parsed⟩ := reads.parsed
  rcases FilterBuilder.compile_cases compiled with ⟨empty, -⟩ | ⟨q, after', insns, parsed', made, rfl⟩
  · rw [empty] at parsed
    cases parsed
  · rw [parsed] at parsed'
    cases parsed'
    exact ⟨insns, made, rfl⟩

/-- **What a compiled expression accepts** is what its primitive accepts. -/
theorem filter_ofCompiled_iff (reads : Reads expr p)
    (compiled : FilterBuilder.compile expr linktype = .ok program) (pkt : List UInt8) :
    (ForwardProgram.ofCompiled compiled).filter pkt = true ↔ p.Accepts linktype pkt := by
  obtain ⟨insns, made, compiledCode⟩ := reads.compiled compiled
  have code : (ForwardProgram.ofCompiled compiled).insns = insns ++ [ret bpfAccept] := compiledCode
  have destination : (16 : UInt32).toNat ≤ 32 := by decide
  have protocol : (9 : UInt32).toNat ≤ 32 := by decide
  have fourBytes (offset : Nat) : loadedField pkt offset (loadWidth bpfW) = fieldAt pkt offset 4 :=
    loadedField_of_ne_one pkt offset (by decide)
  have twoBytes (offset : Nat) : loadedField pkt offset (loadWidth bpfH) = fieldAt pkt offset 2 :=
    loadedField_of_ne_one pkt offset (by decide)
  cases p with
  | all | port port | portRange first last =>
      cases made
      exact iff_of_true (ForwardProgram.filter_accept code pkt) trivial
  | proto number =>
      rw [compilePrimitive] at made
      rw [Primitive.Accepts]
      split at made
      · rename_i ethertype
        cases made
        rw [if_pos ethertype, ← twoBytes]
        exact filter_test_iff half_known code
      · rename_i transport
        cases made
        rw [if_neg transport]
        refine (filter_test_iff byte_known code).trans ?_
        rw [toNat_ipHdr linktype protocol]
        rfl
  | hostIpv4 ip =>
      cases made
      have bound : fromBe [ip.a, ip.b, ip.c, ip.d] < 4294967296 := by
        simpa using fromBe_lt [ip.a, ip.b, ip.c, ip.d]
      have address : (u32FromBe [ip.a, ip.b, ip.c, ip.d]).toNat =
          fromBe [ip.a, ip.b, ip.c, ip.d] := UInt32.toNat_ofNat_of_lt' bound
      refine (filter_test_iff word_known code).trans ?_
      rw [fourBytes, address, toNat_ipHdr linktype destination]
      rfl
  | broadcast =>
      cases made
      refine (filter_test_iff word_known code).trans ?_
      rw [fourBytes, toNat_ipHdr linktype destination]
      rfl
  | multicast =>
      cases made
      refine (filter_range_iff code).trans ?_
      rw [toNat_ipHdr linktype destination]
      rfl

end Compiled

end Wnr.Pcap
