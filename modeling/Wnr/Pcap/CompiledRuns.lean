import Wnr.Pcap.CompiledFilter

/-! # Runs of compiled programs

The compiler emits loads at fixed offsets, comparisons whose jumps stay inside
the program, and returns of a verdict. Such a program never leaves its
instructions and returns a verdict on every packet, the rejecting one when a load
reaches past the packet (`Wnr.Pcap.FilterBuilder.compile_total`).
-/

namespace Wnr.Pcap

/-! ## The emitted instructions -/

/-- The comparison of the accumulator with an operand that a jump makes. -/
def compares (op : UInt8) (acc v : UInt32) : Bool :=
  if op = bpfJeq then acc = v else if op = bpfJgt then acc > v else acc ≥ v

theorem word_known : bpfW ∈ [bpfW, bpfH, bpfB] := by decide

theorem half_known : bpfH ∈ [bpfW, bpfH, bpfB] := by decide

theorem byte_known : bpfB ∈ [bpfW, bpfH, bpfB] := by decide

theorem jeq_known : bpfJeq ∈ [bpfJeq, bpfJgt, bpfJge] := by decide

theorem jgt_known : bpfJgt ∈ [bpfJeq, bpfJgt, bpfJge] := by decide

theorem jge_known : bpfJge ∈ [bpfJeq, bpfJgt, bpfJge] := by decide

/-- What the compiler emits at an index of a program. -/
inductive EmittedAt (length pc : Nat) : BpfInsn → Prop
  | load {size} (known : size ∈ [bpfW, bpfH, bpfB]) (k) (inside : pc + 1 < length) :
      EmittedAt length pc (loadInsn bpfLd size k)
  | jump {op} (known : op ∈ [bpfJeq, bpfJgt, bpfJge]) (k jt jf)
      (trueInside : pc + jt.toNat + 1 < length) (falseInside : pc + jf.toNat + 1 < length) :
      EmittedAt length pc (jmpInsn op k jt jf)
  | ret {k} (verdict : k = bpfReject ∨ k = bpfAccept) : EmittedAt length pc (ret k)

theorem opcode_loadInsn {size : UInt8} (known : size ∈ [bpfW, bpfH, bpfB]) (k : UInt32) :
    ((loadInsn bpfLd size k).code &&& 0x07).toUInt8 = bpfLd ∧
      ((loadInsn bpfLd size k).code &&& 0x18).toUInt8 = size ∧
      ((loadInsn bpfLd size k).code &&& 0xe0).toUInt8 = bpfAbs := by
  simp only [List.mem_cons, List.not_mem_nil, or_false] at known
  simp only [loadInsn]
  rcases known with rfl | rfl | rfl <;> decide

theorem opcode_jmpInsn {op : UInt8} (known : op ∈ [bpfJeq, bpfJgt, bpfJge]) (k : UInt32)
    (jt jf : UInt8) :
    ((jmpInsn op k jt jf).code &&& 0x07).toUInt8 = bpfJmp ∧
      ((jmpInsn op k jt jf).code &&& 0x70).toUInt8 = op ∧
      (jmpInsn op k jt jf).code &&& 0x08 = 0 := by
  simp only [List.mem_cons, List.not_mem_nil, or_false] at known
  simp only [jmpInsn]
  rcases known with rfl | rfl | rfl <;> decide

theorem opcode_ret (k : UInt32) :
    ((ret k).code &&& 0x07).toUInt8 = bpfRet ∧ (ret k).code &&& 0x08 = 0 := by
  simp only [ret]
  decide

section Passes

variable (vm : BpfVm) (pkt : List UInt8) (pc : Nat)

theorem runInsn_loadInsn {size : UInt8} (known : size ∈ [bpfW, bpfH, bpfB]) (k : UInt32) :
    vm.runInsn (loadInsn bpfLd size k) pkt pc =
      vm.afterLoad (load pkt (UInt32.ofNat pkt.length) k size) fun v =>
        .next ⟨{ vm with acc := v }, pc + 1⟩ := by
  obtain ⟨cls, sized, mode⟩ := opcode_loadInsn known k
  have notImm : ¬ bpfAbs = bpfImm := by decide
  have notInd : ¬ bpfAbs = bpfInd := by decide
  simp only [BpfVm.runInsn, BpfVm.runLoad, cls, sized, mode, notImm, notInd, true_or, if_true,
    if_false, BpfVm.setLoaded]
  rfl

theorem runInsn_jmpInsn {op : UInt8} (known : op ∈ [bpfJeq, bpfJgt, bpfJge]) (k : UInt32)
    (jt jf : UInt8) (near : pc + 256 < 2 ^ 32) :
    vm.runInsn (jmpInsn op k jt jf) pkt pc =
      .next ⟨vm, pc + (if compares op vm.acc k then jt else jf).toNat + 1⟩ := by
  obtain ⟨cls, operation, immediate⟩ := opcode_jmpInsn known k jt jf
  have target (offset : UInt8) :
      BpfVm.jumpTarget pc offset = some (UInt32.ofNat (pc + offset.toNat + 1)) := by
    have small := offset.toNat_lt
    rw [BpfVm.jumpTarget_eq, if_pos (by omega)]
  have exact (offset : UInt8) :
      (UInt32.ofNat (pc + offset.toNat + 1)).toNat = pc + offset.toNat + 1 := by
    have small := offset.toNat_lt
    have bound : pc + offset.toNat + 1 < 2 ^ 32 := by omega
    exact UInt32.toNat_ofNat_of_lt' bound
  have goto (taken : Prop) [Decidable taken] :
      (StepResult.next ⟨vm, (if taken then UInt32.ofNat (pc + jt.toNat + 1)
        else UInt32.ofNat (pc + jf.toNat + 1)).toNat⟩ : RunResult) =
      .next ⟨vm, pc + (if taken then jt else jf).toNat + 1⟩ := by
    split <;> rw [exact]
  have arm : vm.runInsn (jmpInsn op k jt jf) pkt pc = vm.runJump (jmpInsn op k jt jf) pc := by
    simp +decide only [BpfVm.runInsn, cls, if_true, if_false]
  have operand : (jmpInsn op k jt jf).k = k := rfl
  rw [arm]
  simp only [BpfVm.runJump, operation, immediate, target, operand]
  simp only [List.mem_cons, List.not_mem_nil, or_false] at known
  rcases known with rfl | rfl | rfl
  all_goals
    simp +decide only [compares, if_true, if_false, decide_eq_true_eq]
    exact goto _

theorem runInsn_ret (k : UInt32) : vm.runInsn (ret k) pkt pc = .halt (k, vm) := by
  obtain ⟨cls, immediate⟩ := opcode_ret k
  have operand : (ret k).k = k := rfl
  simp +decide only [BpfVm.runInsn, cls, immediate, operand, if_true, if_false]

end Passes

/-! ## Programs -/

/-- The instructions from an index of a program on are emitted ones. -/
def EmittedFrom (length : Nat) : Nat → List BpfInsn → Prop
  | _, [] => True
  | pc, ins :: rest => EmittedAt length pc ins ∧ EmittedFrom length (pc + 1) rest

theorem EmittedFrom.getElem? {length start pc : Nat} {insns : List BpfInsn} {ins : BpfInsn}
    (emitted : EmittedFrom length start insns) (here : insns[pc]? = some ins) :
    EmittedAt length (start + pc) ins := by
  induction insns generalizing start pc with
  | nil => cases here
  | cons head rest ih =>
      cases pc with
      | zero =>
          cases here
          exact emitted.1
      | succ pc =>
          have later := ih emitted.2 here
          rwa [Nat.add_right_comm] at later

/-- Where a load at a fixed offset ends. -/
def loadEnd (ins : BpfInsn) : Option Nat :=
  if ((ins.code &&& 0x07).toUInt8 = bpfLd ∨ (ins.code &&& 0x07).toUInt8 = bpfLdx) ∧
      (ins.code &&& 0xe0).toUInt8 = bpfAbs then
    some (ins.k.toNat + loadWidth (ins.code &&& 0x18).toUInt8)
  else none

/-- The instruction loads bytes that the packet does not have. -/
def LoadsPast (ins : BpfInsn) (pkt : List UInt8) : Prop :=
  ∃ last, loadEnd ins = some last ∧ pkt.length < last

/-- The places that an instruction can jump to. -/
def jumpTargets (ins : BpfInsn) (pc : Nat) : List Nat :=
  if (ins.code &&& 0x07).toUInt8 ≠ bpfJmp then []
  else if (ins.code &&& 0x70).toUInt8 = bpfJa then [ins.k.toNat]
  else [pc + ins.jt.toNat + 1, pc + ins.jf.toNat + 1]

/-- A program that gives a verdict on every packet. -/
structure Total (program : List BpfInsn) : Prop where
  /-- Jumps go forward and stay inside the program. -/
  jumps : ∀ pc ins, program[pc]? = some ins → ∀ target ∈ jumpTargets ins pc,
    pc < target ∧ target < program.length
  /-- No run leaves the program. -/
  inside : ∀ (vm : BpfVm) pkt state, vm.RunReaches program pkt state → state.pc < program.length
  /-- A run takes at most as many passes as the program has instructions. -/
  verdict : ∀ (vm : BpfVm) pkt, ∃ value after,
    vm.run program pkt program.length = .halt (value, after) ∧
      (value = 0 ∨ value = 0xffffffff) ∧ ((∃ ins ∈ program, LoadsPast ins pkt) → value = 0)

section Emitted

variable {length pc : Nat} {ins : BpfInsn}

theorem EmittedAt.jumpTargets (emitted : EmittedAt length pc ins) :
    ∀ target ∈ jumpTargets ins pc, pc < target ∧ target < length := by
  cases emitted with
  | @load size known k inside =>
      obtain ⟨cls, -, -⟩ := opcode_loadInsn known k
      rw [Pcap.jumpTargets, cls, if_pos (by decide)]
      exact List.forall_mem_nil _
  | @jump op known k jt jf trueInside falseInside =>
      obtain ⟨cls, operation, -⟩ := opcode_jmpInsn known k jt jf
      have conditional : ¬ op = bpfJa := by
        rintro rfl
        exact absurd known (by decide)
      rw [Pcap.jumpTargets, cls, if_neg (not_not.mpr rfl), operation, if_neg conditional]
      simp only [List.forall_mem_cons, List.not_mem_nil, false_implies, implies_true, and_true]
      simp only [jmpInsn]
      omega
  | @ret k verdict =>
      obtain ⟨cls, -⟩ := opcode_ret k
      rw [Pcap.jumpTargets, cls, if_pos (by decide)]
      exact List.forall_mem_nil _

/-- **One pass** over an emitted instruction moves forward inside the program or
returns a verdict. -/
theorem EmittedAt.runInsn (emitted : EmittedAt length pc ins) (short : length ≤ 256) (vm : BpfVm)
    (pkt : List UInt8) :
    (∃ after, vm.runInsn ins pkt pc = .next after ∧ pc < after.pc ∧ after.pc < length) ∨
      ∃ value, vm.runInsn ins pkt pc = .halt (value, vm) ∧
        (value = bpfReject ∨ value = bpfAccept) := by
  cases emitted with
  | @load size known k inside =>
      rw [runInsn_loadInsn vm pkt pc known k]
      cases loaded : Pcap.load pkt (UInt32.ofNat pkt.length) k size with
      | none => exact absurd loaded (load_ne_panic pkt k size)
      | some found =>
          cases found with
          | none => exact .inr ⟨0, rfl, .inl rfl⟩
          | some v => exact .inl ⟨_, rfl, Nat.lt_succ_self pc, inside⟩
  | @jump op known k jt jf trueInside falseInside =>
      rw [runInsn_jmpInsn vm pkt pc known k jt jf (by omega)]
      refine .inl ⟨_, rfl, ?_⟩
      simp only
      split <;> omega
  | @ret k verdict => exact .inr ⟨k, runInsn_ret vm pkt pc k, verdict⟩

end Emitted

section Run

variable {program : List BpfInsn} {vm : BpfVm} {pkt : List UInt8} {state : RunState}

/-- The states of a run of an emitted program stay inside it. -/
theorem EmittedFrom.inside (emitted : EmittedFrom program.length 0 program)
    (nonempty : 0 < program.length) (short : program.length ≤ 256)
    (reached : vm.RunReaches program pkt state) : state.pc < program.length := by
  refine StepMachine.Reaches.invariant reached (fun state => state.pc < program.length) nonempty ?_
  intro before after inside stepped
  have here := List.getElem?_eq_getElem inside
  have emittedHere := emitted.getElem? here
  rw [Nat.zero_add] at emittedHere
  rw [BpfVm.runStep_of_getElem? here] at stepped
  rcases emittedHere.runInsn short before.vm pkt with ⟨next, moved, -, below⟩ | ⟨value, ended, -⟩
  · rw [moved] at stepped
    cases stepped
    exact below
  · rw [ended] at stepped
    cases stepped

/-- One pass of a run of an emitted program. -/
theorem EmittedFrom.runStep (emitted : EmittedFrom program.length 0 program)
    (nonempty : 0 < program.length) (short : program.length ≤ 256)
    (reached : vm.RunReaches program pkt state) :
    (∃ after, BpfVm.runStep program pkt state = .next after ∧ state.pc < after.pc ∧
        after.pc < program.length) ∨
      ∃ value, BpfVm.runStep program pkt state = .halt (value, state.vm) ∧
        (value = bpfReject ∨ value = bpfAccept) := by
  have here := List.getElem?_eq_getElem (emitted.inside nonempty short reached)
  have emittedHere := emitted.getElem? here
  rw [Nat.zero_add] at emittedHere
  rw [BpfVm.runStep_of_getElem? here]
  exact emittedHere.runInsn short state.vm pkt

/-- **A run** of an emitted program returns a verdict. -/
theorem EmittedFrom.run (emitted : EmittedFrom program.length 0 program)
    (nonempty : 0 < program.length) (short : program.length ≤ 256) (vm : BpfVm)
    (pkt : List UInt8) :
    ∃ value after, vm.run program pkt program.length = .halt (value, after) ∧
      (value = bpfReject ∨ value = bpfAccept) := by
  have grows : ∀ state, vm.RunReaches program pkt state → ∀ after,
      BpfVm.runStep program pkt state = .next after → state.pc < after.pc := by
    intro state reached after stepped
    rcases emitted.runStep nonempty short reached with ⟨next, moved, more, -⟩ | ⟨value, ended, -⟩
    · rw [moved] at stepped
      cases stepped
      exact more
    · rw [ended] at stepped
      cases stepped
  have below : ∀ state, vm.RunReaches program pkt state → ∀ after,
      BpfVm.runStep program pkt state = .next after → state.pc < program.length - 1 := by
    intro state reached after stepped
    have later := emitted.inside nonempty short (reached.tail stepped)
    have more := grows state reached after stepped
    omega
  obtain ⟨fuel, enough⟩ : ∃ fuel, program.length = fuel + 1 := ⟨program.length - 1, by omega⟩
  cases outcome : vm.run program pkt program.length with
  | next state =>
      rw [enough] at outcome
      exact absurd outcome (StepMachine.runFor_not_next_of_rank RunState.pc grows below
        (by omega) state)
  | abort =>
      obtain ⟨state, reached, stepped⟩ := StepMachine.exists_step_of_abort outcome
      rcases emitted.runStep nonempty short reached with ⟨next, moved, -⟩ | ⟨value, ended, -⟩
      · rw [moved] at stepped
        cases stepped
      · rw [ended] at stepped
        cases stepped
  | halt result =>
      obtain ⟨state, reached, stepped⟩ := StepMachine.exists_step_of_halt outcome
      rcases emitted.runStep nonempty short reached with ⟨next, moved, -⟩ | ⟨value, ended, verdict⟩
      · rw [moved] at stepped
        cases stepped
      · rw [ended] at stepped
        cases stepped
        exact ⟨value, state.vm, rfl, verdict⟩

end Run

/-! ## Loads past the packet -/

theorem loadEnd_loadInsn {size : UInt8} (known : size ∈ [bpfW, bpfH, bpfB]) (k : UInt32) :
    loadEnd (loadInsn bpfLd size k) = some (k.toNat + loadWidth size) := by
  obtain ⟨cls, sized, mode⟩ := opcode_loadInsn known k
  rw [loadEnd, cls, sized, mode, if_pos ⟨.inl rfl, rfl⟩]
  rfl

theorem loadEnd_jmpInsn {op : UInt8} (known : op ∈ [bpfJeq, bpfJgt, bpfJge]) (k : UInt32)
    (jt jf : UInt8) : loadEnd (jmpInsn op k jt jf) = none := by
  obtain ⟨cls, -, -⟩ := opcode_jmpInsn known k jt jf
  rw [loadEnd, cls, if_neg fun load => absurd load.1 (by decide)]

theorem loadEnd_ret (k : UInt32) : loadEnd (ret k) = none := by
  obtain ⟨cls, -⟩ := opcode_ret k
  rw [loadEnd, cls, if_neg fun load => absurd load.1 (by decide)]

/-- The first instruction loads as far into the packet as any instruction does. -/
def FirstLoadFarthest (program : List BpfInsn) : Prop :=
  ∀ ins ∈ program, ∀ last, loadEnd ins = some last →
    ∃ size ∈ [bpfW, bpfH, bpfB], ∃ k rest, program = loadInsn bpfLd size k :: rest ∧
      last ≤ k.toNat + loadWidth size

/-- An emitted program whose first load goes farthest gives a verdict on every packet. -/
theorem EmittedFrom.total {program : List BpfInsn}
    (emitted : EmittedFrom program.length 0 program) (nonempty : 0 < program.length)
    (short : program.length ≤ 256) (farthest : FirstLoadFarthest program) : Total program where
  jumps := by
    intro pc ins here target member
    have emittedHere := emitted.getElem? here
    rw [Nat.zero_add] at emittedHere
    exact emittedHere.jumpTargets target member
  inside := fun _ _ _ reached => emitted.inside nonempty short reached
  verdict := by
    intro vm pkt
    obtain ⟨value, after, halted, verdict⟩ := emitted.run nonempty short vm pkt
    refine ⟨value, after, halted, verdict, ?_⟩
    rintro ⟨ins, member, last, ends, past⟩
    obtain ⟨size, known, k, rest, rfl, far⟩ := farthest ins member last ends
    have outside : load pkt (UInt32.ofNat pkt.length) k size = some none :=
      load_outside (by omega)
    have stopped : BpfVm.runStep (loadInsn bpfLd size k :: rest) pkt vm.runStart =
        .halt (0, vm.runStart.vm) := by
      have here : (loadInsn bpfLd size k :: rest)[vm.runStart.pc]? =
          some (loadInsn bpfLd size k) := rfl
      rw [BpfVm.runStep_of_getElem? here, runInsn_loadInsn _ pkt _ known k, outside]
      rfl
    have returned := StepMachine.runFor_succ_of_halt stopped rest.length
    have same := halted.symm.trans returned
    cases same
    rfl

/-! ## Compiled programs -/

theorem linkHeaderLen_le (linktype : Int32) : linkHeaderLen linktype ≤ 32 := by
  unfold linkHeaderLen
  split_ifs <;> omega

/-- An offset into the header that follows the link-layer header. -/
theorem toNat_ipHdr (linktype : Int32) {offset : UInt32} (small : offset.toNat ≤ 32) :
    (UInt32.ofNat (linkHeaderLen linktype) + offset).toNat =
      linkHeaderLen linktype + offset.toNat := by
  have le := linkHeaderLen_le linktype
  rw [UInt32.toNat_add, UInt32.toNat_ofNat']
  omega

theorem firstLoadFarthest_of_rest {size : UInt8} (known : size ∈ [bpfW, bpfH, bpfB]) {k : UInt32}
    {rest : List BpfInsn} (nearer : ∀ ins ∈ rest, ∀ last, loadEnd ins = some last →
      last ≤ k.toNat + loadWidth size) : FirstLoadFarthest (loadInsn bpfLd size k :: rest) := by
  intro ins member last ends
  refine ⟨size, known, k, rest, rfl, ?_⟩
  rcases List.mem_cons.mp member with rfl | later
  · rw [loadEnd_loadInsn known] at ends
    exact Nat.le_of_eq (Option.some.inj ends).symm
  · exact nearer ins later last ends

theorem nearer_cons_of_none {ins : BpfInsn} {rest : List BpfInsn} {bound : Nat}
    (none : loadEnd ins = none)
    (nearer : ∀ ins ∈ rest, ∀ last, loadEnd ins = some last → last ≤ bound) :
    ∀ other ∈ ins :: rest, ∀ last, loadEnd other = some last → last ≤ bound := by
  rw [List.forall_mem_cons]
  refine ⟨fun last ends => ?_, nearer⟩
  rw [none] at ends
  cases ends

/-- A load, a comparison that skips the rejecting return, and what follows the returns. -/
theorem total_test {size op : UInt8} (knownSize : size ∈ [bpfW, bpfH, bpfB])
    (knownOp : op ∈ [bpfJeq, bpfJgt, bpfJge]) (k target : UInt32) :
    Total [loadInsn bpfLd size k, jmpInsn op target 1 0, ret bpfReject, ret bpfAccept,
      ret bpfAccept] := by
  refine EmittedFrom.total ⟨.load knownSize k ?_, .jump knownOp target 1 0 ?_ ?_, .ret (.inl rfl),
    .ret (.inr rfl), .ret (.inr rfl), trivial⟩ ?_ ?_ (firstLoadFarthest_of_rest knownSize ?_)
  iterate 5 simp
  refine nearer_cons_of_none (loadEnd_jmpInsn knownOp target 1 0) ?_
  iterate 3 refine nearer_cons_of_none (loadEnd_ret _) ?_
  exact List.forall_mem_nil _

/-- Every compiled primitive gives a verdict on every packet. -/
theorem compilePrimitive_total {p : Primitive} {linktype : Int32} {insns : List BpfInsn}
    (compiled : compilePrimitive p linktype = .ok insns) : Total (insns ++ [ret bpfAccept]) := by
  have accept : Total [ret bpfAccept, ret bpfAccept] := by
    refine EmittedFrom.total ⟨.ret (.inr rfl), .ret (.inr rfl), trivial⟩ ?_ ?_ ?_
    iterate 2 decide
    intro ins member last ends
    have none : loadEnd ins = none := by
      simp only [List.mem_cons, List.not_mem_nil, or_false, or_self] at member
      rw [member, loadEnd_ret]
    rw [none] at ends
    cases ends
  cases p with
  | all | port port | portRange first last =>
      cases compiled
      exact accept
  | proto number =>
      rw [compilePrimitive] at compiled
      split at compiled
      · cases compiled
        exact total_test half_known jeq_known _ _
      · cases compiled
        exact total_test byte_known jeq_known _ _
  | broadcast =>
      cases compiled
      exact total_test word_known jeq_known _ _
  | hostIpv4 ip =>
      cases compiled
      refine EmittedFrom.total ⟨.load word_known _ ?_, .jump jeq_known _ 1 0 ?_ ?_, .ret (.inl rfl),
        .ret (.inr rfl), .load word_known _ ?_, .jump jeq_known _ 1 0 ?_ ?_, .ret (.inl rfl),
        .ret (.inr rfl), .ret (.inr rfl), trivial⟩ ?_ ?_ (firstLoadFarthest_of_rest word_known ?_)
      iterate 8 simp
      refine nearer_cons_of_none (loadEnd_jmpInsn jeq_known _ 1 0) ?_
      iterate 2 refine nearer_cons_of_none (loadEnd_ret _) ?_
      refine List.forall_mem_cons.mpr ⟨?_, ?_⟩
      · intro last ends
        rw [loadEnd_loadInsn word_known] at ends
        have source : (12 : UInt32).toNat ≤ 32 := by decide
        have destination : (16 : UInt32).toNat ≤ 32 := by decide
        rw [toNat_ipHdr linktype destination, ← Option.some.inj ends, toNat_ipHdr linktype source]
        simp only [UInt32.reduceToNat]
        omega
      · refine nearer_cons_of_none (loadEnd_jmpInsn jeq_known _ 1 0) ?_
        iterate 3 refine nearer_cons_of_none (loadEnd_ret _) ?_
        exact List.forall_mem_nil _
  | multicast =>
      cases compiled
      refine EmittedFrom.total ⟨.load byte_known _ ?_, .jump jge_known _ 0 1 ?_ ?_,
        .jump jgt_known _ 0 1 ?_ ?_, .ret (.inl rfl), .ret (.inr rfl), .ret (.inr rfl), trivial⟩
        ?_ ?_ (firstLoadFarthest_of_rest byte_known ?_)
      iterate 7 simp
      refine nearer_cons_of_none (loadEnd_jmpInsn jge_known _ 0 1) ?_
      refine nearer_cons_of_none (loadEnd_jmpInsn jgt_known _ 0 1) ?_
      iterate 3 refine nearer_cons_of_none (loadEnd_ret _) ?_
      exact List.forall_mem_nil _

/-- **Compiled programs are total.** Whatever the compiler accepts becomes a
program whose jumps go forward inside it and which returns 0 or 0xffffffff on
every packet, 0 when one of its loads reaches past the packet. -/
theorem FilterBuilder.compile_total {expr : String} {linktype : Int32} {program : BpfProgram}
    (compiled : FilterBuilder.compile expr linktype = .ok program) : Total program.insns := by
  rcases compile_cases compiled with ⟨-, rfl⟩ | ⟨p, after, insns, -, made, rfl⟩
  · refine EmittedFrom.total ⟨.ret (.inr rfl), trivial⟩ ?_ ?_ ?_
    iterate 2 decide
    intro ins member last ends
    rw [List.mem_singleton.mp member, loadEnd_ret] at ends
    cases ends
  · exact compilePrimitive_total made

/-- The program for a host is one of them. -/
theorem compile_total_host :
    ∃ program, FilterBuilder.compile "host 1.2.3.4" dltEn10mb = .ok program ∧
      Total program.insns := by
  have compiled : FilterBuilder.compile "host 1.2.3.4" dltEn10mb =
      .ok ⟨[⟨0x20, 0, 0, 30⟩, ⟨0x15, 1, 0, 0x01020304⟩, ⟨0x06, 0, 0, 0⟩, ⟨0x06, 0, 0, 0xffffffff⟩,
        ⟨0x20, 0, 0, 26⟩, ⟨0x15, 1, 0, 0x01020304⟩, ⟨0x06, 0, 0, 0⟩, ⟨0x06, 0, 0, 0xffffffff⟩,
        ⟨0x06, 0, 0, 0xffffffff⟩]⟩ := rfl
  exact ⟨_, compiled, FilterBuilder.compile_total compiled⟩

end Wnr.Pcap
