import Wnr.ClassicBpf.Semantics
import Wnr.Pcap.Bpf

/-! # The interpreter against the classic instruction set -/

namespace Wnr.Pcap

open ClassicBpf (Insn Size Source AluOp Test)

/-! ## Opcodes -/

def sizeCode : Size → UInt8
  | .word => bpfW
  | .half => bpfH
  | .byte => bpfB

def aluCode : AluOp → UInt8
  | .add => bpfAdd
  | .sub => bpfSub
  | .mul => bpfMul
  | .div => bpfDiv
  | .or => bpfOr
  | .and => bpfAnd
  | .lsh => bpfLsh
  | .rsh => bpfRsh
  | .mod => bpfMod
  | .xor => bpfXor

/-- The classic instruction an instruction word stands for. -/
def BpfInsn.decode (ins : BpfInsn) : Option Insn := ClassicBpf.decode ins.code ins.jt ins.jf ins.k

namespace BpfVm

def jumpTaken (test : Test) (acc v trueTarget falseTarget : UInt32) : UInt32 :=
  match test with
  | .eq => if acc = v then trueTarget else falseTarget
  | .gt => if acc > v then trueTarget else falseTarget
  | .ge => if acc ≥ v then trueTarget else falseTarget
  | .set => if acc &&& v ≠ 0 then trueTarget else falseTarget

/-- The loop body with the opcode fields of a decoded instruction already
extracted. The offsets of `ja` and the operand of `retA` play no part in the
instruction but are read by the code. -/
def runDecoded (self : BpfVm) (insn : Insn) (ins : BpfInsn) (pkt : List UInt8) (pc : Nat) :
    RunResult :=
  let pktLen := UInt32.ofNat pkt.length
  let setAcc (v : UInt32) : RunResult := .next ⟨{ self with acc := v }, pc + 1⟩
  let setX (v : UInt32) : RunResult := .next ⟨{ self with x := v }, pc + 1⟩
  match insn with
  | .ldImm k => setAcc k
  | .ldLen => setAcc pktLen
  | .ldMem k => self.afterMem k.toNat setAcc
  | .ldAbs size k => self.afterLoad (load pkt pktLen k (sizeCode size)) setAcc
  | .ldInd size k => self.afterLoad (load pkt pktLen (self.x + k) (sizeCode size)) setAcc
  | .ldxImm k => setX k
  | .ldxLen => setX pktLen
  | .ldxMem k => self.afterMem k.toNat setX
  | .ldxMsh k =>
      self.afterLoad (load pkt pktLen k bpfB) fun v =>
        if (v &&& 0x0f) <<< 2 > pktLen then .halt (0, self) else setX ((v &&& 0x0f) <<< 2)
  | .st k => self.runStore k self.acc pc
  | .stx k => self.runStore k self.x pc
  | .alu op source k => self.runAlu (aluCode op) (source = .x) k pc
  | .neg => self.runAlu bpfNeg false ins.k pc
  | .ja k =>
      match jumpTarget pc ins.jt, jumpTarget pc ins.jf with
      | some _, some _ => .next ⟨self, k.toNat⟩
      | _, _ => .abort
  | .jump test source jt jf k =>
      match jumpTarget pc jt, jumpTarget pc jf with
      | some trueTarget, some falseTarget =>
          let v := if source = .x then self.x else k
          .next ⟨self, (jumpTaken test self.acc v trueTarget falseTarget).toNat⟩
      | _, _ => .abort
  | .retK k => .halt (k, self)
  | .retA => .halt (ins.k, self)
  | .tax => setX self.acc
  | .txa => setAcc self.x

/-- Every classic opcode goes to the arm of its class with its own fields. -/
theorem runInsn_of_decode (self : BpfVm) {ins : BpfInsn} {insn : Insn} (pkt : List UInt8)
    (pc : Nat) (decoded : ins.decode = some insn) :
    self.runInsn ins pkt pc = self.runDecoded insn ins pkt pc := by
  obtain ⟨code, jt, jf, k⟩ := ins
  simp only [BpfInsn.decode, ClassicBpf.decode] at decoded
  split at decoded
  all_goals cases decoded
  all_goals simp +decide only [runInsn, runLoad, runJump, runDecoded, sizeCode, aluCode,
    jumpTaken, setLoaded, runMisc, if_true, if_false]
  all_goals congr 2

end BpfVm

/-! ## Loads, arithmetic and jump targets -/

theorem take_drop_succ {bytes : List UInt8} {i : Nat} (inside : i < bytes.length) (count : Nat) :
    (bytes.drop i).take (count + 1) = bytes[i] :: (bytes.drop (i + 1)).take count := by
  rw [List.drop_eq_getElem_cons inside, List.take_succ_cons]

/-- A load never panics. It is the classic load, except that a single byte is
compared with the length of the packet as a 32-bit number. -/
theorem load_eq_ite (pkt : List UInt8) (idx : UInt32) (size : Size) :
    load pkt (UInt32.ofNat pkt.length) idx (sizeCode size) =
      some (if size = .byte ∧ pkt.length % 2 ^ 32 ≤ idx.toNat then none
        else ClassicBpf.loadAt pkt idx.toNat size) := by
  have pktLen : (UInt32.ofNat pkt.length).toNat = pkt.length % 2 ^ 32 := UInt32.toNat_ofNat'
  cases size with
  | word =>
      have other : ¬ (Size.word = .byte ∧ pkt.length % 2 ^ 32 ≤ idx.toNat) := fun both =>
        absurd both.1 (by decide)
      rw [if_neg other]
      by_cases inside : idx.toNat + 4 ≤ pkt.length
      · have i0 : idx.toNat < pkt.length := by omega
        have i1 : idx.toNat + 1 < pkt.length := by omega
        have i2 : idx.toNat + 2 < pkt.length := by omega
        have i3 : idx.toNat + 3 < pkt.length := by omega
        have bytes : (pkt.drop idx.toNat).take 4 = [pkt[idx.toNat], pkt[idx.toNat + 1],
            pkt[idx.toNat + 2], pkt[idx.toNat + 3]] := by
          rw [take_drop_succ i0, take_drop_succ i1, take_drop_succ i2, take_drop_succ i3,
            List.take_zero]
        simp only [load, sizeCode, ↓reduceIte, Nat.not_lt.mpr inside,
          List.getElem?_eq_getElem i0, List.getElem?_eq_getElem i1, List.getElem?_eq_getElem i2,
          List.getElem?_eq_getElem i3, ClassicBpf.loadAt, Size.bytes, inside, bytes]
        rfl
      · simp only [load, sizeCode, ↓reduceIte, Nat.not_le.mp inside, ClassicBpf.loadAt,
          Size.bytes, inside]
  | half =>
      have other : ¬ (Size.half = .byte ∧ pkt.length % 2 ^ 32 ≤ idx.toNat) := fun both =>
        absurd both.1 (by decide)
      rw [if_neg other]
      by_cases inside : idx.toNat + 2 ≤ pkt.length
      · have i0 : idx.toNat < pkt.length := by omega
        have i1 : idx.toNat + 1 < pkt.length := by omega
        have bytes : (pkt.drop idx.toNat).take 2 = [pkt[idx.toNat], pkt[idx.toNat + 1]] := by
          rw [take_drop_succ i0, take_drop_succ i1, List.take_zero]
        have not_word : ¬ bpfH = bpfW := by decide
        simp only [load, sizeCode, not_word, ↓reduceIte, Nat.not_lt.mpr inside,
          List.getElem?_eq_getElem i0, List.getElem?_eq_getElem i1, ClassicBpf.loadAt,
          Size.bytes, inside, bytes, ← Bytes.toUInt32_u16FromBe]
        rfl
      · have not_word : ¬ bpfH = bpfW := by decide
        simp only [load, sizeCode, not_word, ↓reduceIte, Nat.not_le.mp inside,
          ClassicBpf.loadAt, Size.bytes, inside]
  | byte =>
      have not_word : ¬ bpfB = bpfW := by decide
      have not_half : ¬ bpfB = bpfH := by decide
      by_cases outside : pkt.length % 2 ^ 32 ≤ idx.toNat
      · simp only [load, sizeCode, not_word, not_half, ↓reduceIte, pktLen, ge_iff_le, outside,
          true_and]
      · have i0 : idx.toNat < pkt.length := by omega
        have inside : idx.toNat + 1 ≤ pkt.length := i0
        have bytes : (pkt.drop idx.toNat).take 1 = [pkt[idx.toNat]] := by
          rw [take_drop_succ i0, List.take_zero]
        simp only [load, sizeCode, not_word, not_half, ↓reduceIte, pktLen, ge_iff_le, outside,
          and_false, List.getElem?_eq_getElem i0, ClassicBpf.loadAt, Size.bytes, inside,
          bytes, ← Bytes.toUInt32_eq_fromBe]
        rfl

/-- In a packet whose length is a 32-bit number a load is the classic load. -/
theorem load_eq_loadAt {pkt : List UInt8} (short : pkt.length < 2 ^ 32) (idx : UInt32)
    (size : Size) :
    load pkt (UInt32.ofNat pkt.length) idx (sizeCode size) =
      some (ClassicBpf.loadAt pkt idx.toNat size) := by
  rw [load_eq_ite, Nat.mod_eq_of_lt short]
  split
  · rename_i outside
    obtain ⟨rfl, past⟩ := outside
    have beyond : ¬ idx.toNat + Size.byte.bytes ≤ pkt.length :=
      Nat.not_le.mpr (Nat.lt_succ_of_le past)
    rw [ClassicBpf.loadAt, if_neg beyond]
  · rfl

/-- The code's arithmetic is the classic one, with 0 for a quotient or remainder
that does not exist. -/
theorem aluAcc_eq_apply (op : AluOp) (acc v : UInt32) :
    aluAcc (aluCode op) acc v = some ((op.apply acc v).getD 0) := by
  cases op with
  | div =>
      by_cases zero : v = 0
      · simp +decide [aluAcc, AluOp.apply, zero]
      · simp +decide [aluAcc, AluOp.apply, zero, checkedDiv]
  | mod =>
      by_cases zero : v = 0
      · simp +decide [aluAcc, AluOp.apply, zero]
      · simp +decide [aluAcc, AluOp.apply, zero, checkedRem]
  | _ => simp +decide [aluAcc, AluOp.apply, shlOrZero, shrOrZero]

theorem alu_eq_apply (self : BpfVm) (op : AluOp) (source : Source) (k : UInt32) :
    self.alu (aluCode op) (source = .x) k =
      some { self with
        acc := (op.apply self.acc (if source = .x then self.x else k)).getD 0 } := by
  simp only [BpfVm.alu, decide_eq_true_eq, aluAcc_eq_apply]
  rfl

theorem alu_neg (self : BpfVm) (k : UInt32) :
    self.alu bpfNeg false k = some { self with acc := -self.acc } := by
  simp +decide [BpfVm.alu, aluAcc]

/-! ## One pass of the loop -/

/-- The registers of the loop as the classic machine has them. -/
def RunState.classic (state : RunState) : ClassicBpf.State :=
  ⟨state.pc, state.vm.acc, state.vm.x, state.vm.mem⟩

theorem RunState.classic_injective : Function.Injective RunState.classic := by
  rintro ⟨⟨acc, x, mem⟩, pc⟩ ⟨⟨acc', x', mem'⟩, pc'⟩ same
  cases same
  rfl

/-- Where the interpreter departs from the instruction set: every unconditional
jump, a return of the accumulator when it is not the operand, a division by an
index register that is 0, an indirect load whose offset overflows back into the
packet, a header length past the end of the packet, and a conditional jump so
far into the program that its targets overflow. -/
def Departs (ins : BpfInsn) (pkt : List UInt8) (state : ClassicBpf.State) : Insn → Prop
  | .ja _ => True
  | .retA => state.a ≠ ins.k
  | .alu op source _ => (op = .div ∨ op = .mod) ∧ source = .x ∧ state.x = 0
  | .ldInd size k =>
      2 ^ 32 ≤ state.x.toNat + k.toNat ∧
        (ClassicBpf.loadAt pkt (state.x + k).toNat size).isSome
  | .ldxMsh k =>
      ∃ value, ClassicBpf.loadAt pkt k.toNat .byte = some value ∧
        pkt.length < (4 * (value &&& 0xf)).toNat
  | .jump _ _ jt jf _ => 2 ^ 32 ≤ state.pc + max jt.toNat jf.toNat + 1
  | .ldImm _ | .ldLen | .ldMem _ | .ldAbs .. | .ldxImm _ | .ldxLen | .ldxMem _ | .st _ | .stx _
  | .neg | .retK _ | .tax | .txa => False

theorem shl_two (value : UInt32) : value <<< 2 = 4 * value := by
  apply UInt32.toNat_inj.mp
  have four : 2 ^ (2 % 32) = 4 := rfl
  simp only [UInt32.toNat_shiftLeft, UInt32.toNat_mul, UInt32.reduceToNat, Nat.shiftLeft_eq, four]
  rw [Nat.mul_comm]

theorem jumpTaken_eq (test : Test) (acc v trueTarget falseTarget : UInt32) :
    BpfVm.jumpTaken test acc v trueTarget falseTarget =
      if test.holds acc v then trueTarget else falseTarget := by
  cases test <;> simp [BpfVm.jumpTaken, Test.holds]

/-- A conditional jump lands on its classic target exactly when neither target
overflows. -/
theorem runDecoded_jump_iff (self : BpfVm) (test : Test) (source : Source) (jt jf : UInt8)
    (k : UInt32) (ins : BpfInsn) (pkt : List UInt8) (pc : Nat) :
    (self.runDecoded (.jump test source jt jf k) ins pkt pc).map RunState.classic Prod.fst =
        ClassicBpf.execute pkt (.jump test source jt jf k) (RunState.classic ⟨self, pc⟩) ↔
      pc + max jt.toNat jf.toNat + 1 < 2 ^ 32 := by
  have operand : (if source = .x then self.x else k) =
      source.value k ⟨pc, self.acc, self.x, self.mem⟩ := by
    cases source <;> rfl
  simp only [BpfVm.runDecoded, BpfVm.jumpTarget_eq, ClassicBpf.execute, jumpTaken_eq, operand,
    RunState.classic, ClassicBpf.State.goto]
  have far_misses : ∀ (target : UInt32) (offset : UInt8), 2 ^ 32 ≤ pc →
      target.toNat ≠ pc + 1 + offset.toNat := by
    intro target offset far
    have bound := target.toNat_lt
    omega
  by_cases taken : test.holds self.acc (source.value k ⟨pc, self.acc, self.x, self.mem⟩) = true
  all_goals
    simp only [taken, ↓reduceIte, Bool.false_eq_true]
    by_cases first : pc % 2 ^ 32 + jt.toNat + 1 < 2 ^ 32
    · by_cases second : pc % 2 ^ 32 + jf.toNat + 1 < 2 ^ 32
      · simp only [first, second, ↓reduceIte, StepResult.map_next, RunState.classic,
          StepResult.next.injEq, ClassicBpf.State.mk.injEq, and_true]
        by_cases far : 2 ^ 32 ≤ pc
        · exact iff_of_false (far_misses _ _ far) (by omega)
        · refine iff_of_true ?_ (by omega)
          rw [UInt32.toNat_ofNat']
          omega
      · simp only [first, second, ↓reduceIte, StepResult.map_abort, reduceCtorEq, false_iff]
        omega
    · simp only [first, ↓reduceIte, StepResult.map_abort, reduceCtorEq, false_iff]
      omega

section Pass

variable (self : BpfVm) (ins : BpfInsn) {insn : Insn} {pkt : List UInt8} (pc : Nat)

theorem afterMem_of_admitted {k : UInt32} (admitted : k.toNat < 16) (onValue : UInt32 → RunResult) :
    self.afterMem k.toNat onValue = onValue (self.mem[k.toNat]) := by
  simp only [BpfVm.afterMem, ge_iff_le, Nat.not_le.mpr admitted, ↓reduceIte,
    Vector.getElem?_eq_getElem admitted]

theorem map_runStore {k : UInt32} (admitted : k.toNat < 16) (value : UInt32) :
    (self.runStore k value pc).map RunState.classic Prod.fst =
      (RunState.classic ⟨self, pc⟩).store k value := by
  simp only [BpfVm.runStore, ge_iff_le, Nat.not_le.mpr admitted, ↓reduceIte, ↓reduceDIte,
    admitted, ClassicBpf.State.store]
  rfl

/-- The header length the code computes is the classic one; only the code asks
that it stay inside the packet. -/
theorem runDecoded_msh_iff (short : pkt.length < 2 ^ 32) (k : UInt32) :
    (self.runDecoded (.ldxMsh k) ins pkt pc).map RunState.classic Prod.fst =
        ClassicBpf.execute pkt (.ldxMsh k) (RunState.classic ⟨self, pc⟩) ↔
      ¬ Departs ins pkt (RunState.classic ⟨self, pc⟩) (.ldxMsh k) := by
  have pktLen : (UInt32.ofNat pkt.length).toNat = pkt.length := UInt32.toNat_ofNat_of_lt' short
  simp only [BpfVm.runDecoded, show bpfB = sizeCode .byte from rfl, load_eq_loadAt short,
    ClassicBpf.execute, Departs, shl_two]
  cases ClassicBpf.loadAt pkt k.toNat .byte with
  | none => exact iff_of_true rfl (by simp only [reduceCtorEq, false_and, exists_false,
      not_false_eq_true])
  | some value =>
      simp only [BpfVm.afterLoad, gt_iff_lt, UInt32.lt_iff_toNat_lt, pktLen, Option.some.injEq,
        exists_eq_left']
      by_cases past : pkt.length < (4 * (value &&& 0xf)).toNat
      · simp only [past, ↓reduceIte, StepResult.map_halt, reduceCtorEq, not_true_eq_false]
      · simp only [past, ↓reduceIte, StepResult.map_next, not_false_eq_true, iff_true]
        rfl

/-- An indirect load whose offset does not overflow is the classic one; an
overflowing offset lies past every packet. -/
theorem runDecoded_ldInd_iff (short : pkt.length < 2 ^ 32) (size : Size) (k : UInt32) :
    (self.runDecoded (.ldInd size k) ins pkt pc).map RunState.classic Prod.fst =
        ClassicBpf.execute pkt (.ldInd size k) (RunState.classic ⟨self, pc⟩) ↔
      ¬ Departs ins pkt (RunState.classic ⟨self, pc⟩) (.ldInd size k) := by
  simp only [BpfVm.runDecoded, load_eq_loadAt short, ClassicBpf.execute, Departs,
    RunState.classic]
  by_cases overflow : 2 ^ 32 ≤ self.x.toNat + k.toNat
  · have outside : ClassicBpf.loadAt pkt (self.x.toNat + k.toNat) size = none := by
      simp only [ClassicBpf.loadAt, ite_eq_right_iff, reduceCtorEq, imp_false]
      omega
    simp only [outside, overflow, true_and]
    cases ClassicBpf.loadAt pkt (self.x + k).toNat size with
    | none => exact iff_of_true rfl (by simp only [Option.isSome_none, Bool.false_eq_true,
        not_false_eq_true])
    | some value =>
        simp only [BpfVm.afterLoad, StepResult.map_next, reduceCtorEq, Option.isSome_some,
          not_true_eq_false]
  · have sum : (self.x + k).toNat = self.x.toNat + k.toNat := by
      rw [UInt32.toNat_add, Nat.mod_eq_of_lt (Nat.not_le.mp overflow)]
    simp only [sum, overflow, false_and, not_false_eq_true, iff_true]
    cases ClassicBpf.loadAt pkt (self.x.toNat + k.toNat) size <;> rfl

theorem apply_eq_none_iff (op : AluOp) (a v : UInt32) :
    op.apply a v = none ↔ (op = .div ∨ op = .mod) ∧ v = 0 := by
  cases op <;> simp [AluOp.apply]

theorem admitted_alu {length : Nat} {op : AluOp} {k : UInt32}
    (admitted : (Insn.alu op .k k).Admitted length pc) (divides : op = .div ∨ op = .mod) :
    k ≠ 0 := by
  rcases divides with rfl | rfl <;> exact admitted

/-- Arithmetic is the classic one unless it divides by a zero index register. -/
theorem runDecoded_alu_iff {length : Nat} (op : AluOp) (source : Source) (k : UInt32)
    (admitted : (Insn.alu op source k).Admitted length pc) :
    (self.runDecoded (.alu op source k) ins pkt pc).map RunState.classic Prod.fst =
        ClassicBpf.execute pkt (.alu op source k) (RunState.classic ⟨self, pc⟩) ↔
      ¬ Departs ins pkt (RunState.classic ⟨self, pc⟩) (.alu op source k) := by
  have operand : source.value k (RunState.classic ⟨self, pc⟩) =
      if source = .x then self.x else k := by
    cases source <;> rfl
  simp only [BpfVm.runDecoded, BpfVm.runAlu, alu_eq_apply, ClassicBpf.execute, operand,
    Departs, StepResult.map_next]
  cases result : op.apply self.acc (if source = .x then self.x else k) with
  | some value =>
      refine iff_of_true (by simp only [RunState.classic, result]; rfl) ?_
      rintro ⟨divides, rfl, zero⟩
      have missing : op.apply self.acc self.x = none :=
        (apply_eq_none_iff op _ _).mpr ⟨divides, zero⟩
      rw [if_pos rfl, missing] at result
      cases result
  | none =>
      obtain ⟨divides, zero⟩ := (apply_eq_none_iff op _ _).mp result
      refine iff_of_false (by simp only [RunState.classic, result, reduceCtorEq,
        not_false_eq_true]) (not_not.mpr ⟨divides, ?_⟩)
      cases source with
      | x => exact ⟨rfl, zero⟩
      | k => exact absurd zero (admitted_alu pc admitted divides)

/-- An unconditional jump never lands on its classic target. -/
theorem runDecoded_ja_ne (k : UInt32) :
    (self.runDecoded (.ja k) ins pkt pc).map RunState.classic Prod.fst ≠
      ClassicBpf.execute pkt (.ja k) (RunState.classic ⟨self, pc⟩) := by
  simp only [BpfVm.runDecoded, ClassicBpf.execute]
  split
  · simp only [StepResult.map_next, RunState.classic, ClassicBpf.State.goto, ne_eq,
      StepResult.next.injEq, ClassicBpf.State.mk.injEq, and_true]
    omega
  · simp only [StepResult.map_abort, ne_eq, reduceCtorEq, not_false_eq_true]

/-- **One pass of the loop.** On an admitted instruction the interpreter does
what the instruction set says exactly when it does not depart from it. -/
theorem runInsn_agrees_iff {length : Nat} (short : pkt.length < 2 ^ 32)
    (decoded : ins.decode = some insn) (admitted : insn.Admitted length pc) :
    (self.runInsn ins pkt pc).map RunState.classic Prod.fst =
        ClassicBpf.execute pkt insn (RunState.classic ⟨self, pc⟩) ↔
      ¬ Departs ins pkt (RunState.classic ⟨self, pc⟩) insn := by
  rw [self.runInsn_of_decode pkt pc decoded]
  cases insn with
  | ldAbs size k =>
      refine iff_of_true ?_ not_false
      simp only [BpfVm.runDecoded, load_eq_loadAt short, ClassicBpf.execute]
      cases ClassicBpf.loadAt pkt k.toNat size <;> rfl
  | ldInd size k => exact runDecoded_ldInd_iff self ins pc short size k
  | ldxMsh k => exact runDecoded_msh_iff self ins pc short k
  | ldMem k | ldxMem k =>
      refine iff_of_true ?_ not_false
      have inside : k.toNat < 16 := admitted
      simp only [BpfVm.runDecoded, afterMem_of_admitted self inside, ClassicBpf.execute,
        RunState.classic, Vector.getElem?_eq_getElem inside]
      rfl
  | st k | stx k => exact iff_of_true (map_runStore self pc admitted _) not_false
  | alu op source k => exact runDecoded_alu_iff self ins pc op source k admitted
  | jump test source jt jf k =>
      rw [runDecoded_jump_iff]
      exact (Nat.not_le).symm
  | neg =>
      refine iff_of_true ?_ not_false
      simp only [BpfVm.runDecoded, BpfVm.runAlu, alu_neg]
      rfl
  | ja k => exact iff_of_false (runDecoded_ja_ne self ins pc k) (not_not.mpr trivial)
  | retA =>
      simp only [BpfVm.runDecoded, StepResult.map_halt, ClassicBpf.execute, RunState.classic,
        StepResult.halt.injEq, Departs, not_not]
      exact eq_comm
  | ldImm k | ldLen | ldxImm k | ldxLen | retK k | tax | txa => exact iff_of_true rfl not_false

end Pass

/-! ## Whole runs -/

/-- A program of classic instruction words that validation admits. -/
structure Admitted (program : List BpfInsn) (insns : List Insn) : Prop where
  decoded : program.map BpfInsn.decode = insns.map some
  valid : ClassicBpf.Valid insns

theorem Admitted.getElem? {program : List BpfInsn} {insns : List Insn}
    (admitted : Admitted program insns) (pc : Nat) :
    program[pc]?.map BpfInsn.decode = insns[pc]?.map some := by
  rw [← List.getElem?_map, ← List.getElem?_map, admitted.decoded]

/-- The classic run of the program on the packet meets no instruction at which
the interpreter departs from it. -/
def Faithful (program : List BpfInsn) (insns : List Insn) (pkt : List UInt8) : Prop :=
  ∀ state, StepMachine.Reaches (ClassicBpf.step insns pkt) .initial state →
    ∀ ins insn, program[state.pc]? = some ins → insns[state.pc]? = some insn →
      ¬ Departs ins pkt state insn

section Run

variable {program : List BpfInsn} {insns : List Insn} {pkt : List UInt8}

/-- One pass of the run of an admitted program, at a state the classic run reaches. -/
theorem runStep_agrees_iff (admitted : Admitted program insns) (short : pkt.length < 2 ^ 32)
    {state : RunState}
    (reached : StepMachine.Reaches (ClassicBpf.step insns pkt) .initial state.classic) :
    (BpfVm.runStep program pkt state).map RunState.classic Prod.fst =
        ClassicBpf.step insns pkt state.classic ↔
      ∀ ins insn, program[state.pc]? = some ins → insns[state.pc]? = some insn →
        ¬ Departs ins pkt state.classic insn := by
  have inside : state.pc < insns.length := admitted.valid.reaches_inside pkt reached
  have insn_at : insns[state.pc]? = some insns[state.pc] := List.getElem?_eq_getElem inside
  have here := admitted.getElem? state.pc
  rw [insn_at, Option.map_some, Option.map_eq_some_iff] at here
  obtain ⟨ins, at_pc, decoded⟩ := here
  have classic_at : ClassicBpf.step insns pkt state.classic =
      ClassicBpf.execute pkt insns[state.pc] state.classic := by
    simp only [ClassicBpf.step, show state.classic.pc = state.pc from rfl, insn_at]
  rw [BpfVm.runStep_of_getElem? at_pc, classic_at]
  refine (runInsn_agrees_iff state.vm ins state.pc short decoded
    (admitted.valid.admitted _ _ insn_at)).trans ⟨?_, fun faithful => faithful _ _ at_pc insn_at⟩
  intro agrees other otherInsn other_at otherInsn_at
  rw [at_pc, Option.some.injEq] at other_at
  rw [insn_at, Option.some.injEq] at otherInsn_at
  subst other_at otherInsn_at
  exact agrees

theorem faithful_iff (self : BpfVm) (admitted : Admitted program insns)
    (short : pkt.length < 2 ^ 32) :
    Faithful program insns pkt ↔
      ∀ fuel, (self.run program pkt fuel).map RunState.classic Prod.fst =
        StepMachine.runFor (ClassicBpf.step insns pkt) fuel .initial := by
  refine Iff.trans ?_ (StepMachine.runFor_map_eq_iff RunState.classic Prod.fst
    RunState.classic_injective self.runStart).symm
  constructor
  · intro faithful state reached
    exact (runStep_agrees_iff admitted short reached).mpr (faithful state.classic reached)
  · intro agrees state reached
    let loop : RunState := ⟨⟨state.a, state.x, state.mem⟩, state.pc⟩
    have reached' : StepMachine.Reaches (ClassicBpf.step insns pkt) .initial loop.classic := reached
    exact (runStep_agrees_iff admitted short reached').mp (agrees loop reached')

/-- **The interpreter against the classic one.** On an admitted program and a
packet whose length fits its type, the interpreter goes pass by pass through
the classic run exactly when that run is free of departures, and then it returns
the classic value. -/
theorem run_refines_classic_iff (self : BpfVm) (admitted : Admitted program insns)
    (short : pkt.length < 2 ^ 32) :
    (Faithful program insns pkt ↔
      ∀ fuel, (self.run program pkt fuel).map RunState.classic Prod.fst =
        StepMachine.runFor (ClassicBpf.step insns pkt) fuel .initial) ∧
    (Faithful program insns pkt →
      ∃ value vm, self.Runs program pkt value vm ∧
        StepMachine.Returns (ClassicBpf.step insns pkt) .initial value) := by
  refine ⟨faithful_iff self admitted short, fun faithful => ?_⟩
  obtain ⟨value, returned⟩ := admitted.valid.returns pkt
  have same := (faithful_iff self admitted short).mp faithful (insns.length + 1)
  obtain ⟨⟨value', vm⟩, halted, rfl⟩ :=
    StepResult.map_eq_halt _ _ (same.trans returned)
  exact ⟨value', vm, ⟨_, halted⟩, ⟨_, returned⟩⟩

end Run

/-- The EtherType test on the Ethernet frame of an IPv4 packet, which it accepts. -/
theorem run_refines_classic_iff_ethertype :
    let program : List BpfInsn :=
      [⟨0x28, 0, 0, 12⟩, ⟨0x15, 0, 1, 0x0800⟩, ⟨0x06, 0, 0, 0xffffffff⟩, ⟨0x06, 0, 0, 0⟩]
    let insns : List Insn :=
      [.ldAbs .half 12, .jump .eq .k 0 1 0x0800, .retK 0xffffffff, .retK 0]
    let frame : List UInt8 := [1, 1, 1, 1, 1, 1, 2, 2, 2, 2, 2, 2, 0x08, 0x00, 0x45, 0x00]
    StepMachine.runFor (ClassicBpf.step insns frame) 4 .initial = .halt 0xffffffff ∧
    (Faithful program insns frame ↔
      ∀ fuel, (BpfVm.new.run program frame fuel).map RunState.classic Prod.fst =
        StepMachine.runFor (ClassicBpf.step insns frame) fuel .initial) ∧
    (Faithful program insns frame →
      ∃ value vm, BpfVm.new.Runs program frame value vm ∧
        StepMachine.Returns (ClassicBpf.step insns frame) .initial value) := by
  refine ⟨rfl, run_refines_classic_iff BpfVm.new ⟨rfl, ?_, ⟨.retK 0, rfl, rfl⟩⟩ (by decide)⟩
  intro pc insn here
  rcases pc with _ | _ | _ | _ | pc
  · cases here; trivial
  · cases here; exact ⟨by decide, by decide⟩
  · cases here; trivial
  · cases here; trivial
  · cases here

/-- Skipping one instruction: the classic run returns 1, the interpreter takes
the offset for an index and returns 0. -/
theorem run_misses_jump :
    ¬ ∀ (self : BpfVm) (program : List BpfInsn) (insns : List Insn) (pkt : List UInt8),
      Admitted program insns → pkt.length < 2 ^ 32 →
        ∃ value vm, self.Runs program pkt value vm ∧
          StepMachine.Returns (ClassicBpf.step insns pkt) .initial value := by
  intro refines
  have valid : ClassicBpf.Valid [.ja 1, .retK 0, .retK 1] := by
    refine ⟨?_, ⟨.retK 1, rfl, rfl⟩⟩
    intro pc insn here
    rcases pc with _ | _ | _ | pc
    · cases here; exact (by decide : 0 + 1 + (1 : UInt32).toNat < 3)
    · cases here; trivial
    · cases here; trivial
    · cases here
  obtain ⟨value, vm, runs, returns⟩ := refines BpfVm.new
    [⟨0x05, 0, 0, 1⟩, ⟨0x06, 0, 0, 0⟩, ⟨0x06, 0, 0, 1⟩] _ [] ⟨rfl, valid⟩ (by decide)
  have zero : BpfVm.new.Runs [⟨0x05, 0, 0, 1⟩, ⟨0x06, 0, 0, 0⟩, ⟨0x06, 0, 0, 1⟩] [] 0 BpfVm.new :=
    ⟨2, by decide⟩
  have one : StepMachine.Returns (ClassicBpf.step [.ja 1, .retK 0, .retK 1] []) .initial 1 :=
    ⟨2, rfl⟩
  have value_zero := (Prod.mk.inj (runs.unique zero)).1
  have value_one := returns.unique one
  exact absurd (value_zero.symm.trans value_one) (by decide)

end Wnr.Pcap
