import Wnr.Foundation.Bytes
import Wnr.Foundation.StepMachine

/-! # The classic BPF instruction set

Instructions after decoding, the machine that interprets them against a packet,
and the programs that validation admits. Jump operands are relative to the
following instruction. A load outside the packet and a division by zero end the
run with 0; anything validation excludes (a scratch index past 15, running off
the end) aborts. A valid program returns a value on every packet
(`ClassicBpf.Valid.returns`).
-/

namespace ClassicBpf

/-- The width of a packet load. -/
inductive Size where
  | word | half | byte
deriving DecidableEq, Repr

def Size.bytes : Size → Nat
  | .word => 4
  | .half => 2
  | .byte => 1

/-- The second operand of an arithmetic instruction or a test. -/
inductive Source where
  | k | x
deriving DecidableEq, Repr

inductive AluOp where
  | add | sub | mul | div | or | and | lsh | rsh | mod | xor
deriving DecidableEq, Repr

inductive Test where
  | eq | gt | ge | set
deriving DecidableEq, Repr

inductive Insn where
  | ldImm (k : UInt32)
  | ldLen
  | ldMem (k : UInt32)
  | ldAbs (size : Size) (k : UInt32)
  | ldInd (size : Size) (k : UInt32)
  | ldxImm (k : UInt32)
  | ldxLen
  | ldxMem (k : UInt32)
  | ldxMsh (k : UInt32)
  | st (k : UInt32)
  | stx (k : UInt32)
  | alu (op : AluOp) (source : Source) (k : UInt32)
  | neg
  | ja (k : UInt32)
  | jump (test : Test) (source : Source) (jt jf : UInt8) (k : UInt32)
  | retK (k : UInt32)
  | retA
  | tax
  | txa
deriving DecidableEq, Repr

/-- The instruction that an opcode and its operands stand for. -/
def decode (code : UInt16) (jt jf : UInt8) (k : UInt32) : Option Insn :=
  match code with
  | 0x00 => some (.ldImm k)
  | 0x80 => some .ldLen
  | 0x60 => some (.ldMem k)
  | 0x20 => some (.ldAbs .word k)
  | 0x28 => some (.ldAbs .half k)
  | 0x30 => some (.ldAbs .byte k)
  | 0x40 => some (.ldInd .word k)
  | 0x48 => some (.ldInd .half k)
  | 0x50 => some (.ldInd .byte k)
  | 0x01 => some (.ldxImm k)
  | 0x81 => some .ldxLen
  | 0x61 => some (.ldxMem k)
  | 0xb1 => some (.ldxMsh k)
  | 0x02 => some (.st k)
  | 0x03 => some (.stx k)
  | 0x04 => some (.alu .add .k k)
  | 0x0c => some (.alu .add .x k)
  | 0x14 => some (.alu .sub .k k)
  | 0x1c => some (.alu .sub .x k)
  | 0x24 => some (.alu .mul .k k)
  | 0x2c => some (.alu .mul .x k)
  | 0x34 => some (.alu .div .k k)
  | 0x3c => some (.alu .div .x k)
  | 0x44 => some (.alu .or .k k)
  | 0x4c => some (.alu .or .x k)
  | 0x54 => some (.alu .and .k k)
  | 0x5c => some (.alu .and .x k)
  | 0x64 => some (.alu .lsh .k k)
  | 0x6c => some (.alu .lsh .x k)
  | 0x74 => some (.alu .rsh .k k)
  | 0x7c => some (.alu .rsh .x k)
  | 0x84 => some .neg
  | 0x94 => some (.alu .mod .k k)
  | 0x9c => some (.alu .mod .x k)
  | 0xa4 => some (.alu .xor .k k)
  | 0xac => some (.alu .xor .x k)
  | 0x05 => some (.ja k)
  | 0x15 => some (.jump .eq .k jt jf k)
  | 0x1d => some (.jump .eq .x jt jf k)
  | 0x25 => some (.jump .gt .k jt jf k)
  | 0x2d => some (.jump .gt .x jt jf k)
  | 0x35 => some (.jump .ge .k jt jf k)
  | 0x3d => some (.jump .ge .x jt jf k)
  | 0x45 => some (.jump .set .k jt jf k)
  | 0x4d => some (.jump .set .x jt jf k)
  | 0x06 => some (.retK k)
  | 0x16 => some .retA
  | 0x07 => some .tax
  | 0x87 => some .txa
  | _ => none

/-- The accumulator, the index register, the scratch memory and the index of
the next instruction. -/
structure State where
  pc : Nat
  a : UInt32
  x : UInt32
  mem : Vector UInt32 16
deriving DecidableEq

def State.initial : State := ⟨0, 0, 0, Vector.replicate 16 0⟩

def Source.value (source : Source) (k : UInt32) (state : State) : UInt32 :=
  match source with
  | .k => k
  | .x => state.x

/-- The big-endian value of `size` bytes at an offset of the packet. -/
def loadAt (packet : List UInt8) (offset : Nat) (size : Size) : Option UInt32 :=
  if offset + size.bytes ≤ packet.length then
    some (UInt32.ofNat (Bytes.fromBe ((packet.drop offset).take size.bytes)))
  else none

/-- Arithmetic modulo `2 ^ 32`; a shift by 32 or more gives 0 and a division by
zero has no result. -/
def AluOp.apply (op : AluOp) (a operand : UInt32) : Option UInt32 :=
  match op with
  | .add => some (a + operand)
  | .sub => some (a - operand)
  | .mul => some (a * operand)
  | .div => if operand = 0 then none else some (a / operand)
  | .or => some (a ||| operand)
  | .and => some (a &&& operand)
  | .lsh => some (if operand < 32 then a <<< operand else 0)
  | .rsh => some (if operand < 32 then a >>> operand else 0)
  | .mod => if operand = 0 then none else some (a % operand)
  | .xor => some (a ^^^ operand)

def Test.holds (test : Test) (a operand : UInt32) : Bool :=
  match test with
  | .eq => a == operand
  | .gt => decide (operand < a)
  | .ge => decide (operand ≤ a)
  | .set => a &&& operand != 0

namespace State

def setA (state : State) (value : UInt32) : State := { state with pc := state.pc + 1, a := value }

def setX (state : State) (value : UInt32) : State := { state with pc := state.pc + 1, x := value }

def goto (state : State) (target : Nat) : State := { state with pc := target }

/-- Store `value` at scratch index `k`, when there is such an index. -/
def store (state : State) (k : UInt32) (value : UInt32) : StepResult State UInt32 :=
  if inside : k.toNat < 16 then
    .next { state with pc := state.pc + 1, mem := state.mem.set k.toNat value inside }
  else .abort

@[simp] theorem setA_pc (state : State) (value : UInt32) :
    (state.setA value).pc = state.pc + 1 := rfl

@[simp] theorem setX_pc (state : State) (value : UInt32) :
    (state.setX value).pc = state.pc + 1 := rfl

@[simp] theorem goto_pc (state : State) (target : Nat) : (state.goto target).pc = target := rfl

end State

/-- The effect of one instruction. -/
def execute (packet : List UInt8) (insn : Insn) (state : State) : StepResult State UInt32 :=
  match insn with
  | .ldImm k => .next (state.setA k)
  | .ldLen => .next (state.setA (UInt32.ofNat packet.length))
  | .ldMem k =>
      match state.mem[k.toNat]? with
      | some value => .next (state.setA value)
      | none => .abort
  | .ldAbs size k =>
      match loadAt packet k.toNat size with
      | some value => .next (state.setA value)
      | none => .halt 0
  | .ldInd size k =>
      match loadAt packet (state.x.toNat + k.toNat) size with
      | some value => .next (state.setA value)
      | none => .halt 0
  | .ldxImm k => .next (state.setX k)
  | .ldxLen => .next (state.setX (UInt32.ofNat packet.length))
  | .ldxMem k =>
      match state.mem[k.toNat]? with
      | some value => .next (state.setX value)
      | none => .abort
  | .ldxMsh k =>
      match loadAt packet k.toNat .byte with
      | some value => .next (state.setX (4 * (value &&& 0xf)))
      | none => .halt 0
  | .st k => state.store k state.a
  | .stx k => state.store k state.x
  | .alu op source k =>
      match op.apply state.a (source.value k state) with
      | some value => .next (state.setA value)
      | none => .halt 0
  | .neg => .next (state.setA (-state.a))
  | .ja k => .next (state.goto (state.pc + 1 + k.toNat))
  | .jump test source jt jf k =>
      if test.holds state.a (source.value k state) then
        .next (state.goto (state.pc + 1 + jt.toNat))
      else .next (state.goto (state.pc + 1 + jf.toNat))
  | .retK k => .halt k
  | .retA => .halt state.a
  | .tax => .next (state.setX state.a)
  | .txa => .next (state.setA state.x)

/-- One step of a program on a packet. -/
def step (program : List Insn) (packet : List UInt8) (state : State) : StepResult State UInt32 :=
  match program[state.pc]? with
  | some insn => execute packet insn state
  | none => .abort

/-- The indices an instruction at `pc` may continue at. -/
def Insn.successors (pc : Nat) : Insn → List Nat
  | .ja k => [pc + 1 + k.toNat]
  | .jump _ _ jt jf _ => [pc + 1 + jt.toNat, pc + 1 + jf.toNat]
  | .retK _ | .retA => []
  | .ldImm _ | .ldLen | .ldMem _ | .ldAbs .. | .ldInd .. | .ldxImm _ | .ldxLen | .ldxMem _
  | .ldxMsh _ | .st _ | .stx _ | .alu .. | .neg | .tax | .txa => [pc + 1]

def Insn.isRet : Insn → Bool
  | .retK _ | .retA => true
  | _ => false

/-- What validation asks of the operands of an instruction at `pc` in a program
of `length` instructions. -/
def Insn.Admitted (length pc : Nat) : Insn → Prop
  | .ldMem k | .ldxMem k | .st k | .stx k => k.toNat < 16
  | .alu .div .k k | .alu .mod .k k => k ≠ 0
  | .ja k => pc + 1 + k.toNat < length
  | .jump _ _ jt jf _ => pc + 1 + jt.toNat < length ∧ pc + 1 + jf.toNat < length
  | _ => True

/-- The programs that validation admits. -/
structure Valid (program : List Insn) : Prop where
  admitted : ∀ pc (insn : Insn), program[pc]? = some insn → insn.Admitted program.length pc
  last : ∃ insn : Insn, program.getLast? = some insn ∧ insn.isRet = true

/-- Execution continues only at a successor of the instruction. -/
theorem execute_next_successor {packet : List UInt8} {insn : Insn} {state after : State}
    (stepped : execute packet insn state = .next after) :
    after.pc ∈ insn.successors state.pc := by
  cases insn <;> simp only [execute, State.store] at stepped
  all_goals first
    | (cases stepped <;> simp [Insn.successors])
    | (split at stepped <;> cases stepped <;> simp [Insn.successors])

/-- An admitted instruction never aborts. -/
theorem execute_ne_abort {packet : List UInt8} {insn : Insn} {state : State} {length : Nat}
    (admitted : insn.Admitted length state.pc) : execute packet insn state ≠ .abort := by
  intro stepped
  cases insn <;> simp only [execute, State.store] at stepped
  case ldMem k | ldxMem k =>
    have inside : k.toNat < 16 := admitted
    simp only [inside, Vector.getElem?_eq_getElem] at stepped
    cases stepped
  case st k | stx k =>
    have inside : k.toNat < 16 := admitted
    simp only [inside, ↓reduceDIte] at stepped
    cases stepped
  all_goals first
    | cases stepped
    | (split at stepped <;> cases stepped)

/-- The successors of an instruction of a valid program lie after it, inside
the program. -/
theorem Valid.successor {program : List Insn} (valid : Valid program) {pc after : Nat}
    {insn : Insn} (here : program[pc]? = some insn) (member : after ∈ insn.successors pc) :
    pc < after ∧ after < program.length := by
  obtain ⟨inside, at_pc⟩ := List.getElem?_eq_some_iff.mp here
  have admitted := valid.admitted pc insn here
  have sequential : insn.isRet = false → pc + 1 < program.length := by
    intro running
    obtain ⟨last, isLast, returns⟩ := valid.last
    by_contra outside
    have final : program.getLast? = some insn := by
      rw [List.getLast?_eq_getElem?, show program.length - 1 = pc by omega, here]
    rw [final, Option.some.injEq] at isLast
    rw [isLast, returns] at running
    exact Bool.noConfusion running
  cases insn with
  | ja k =>
      obtain rfl := List.mem_singleton.mp member
      exact ⟨by omega, admitted⟩
  | jump test source jt jf k =>
      simp only [Insn.successors, List.mem_cons, List.not_mem_nil, or_false] at member
      have both : pc + 1 + jt.toNat < program.length ∧ pc + 1 + jf.toNat < program.length :=
        admitted
      rcases member with rfl | rfl
      · exact ⟨by omega, both.1⟩
      · exact ⟨by omega, both.2⟩
  | retK k => cases member
  | retA => cases member
  | _ =>
      obtain rfl := List.mem_singleton.mp member
      exact ⟨Nat.lt_succ_self pc, sequential rfl⟩

section Valid

variable {program : List Insn} (valid : Valid program) (packet : List UInt8)

include valid

theorem Valid.step_next {state after : State} (stepped : step program packet state = .next after) :
    state.pc < after.pc ∧ after.pc < program.length := by
  unfold step at stepped
  split at stepped
  · next insn here => exact valid.successor here (execute_next_successor stepped)
  · cases stepped

theorem Valid.length_pos : 0 < program.length := by
  obtain ⟨insn, isLast, _⟩ := valid.last
  exact List.length_pos_of_mem (List.mem_of_getLast? isLast)

/-- The run of a valid program stays inside it. -/
theorem Valid.reaches_inside {state : State}
    (reached : StepMachine.Reaches (step program packet) .initial state) :
    state.pc < program.length :=
  reached.invariant (fun state => state.pc < program.length) valid.length_pos
    fun _ _ _ stepped => (valid.step_next packet stepped).2

theorem Valid.step_ne_abort {state : State}
    (reached : StepMachine.Reaches (step program packet) .initial state) :
    step program packet state ≠ .abort := by
  have inside := valid.reaches_inside packet reached
  rw [step, List.getElem?_eq_getElem inside]
  exact execute_ne_abort (valid.admitted _ _ (List.getElem?_eq_getElem inside))

/-- **A valid program returns on every packet**, within as many steps as it has
instructions. -/
theorem Valid.returns :
    ∃ value, StepMachine.runFor (step program packet) (program.length + 1) .initial =
      .halt value := by
  cases outcome : StepMachine.runFor (step program packet) (program.length + 1) .initial with
  | halt value => exact ⟨value, rfl⟩
  | next state =>
      refine absurd outcome (StepMachine.runFor_not_next_of_rank State.pc
        (fun _ _ after stepped => (valid.step_next packet stepped).1)
        (fun state reached _ _ => valid.reaches_inside packet reached)
        (Nat.le_add_left _ _) state)
  | abort =>
      obtain ⟨state, reached, stepped⟩ := StepMachine.exists_step_of_abort outcome
      exact absurd stepped (valid.step_ne_abort packet reached)

end Valid

end ClassicBpf
