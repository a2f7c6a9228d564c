import Wnr.Foundation.Bytes
import Wnr.Foundation.StepMachine

/-! # The packet-filter interpreter

`BpfVm::run` with its loop body, `BpfVm::alu` and `load`. Arithmetic is that of
a build with overflow checks, and a computation of type `Option` has the value
`none` where the code would panic: an index out of range, a sum past the width
of its type, a division by zero.
-/

namespace Wnr.Pcap

/-! ## Opcode fields -/

abbrev bpfLd : UInt8 := 0x00
abbrev bpfLdx : UInt8 := 0x01
abbrev bpfSt : UInt8 := 0x02
abbrev bpfStx : UInt8 := 0x03
abbrev bpfAlu : UInt8 := 0x04
abbrev bpfJmp : UInt8 := 0x05
abbrev bpfRet : UInt8 := 0x06
abbrev bpfMisc : UInt8 := 0x07

abbrev bpfW : UInt8 := 0x00
abbrev bpfH : UInt8 := 0x08
abbrev bpfB : UInt8 := 0x10
abbrev bpfImm : UInt8 := 0x00
abbrev bpfAbs : UInt8 := 0x20
abbrev bpfInd : UInt8 := 0x40
abbrev bpfMem : UInt8 := 0x60
abbrev bpfLen : UInt8 := 0x80
abbrev bpfMsh : UInt8 := 0xa0

abbrev bpfAdd : UInt8 := 0x00
abbrev bpfSub : UInt8 := 0x10
abbrev bpfMul : UInt8 := 0x20
abbrev bpfDiv : UInt8 := 0x30
abbrev bpfOr : UInt8 := 0x40
abbrev bpfAnd : UInt8 := 0x50
abbrev bpfLsh : UInt8 := 0x60
abbrev bpfRsh : UInt8 := 0x70
abbrev bpfNeg : UInt8 := 0x80
abbrev bpfMod : UInt8 := 0x90
abbrev bpfXor : UInt8 := 0xa0

abbrev bpfJa : UInt8 := 0x00
abbrev bpfJeq : UInt8 := 0x10
abbrev bpfJgt : UInt8 := 0x20
abbrev bpfJge : UInt8 := 0x30
abbrev bpfJset : UInt8 := 0x40

abbrev bpfK : UInt8 := 0x00
abbrev bpfX : UInt8 := 0x08

abbrev bpfTax : UInt8 := 0x00
abbrev bpfTxa : UInt8 := 0x80

/-- A single BPF instruction. -/
structure BpfInsn where
  code : UInt16
  jt : UInt8
  jf : UInt8
  k : UInt32
deriving DecidableEq, Repr

/-- The result returned when a filter accepts a packet. -/
abbrev bpfAccept : UInt32 := 0xffffffff

/-- Classic "return 0" means reject. -/
abbrev bpfReject : UInt32 := 0

/-- The registers and the scratch memory of the interpreter. -/
structure BpfVm where
  acc : UInt32
  x : UInt32
  mem : Vector UInt32 16
deriving DecidableEq

def BpfVm.new : BpfVm := ⟨0, 0, Vector.replicate 16 0⟩

/-- Where the loop of `BpfVm::run` stands. -/
structure RunState where
  vm : BpfVm
  pc : Nat
deriving DecidableEq

/-- One pass of the loop: on to the next pass, a return of a value with the
interpreter as it is left behind, or a panic. -/
abbrev RunResult : Type := StepResult RunState (UInt32 × BpfVm)

/-! ## Arithmetic and loads -/

/-- `a + b` on `u32`. -/
def checkedAdd (a b : UInt32) : Option UInt32 :=
  if a.toNat + b.toNat < 2 ^ 32 then some (a + b) else none

/-- `a / b` on `u32`. -/
def checkedDiv (a b : UInt32) : Option UInt32 := if b = 0 then none else some (a / b)

/-- `a % b` on `u32`. -/
def checkedRem (a b : UInt32) : Option UInt32 := if b = 0 then none else some (a % b)

/-- `a.checked_shl(v).unwrap_or(0)`. -/
def shlOrZero (a v : UInt32) : UInt32 := if v < 32 then a <<< v else 0

/-- `a.checked_shr(v).unwrap_or(0)`. -/
def shrOrZero (a v : UInt32) : UInt32 := if v < 32 then a >>> v else 0

/-- Load a value of a size at absolute offset `idx`, honoring the packet
length. The inner `none` is the load that is out of bounds. -/
def load (pkt : List UInt8) (pktLen idx : UInt32) (size : UInt8) : Option (Option UInt32) :=
  let idx := idx.toNat
  if size = bpfW then
    if idx + 4 > pkt.length then some none
    else do
      let b₀ ← pkt[idx]?
      let b₁ ← pkt[idx + 1]?
      let b₂ ← pkt[idx + 2]?
      let b₃ ← pkt[idx + 3]?
      return some (Bytes.u32FromBe [b₀, b₁, b₂, b₃])
  else if size = bpfH then
    if idx + 2 > pkt.length then some none
    else do
      let b₀ ← pkt[idx]?
      let b₁ ← pkt[idx + 1]?
      return some (Bytes.u16FromBe [b₀, b₁]).toUInt32
  else if idx ≥ pktLen.toNat then some none
  else do
    let b₀ ← pkt[idx]?
    return some b₀.toUInt32

/-- The number of bytes that a load of a size takes. -/
def loadWidth (size : UInt8) : Nat :=
  if size = bpfW then 4 else if size = bpfH then 2 else 1

/-- The accumulator after the operation of `BpfVm::alu`. -/
def aluAcc (op : UInt8) (acc v : UInt32) : Option UInt32 :=
  if op = bpfAdd then some (acc + v)
  else if op = bpfSub then some (acc - v)
  else if op = bpfMul then some (acc * v)
  else if op = bpfDiv then
    if v ≠ 0 then checkedDiv acc v else some 0
  else if op = bpfOr then some (acc ||| v)
  else if op = bpfAnd then some (acc &&& v)
  else if op = bpfLsh then some (shlOrZero acc v)
  else if op = bpfRsh then some (shrOrZero acc v)
  else if op = bpfNeg then some (-acc)
  else if op = bpfMod then
    if v ≠ 0 then checkedRem acc v else some 0
  else if op = bpfXor then some (acc ^^^ v)
  else some acc

namespace BpfVm

/-- Put a loaded value where the class of the load wants it. -/
def setLoaded (self : BpfVm) (cls : UInt8) (v : UInt32) : BpfVm :=
  if cls = bpfLd then { self with acc := v } else { self with x := v }

def alu (self : BpfVm) (op : UInt8) (useX : Bool) (k : UInt32) : Option BpfVm := do
  return { self with acc := ← aluAcc op self.acc (if useX then self.x else k) }

/-- Move on with a loaded value, or return 0 when the load is out of bounds. -/
def afterLoad (self : BpfVm) (loaded : Option (Option UInt32)) (onValue : UInt32 → RunResult) :
    RunResult :=
  match loaded with
  | some (some v) => onValue v
  | some none => .halt (0, self)
  | none => .abort

/-- Read scratch word `m`, or return 0 when there is none. -/
def afterMem (self : BpfVm) (m : Nat) (onValue : UInt32 → RunResult) : RunResult :=
  if m ≥ 16 then .halt (0, self)
  else
    match self.mem[m]? with
    | some v => onValue v
    | none => .abort

/-- The `BPF_LD | BPF_LDX` arm of the loop. -/
def runLoad (self : BpfVm) (ins : BpfInsn) (pkt : List UInt8) (pktLen : UInt32) (pc : Nat) :
    RunResult :=
  let cls := (ins.code &&& 0x07).toUInt8
  let size := (ins.code &&& 0x18).toUInt8
  let mode := (ins.code &&& 0xe0).toUInt8
  let loaded (v : UInt32) : RunResult := .next ⟨self.setLoaded cls v, pc + 1⟩
  if mode = bpfImm then loaded ins.k
  else if mode = bpfAbs ∨ mode = bpfInd then
    let idx := if mode = bpfInd then self.x + ins.k else ins.k
    self.afterLoad (load pkt pktLen idx size) loaded
  else if mode = bpfMem then self.afterMem ins.k.toNat loaded
  else if mode = bpfLen then loaded pktLen
  else if mode = bpfMsh then
    self.afterLoad (load pkt pktLen ins.k bpfB) fun v =>
      let hlen := (v &&& 0x0f) <<< 2
      if hlen > pktLen then .halt (0, self)
      -- the index register, whichever the class
      else .next ⟨{ self with x := hlen }, pc + 1⟩
  else .halt (0, self)

/-- The `BPF_ST | BPF_STX` arm of the loop, for the register that the class
selects. -/
def runStore (self : BpfVm) (k v : UInt32) (pc : Nat) : RunResult :=
  let m := k.toNat
  if m ≥ 16 then .halt (0, self)
  else if inside : m < 16 then .next ⟨{ self with mem := self.mem.set m v inside }, pc + 1⟩
  else .abort

/-- The `BPF_ALU` arm of the loop. -/
def runAlu (self : BpfVm) (op : UInt8) (useX : Bool) (k : UInt32) (pc : Nat) : RunResult :=
  match self.alu op useX k with
  | some vm => .next ⟨vm, pc + 1⟩
  | none => .abort

/-- `pc as u32 + offset as u32 + 1`. -/
def jumpTarget (pc : Nat) (offset : UInt8) : Option UInt32 := do
  checkedAdd (← checkedAdd (UInt32.ofNat pc) offset.toUInt32) 1

/-- The `BPF_JMP` arm of the loop. Both targets are computed before the
operation is looked at. -/
def runJump (self : BpfVm) (ins : BpfInsn) (pc : Nat) : RunResult :=
  let op := (ins.code &&& 0x70).toUInt8
  let useX := ins.code &&& 0x08 ≠ 0
  let v := if useX then self.x else ins.k
  match jumpTarget pc ins.jt, jumpTarget pc ins.jf with
  | some trueTarget, some falseTarget =>
      let goto (jump : UInt32) : RunResult := .next ⟨self, jump.toNat⟩
      if op = bpfJa then goto ins.k
      else if op = bpfJeq then goto (if self.acc = v then trueTarget else falseTarget)
      else if op = bpfJgt then goto (if self.acc > v then trueTarget else falseTarget)
      else if op = bpfJge then goto (if self.acc ≥ v then trueTarget else falseTarget)
      else if op = bpfJset then goto (if self.acc &&& v ≠ 0 then trueTarget else falseTarget)
      else .halt (0, self)
  | _, _ => .abort

/-- The `BPF_MISC` arm of the loop. -/
def runMisc (self : BpfVm) (ins : BpfInsn) : BpfVm :=
  if ins.code &&& 0xf0 = bpfTax.toUInt16 then { self with x := self.acc }
  else if ins.code &&& 0xf0 = bpfTxa.toUInt16 then { self with acc := self.x }
  else self

/-- The body of the loop for the instruction at `pc`. -/
def runInsn (self : BpfVm) (ins : BpfInsn) (pkt : List UInt8) (pc : Nat) : RunResult :=
  let pktLen := UInt32.ofNat pkt.length
  let cls := (ins.code &&& 0x07).toUInt8
  if cls = bpfLd ∨ cls = bpfLdx then self.runLoad ins pkt pktLen pc
  else if cls = bpfSt ∨ cls = bpfStx then
    self.runStore ins.k (if cls = bpfSt then self.acc else self.x) pc
  else if cls = bpfAlu then
    self.runAlu (ins.code &&& 0xf0).toUInt8 (ins.code &&& 0x08 ≠ 0) ins.k pc
  else if cls = bpfJmp then self.runJump ins pc
  else if cls = bpfRet then .halt (if ins.code &&& 0x08 ≠ 0 then self.x else ins.k, self)
  else if cls = bpfMisc then .next ⟨self.runMisc ins, pc + 1⟩
  else .halt (0, self)

/-- One pass of the loop, its test included: past the end of the program the
accumulator is returned. -/
def runStep (program : List BpfInsn) (pkt : List UInt8) (state : RunState) : RunResult :=
  match program[state.pc]? with
  | some ins => state.vm.runInsn ins pkt state.pc
  | none => .halt (state.vm.acc, state.vm)

/-- The registers and the memory are cleared before the loop. -/
def runStart (self : BpfVm) : RunState :=
  ⟨{ self with acc := 0, x := 0, mem := Vector.replicate 16 0 }, 0⟩

/-- `BpfVm::run`, as far as `fuel` passes of its loop take it. -/
def run (self : BpfVm) (program : List BpfInsn) (pkt : List UInt8) (fuel : Nat) : RunResult :=
  StepMachine.runFor (runStep program pkt) fuel self.runStart

/-- `BpfVm::run` returns `value` and leaves the interpreter as `vm`. -/
def Runs (self : BpfVm) (program : List BpfInsn) (pkt : List UInt8) (value : UInt32)
    (vm : BpfVm) : Prop :=
  StepMachine.Returns (runStep program pkt) self.runStart (value, vm)

/-- The states at which some pass of the loop of `BpfVm::run` begins. -/
def RunReaches (self : BpfVm) (program : List BpfInsn) (pkt : List UInt8) (state : RunState) :
    Prop :=
  StepMachine.Reaches (runStep program pkt) self.runStart state

@[simp] theorem runStart_eq (self : BpfVm) : self.runStart = BpfVm.new.runStart := rfl

/-- The value of a jump target, where its computation does not overflow. -/
theorem jumpTarget_eq (pc : Nat) (offset : UInt8) :
    jumpTarget pc offset =
      if pc % 2 ^ 32 + offset.toNat + 1 < 2 ^ 32 then
        some (UInt32.ofNat (pc + offset.toNat + 1))
      else none := by
  have width : (UInt32.ofNat pc).toNat = pc % 2 ^ 32 := rfl
  have small : offset.toUInt32.toNat = offset.toNat := UInt8.toNat_toUInt32 offset
  have sum : UInt32.ofNat pc + offset.toUInt32 + 1 = UInt32.ofNat (pc + offset.toNat + 1) := by
    apply UInt32.toNat_inj.mp
    simp only [UInt32.toNat_add, UInt32.toNat_ofNat', small, UInt32.reduceToNat]
    omega
  by_cases first : pc % 2 ^ 32 + offset.toNat < 2 ^ 32
  · have running : (UInt32.ofNat pc + offset.toUInt32).toNat = pc % 2 ^ 32 + offset.toNat := by
      rw [UInt32.toNat_add, width, small]
      omega
    simp only [jumpTarget, checkedAdd, width, small, first, ↓reduceIte, Option.bind_eq_bind,
      Option.bind_some, running, UInt32.reduceToNat, sum]
  · have second : ¬ pc % 2 ^ 32 + offset.toNat + 1 < 2 ^ 32 := by omega
    simp only [jumpTarget, checkedAdd, width, small, first, second, ↓reduceIte,
      Option.bind_eq_bind, Option.bind_none]

theorem runStep_of_getElem? {program : List BpfInsn} {pkt : List UInt8} {state : RunState}
    {ins : BpfInsn} (here : program[state.pc]? = some ins) :
    runStep program pkt state = state.vm.runInsn ins pkt state.pc := by
  simp only [runStep, here]

theorem runStep_past_end {program : List BpfInsn} {pkt : List UInt8} {state : RunState}
    (outside : program.length ≤ state.pc) :
    runStep program pkt state = .halt (state.vm.acc, state.vm) := by
  simp only [runStep, List.getElem?_eq_none outside]

end BpfVm

end Wnr.Pcap
