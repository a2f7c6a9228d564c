import Wnr.Pcap.BpfTermination

/-! # Safety of the packet-filter interpreter

Every index and every division of the interpreter is guarded, and the sums of a jump
overflow only near index `2^32`. A shorter program runs without a panic on every packet,
and an access outside the packet or the scratch memory ends its run with 0
(`Wnr.Pcap.run_safe`).
-/

namespace Wnr.Pcap

variable {self : BpfVm} {ins : BpfInsn} {pkt : List UInt8} {pc : Nat}

/-! ## Accesses -/

/-- The instruction reads outside the packet, or reads or writes outside the scratch
memory. -/
def BpfVm.AccessesOutside (self : BpfVm) (ins : BpfInsn) (pkt : List UInt8) : Prop :=
  let cls := (ins.code &&& 0x07).toUInt8
  let size := (ins.code &&& 0x18).toUInt8
  let mode := (ins.code &&& 0xe0).toUInt8
  (cls = bpfLd ∨ cls = bpfLdx) ∧
      (mode = bpfAbs ∧ pkt.length < ins.k.toNat + loadWidth size ∨
        mode = bpfInd ∧ pkt.length < (self.x + ins.k).toNat + loadWidth size ∨
        mode = bpfMsh ∧ pkt.length ≤ ins.k.toNat ∨
        mode = bpfMem ∧ 16 ≤ ins.k.toNat) ∨
    (cls = bpfSt ∨ cls = bpfStx) ∧ 16 ≤ ins.k.toNat

/-- What a load outside the packet leads to. -/
theorem afterLoad_outside {idx : UInt32} {size : UInt8} (onValue : UInt32 → RunResult)
    (outside : pkt.length < idx.toNat + loadWidth size) :
    self.afterLoad (load pkt (UInt32.ofNat pkt.length) idx size) onValue = .halt (0, self) := by
  rw [load_outside outside]
  rfl

/-- **An access outside** the packet or the scratch memory returns 0. -/
theorem runInsn_outside (outside : self.AccessesOutside ins pkt) :
    self.runInsn ins pkt pc = .halt (0, self) := by
  rcases outside with ⟨isLoad, past⟩ | ⟨isStore, past⟩
  · have arm : self.runInsn ins pkt pc = self.runLoad ins pkt (UInt32.ofNat pkt.length) pc := by
      simp only [BpfVm.runInsn, isLoad, if_true]
    rw [arm]
    rcases past with ⟨mode, past⟩ | ⟨mode, past⟩ | ⟨mode, past⟩ | ⟨mode, past⟩
    · simp +decide only [BpfVm.runLoad, mode, if_true, if_false]
      exact afterLoad_outside _ past
    · simp +decide only [BpfVm.runLoad, mode, if_true, if_false]
      exact afterLoad_outside _ past
    · simp +decide only [BpfVm.runLoad, mode, if_true, if_false]
      exact afterLoad_outside _ (Nat.lt_succ_of_le past)
    · simp +decide only [BpfVm.runLoad, mode, if_true, if_false]
      exact if_pos past
  · have notLoad : ¬ ((ins.code &&& 0x07).toUInt8 = bpfLd ∨
        (ins.code &&& 0x07).toUInt8 = bpfLdx) := by
      rcases isStore with cls | cls
      all_goals
        rw [cls]
        decide
    simp only [BpfVm.runInsn, notLoad, isStore, if_true, if_false]
    exact if_pos past

/-! ## Jumps -/

/-- The targets of a jump are computed without overflow where the index is small. -/
theorem runJump_ne_panic (self : BpfVm) (ins : BpfInsn) (small : pc + 256 < 2 ^ 32) :
    self.runJump ins pc ≠ .abort := by
  have first : pc % 2 ^ 32 + ins.jt.toNat + 1 < 2 ^ 32 := by
    have bound := ins.jt.toNat_lt
    omega
  have second : pc % 2 ^ 32 + ins.jf.toNat + 1 < 2 ^ 32 := by
    have bound := ins.jf.toNat_lt
    omega
  simp only [BpfVm.runJump, BpfVm.jumpTarget_eq, first, second, ↓reduceIte]
  split_ifs <;>
  · intro panics
    cases panics

/-- No pass over an instruction of a short program panics. -/
theorem runInsn_ne_panic (self : BpfVm) (ins : BpfInsn) (pkt : List UInt8)
    (small : pc + 256 < 2 ^ 32) : self.runInsn ins pkt pc ≠ .abort := by
  by_cases isJump : (ins.code &&& 0x07).toUInt8 = bpfJmp
  · rw [runInsn_of_jump self pkt pc isJump]
    exact runJump_ne_panic self ins small
  · intro panics
    have falls := runInsn_falls self ins pkt pc isJump
    rw [panics] at falls
    exact falls

/-! ## Whole runs -/

variable {program : List BpfInsn}

theorem runStep_ne_panic (short : program.length < 2 ^ 32 - 256) (state : RunState) :
    BpfVm.runStep program pkt state ≠ .abort := by
  cases here : program[state.pc]? with
  | none =>
      rw [BpfVm.runStep_past_end (List.getElem?_eq_none_iff.mp here)]
      nofun
  | some ins =>
      obtain ⟨inside, _⟩ := List.getElem?_eq_some_iff.mp here
      rw [BpfVm.runStep_of_getElem? here]
      exact runInsn_ne_panic state.vm ins pkt (by omega)

/-- **Safety.** The run of a program of fewer than `2^32 - 256` instructions panics at none of
its steps, on no packet, and ends with 0 when it comes to an access outside the packet or the
scratch memory. -/
theorem run_safe (self : BpfVm) {program : List BpfInsn} (short : program.length < 2 ^ 32 - 256)
    (pkt : List UInt8) :
    (∀ fuel, self.run program pkt fuel ≠ .abort) ∧
    (∀ state, self.RunReaches program pkt state → BpfVm.runStep program pkt state ≠ .abort) ∧
    ∀ state ins, self.RunReaches program pkt state → program[state.pc]? = some ins →
      state.vm.AccessesOutside ins pkt → self.Runs program pkt 0 state.vm := by
  refine ⟨fun fuel panics => ?_, fun state _ => runStep_ne_panic short state, ?_⟩
  · obtain ⟨state, _, stepped⟩ := StepMachine.exists_step_of_abort panics
    exact runStep_ne_panic short state stepped
  · intro state ins reached here outside
    refine StepMachine.Reaches.returns reached ?_
    rw [BpfVm.runStep_of_getElem? here]
    exact runInsn_outside outside

/-- A store past the scratch memory, run after a comparison. -/
theorem run_safe_store :
    BpfVm.new.Runs [⟨0x15, 0, 0, 7⟩, ⟨0x02, 0, 0, 16⟩] [1, 2] 0 BpfVm.new := by
  obtain ⟨_, _, outside⟩ :=
    @run_safe BpfVm.new [⟨0x15, 0, 0, 7⟩, ⟨0x02, 0, 0, 16⟩] (by decide) [1, 2]
  have reached : BpfVm.new.RunReaches [⟨0x15, 0, 0, 7⟩, ⟨0x02, 0, 0, 16⟩] [1, 2] ⟨BpfVm.new, 1⟩ :=
    .head (show _ = StepResult.next ⟨BpfVm.new, 1⟩ by decide) (.refl _)
  exact outside ⟨BpfVm.new, 1⟩ ⟨0x02, 0, 0, 16⟩ reached rfl (.inr ⟨by decide, by decide⟩)

end Wnr.Pcap
