import Wnr.Pcap.Bpf

/-! # Termination of the packet-filter interpreter

Only a jump can fail to move the program counter forward. The loop stops within
as many instructions as the program has, each one moving forward, exactly when
no jump that it executes fails to.
-/

namespace Wnr.Pcap

/-! ## The arms that fall through -/

theorem toNat_ofNat_le (length : Nat) : (UInt32.ofNat length).toNat ≤ length := by
  rw [UInt32.toNat_ofNat']
  exact Nat.mod_le _ _

/-- A guarded load never indexes past the packet. -/
theorem load_ne_panic (pkt : List UInt8) (idx : UInt32) (size : UInt8) :
    load pkt (UInt32.ofNat pkt.length) idx size ≠ none := by
  have truncated := toNat_ofNat_le pkt.length
  simp only [load]
  split
  · split
    · exact Option.some_ne_none _
    · rw [List.getElem?_eq_getElem (by omega), List.getElem?_eq_getElem (by omega),
        List.getElem?_eq_getElem (by omega), List.getElem?_eq_getElem (by omega)]
      exact Option.some_ne_none _
  · split
    · split
      · exact Option.some_ne_none _
      · rw [List.getElem?_eq_getElem (by omega), List.getElem?_eq_getElem (by omega)]
        exact Option.some_ne_none _
    · split
      · exact Option.some_ne_none _
      · rw [List.getElem?_eq_getElem (by omega)]
        exact Option.some_ne_none _

/-- A load outside the packet yields nothing. -/
theorem load_outside {pkt : List UInt8} {idx : UInt32} {size : UInt8}
    (outside : pkt.length < idx.toNat + loadWidth size) :
    load pkt (UInt32.ofNat pkt.length) idx size = some none := by
  have truncated := toNat_ofNat_le pkt.length
  simp only [load]
  unfold loadWidth at outside
  split_ifs at outside ⊢
  · rfl
  · omega
  · rfl
  · omega
  · rfl
  · omega

theorem checkedDiv_ne_panic {a b : UInt32} (nonzero : b ≠ 0) : checkedDiv a b ≠ none := by
  rw [checkedDiv, if_neg nonzero]
  exact Option.some_ne_none _

theorem checkedRem_ne_panic {a b : UInt32} (nonzero : b ≠ 0) : checkedRem a b ≠ none := by
  rw [checkedRem, if_neg nonzero]
  exact Option.some_ne_none _

theorem ite_ne_panic {α : Type} {c : Prop} [Decidable c] {a b : Option α}
    (left : c → a ≠ none) (right : ¬ c → b ≠ none) : (if c then a else b) ≠ none := by
  by_cases holds : c
  · rw [if_pos holds]
    exact left holds
  · rw [if_neg holds]
    exact right holds

/-- Arithmetic never divides by zero. -/
theorem aluAcc_ne_panic (op : UInt8) (acc v : UInt32) : aluAcc op acc v ≠ none := by
  have value (acc' : UInt32) : some acc' ≠ none := Option.some_ne_none acc'
  unfold aluAcc
  refine ite_ne_panic (fun _ => value _) fun _ => ?_
  refine ite_ne_panic (fun _ => value _) fun _ => ?_
  refine ite_ne_panic (fun _ => value _) fun _ => ?_
  refine ite_ne_panic (fun _ => ite_ne_panic checkedDiv_ne_panic fun _ => value _) fun _ => ?_
  refine ite_ne_panic (fun _ => value _) fun _ => ?_
  refine ite_ne_panic (fun _ => value _) fun _ => ?_
  refine ite_ne_panic (fun _ => value _) fun _ => ?_
  refine ite_ne_panic (fun _ => value _) fun _ => ?_
  refine ite_ne_panic (fun _ => value _) fun _ => ?_
  refine ite_ne_panic (fun _ => ite_ne_panic checkedRem_ne_panic fun _ => value _) fun _ => ?_
  exact ite_ne_panic (fun _ => value _) fun _ => value _

theorem alu_ne_panic (self : BpfVm) (op : UInt8) (useX : Bool) (k : UInt32) :
    self.alu op useX k ≠ none := by
  cases result : aluAcc op self.acc (if useX then self.x else k) with
  | none => exact absurd result (aluAcc_ne_panic op _ _)
  | some acc =>
      simp only [BpfVm.alu, result]
      exact Option.some_ne_none _

/-- The pass goes on to the following instruction or returns. -/
def FallsThrough (pc : Nat) : RunResult → Prop
  | .next after => after.pc = pc + 1
  | .halt _ => True
  | .abort => False

/-- The pass moves the program counter forward or returns. -/
def Advances (pc : Nat) : RunResult → Prop
  | .next after => pc < after.pc
  | .halt _ => True
  | .abort => False

theorem FallsThrough.advances {pc : Nat} {result : RunResult} (falls : FallsThrough pc result) :
    Advances pc result := by
  cases result with
  | next after => exact Nat.lt_of_lt_of_eq (Nat.lt_succ_self pc) (Eq.symm falls)
  | halt value => trivial
  | abort => exact False.elim falls

section Arms

variable (self : BpfVm) (ins : BpfInsn) (pkt : List UInt8) (pc : Nat)

theorem afterLoad_falls {size : UInt8} {idx : UInt32} {onValue : UInt32 → RunResult}
    (falls : ∀ v, FallsThrough pc (onValue v)) :
    FallsThrough pc (self.afterLoad (load pkt (UInt32.ofNat pkt.length) idx size) onValue) := by
  cases loaded : load pkt (UInt32.ofNat pkt.length) idx size with
  | none => exact absurd loaded (load_ne_panic pkt idx size)
  | some value =>
      cases value with
      | none => trivial
      | some v => exact falls v

theorem afterMem_falls {m : Nat} {onValue : UInt32 → RunResult}
    (falls : ∀ v, FallsThrough pc (onValue v)) : FallsThrough pc (self.afterMem m onValue) := by
  unfold BpfVm.afterMem
  split
  · trivial
  · next inside =>
      rw [Vector.getElem?_eq_getElem (Nat.not_le.mp inside)]
      exact falls _

theorem runLoad_falls : FallsThrough pc (self.runLoad ins pkt (UInt32.ofNat pkt.length) pc) := by
  simp only [BpfVm.runLoad]
  split
  · rfl
  split
  · exact afterLoad_falls self pkt pc fun _ => rfl
  split
  · exact afterMem_falls self pc fun _ => rfl
  split
  · rfl
  split
  · refine afterLoad_falls self pkt pc fun v => ?_
    split
    · trivial
    · rfl
  · trivial

theorem runStore_falls (k v : UInt32) : FallsThrough pc (self.runStore k v pc) := by
  simp only [BpfVm.runStore]
  split
  · trivial
  · next inside =>
      simp only [Nat.not_le.mp inside, ↓reduceDIte]
      rfl

theorem runAlu_falls (op : UInt8) (useX : Bool) (k : UInt32) :
    FallsThrough pc (self.runAlu op useX k pc) := by
  unfold BpfVm.runAlu
  cases result : self.alu op useX k with
  | none => exact absurd result (alu_ne_panic self op useX k)
  | some vm => rfl

end Arms

/-! ## Jumps -/

/-- A jump at `pc` moves forward: its targets are computed without overflow,
and an unconditional one names a later index. -/
def JumpsForward (ins : BpfInsn) (pc : Nat) : Prop :=
  (ins.code &&& 0x07).toUInt8 = bpfJmp →
    pc % 2 ^ 32 + max ins.jt.toNat ins.jf.toNat + 1 < 2 ^ 32 ∧
    ((ins.code &&& 0x70).toUInt8 = bpfJa → pc < ins.k.toNat) ∧
    ((ins.code &&& 0x70).toUInt8 ∈ [bpfJeq, bpfJgt, bpfJge, bpfJset] → pc < 2 ^ 32)

theorem target_forward_iff {pc : Nat} {jt jf : UInt8} (taken : Prop) [Decidable taken]
    (first : pc % 2 ^ 32 + jt.toNat + 1 < 2 ^ 32) (second : pc % 2 ^ 32 + jf.toNat + 1 < 2 ^ 32) :
    pc < (if taken then UInt32.ofNat (pc + jt.toNat + 1)
      else UInt32.ofNat (pc + jf.toNat + 1)).toNat ↔ pc < 2 ^ 32 := by
  split <;> rw [UInt32.toNat_ofNat'] <;> omega

theorem runJump_advances_iff (self : BpfVm) (ins : BpfInsn) (pc : Nat)
    (isJump : (ins.code &&& 0x07).toUInt8 = bpfJmp) :
    Advances pc (self.runJump ins pc) ↔ JumpsForward ins pc := by
  simp only [BpfVm.runJump, BpfVm.jumpTarget_eq, JumpsForward, isJump, true_imp_iff]
  generalize (ins.code &&& 0x70).toUInt8 = op
  by_cases first : pc % 2 ^ 32 + ins.jt.toNat + 1 < 2 ^ 32
  · by_cases second : pc % 2 ^ 32 + ins.jf.toNat + 1 < 2 ^ 32
    · have both : pc % 2 ^ 32 + max ins.jt.toNat ins.jf.toNat + 1 < 2 ^ 32 := by omega
      simp only [first, second, both, ↓reduceIte, true_and]
      by_cases always : op = bpfJa
      · subst always
        simp +decide [Advances]
      simp only [always, ↓reduceIte, false_imp_iff, true_and]
      by_cases test : op ∈ [bpfJeq, bpfJgt, bpfJge, bpfJset]
      · have forward (taken : Prop) [Decidable taken] :=
          target_forward_iff taken first second
        simp only [test, true_imp_iff]
        simp only [List.mem_cons, List.not_mem_nil, or_false] at test
        rcases test with rfl | rfl | rfl | rfl
        all_goals
          simp +decide only [↓reduceIte]
          exact forward _
      · simp only [test, false_imp_iff, iff_true]
        simp only [List.mem_cons, List.not_mem_nil, or_false, not_or] at test
        simp only [test, ↓reduceIte]
        trivial
    · simp only [first, second, ↓reduceIte]
      exact iff_of_false id (by omega)
  · simp only [first, ↓reduceIte]
    exact iff_of_false id (by omega)

/-- Only jumps do anything else than go on to the following instruction. -/
theorem runInsn_falls (self : BpfVm) (ins : BpfInsn) (pkt : List UInt8) (pc : Nat)
    (notJump : (ins.code &&& 0x07).toUInt8 ≠ bpfJmp) :
    FallsThrough pc (self.runInsn ins pkt pc) := by
  simp only [BpfVm.runInsn, notJump, if_false]
  split
  · exact runLoad_falls self ins pkt pc
  split
  · exact runStore_falls self pc _ _
  split
  · exact runAlu_falls self pc _ _ _
  split
  · trivial
  split
  · rfl
  · trivial

theorem runInsn_of_jump (self : BpfVm) {ins : BpfInsn} (pkt : List UInt8) (pc : Nat)
    (isJump : (ins.code &&& 0x07).toUInt8 = bpfJmp) :
    self.runInsn ins pkt pc = self.runJump ins pc := by
  simp +decide only [BpfVm.runInsn, isJump, if_false, if_true]

/-- A pass of the loop moves forward or returns exactly when its instruction is
not a jump that fails to. -/
theorem runInsn_advances_iff (self : BpfVm) (ins : BpfInsn) (pkt : List UInt8) (pc : Nat) :
    Advances pc (self.runInsn ins pkt pc) ↔ JumpsForward ins pc := by
  by_cases isJump : (ins.code &&& 0x07).toUInt8 = bpfJmp
  · rw [runInsn_of_jump self pkt pc isJump]
    exact runJump_advances_iff self ins pc isJump
  · refine iff_of_true (FallsThrough.advances ?_) fun jumps => absurd jumps isJump
    exact runInsn_falls self ins pkt pc isJump

/-! ## Whole runs -/

/-- The run stops: every instruction it executes returns or moves the program
counter forward, so that it executes at most as many as the program has. -/
structure RunTerminates (vm : BpfVm) (program : List BpfInsn) (pkt : List UInt8) : Prop where
  advances : ∀ state, vm.RunReaches program pkt state →
    Advances state.pc (BpfVm.runStep program pkt state)
  returns : ∃ result, vm.run program pkt (program.length + 1) = .halt result
  executed : ∀ count state, vm.run program pkt count = .next state →
    state.pc < program.length → count < program.length

section Run

variable {self : BpfVm} {program : List BpfInsn} {pkt : List UInt8}

theorem RunTerminates.of_advances
    (advances : ∀ state, self.RunReaches program pkt state →
      Advances state.pc (BpfVm.runStep program pkt state)) :
    RunTerminates self program pkt := by
  have grows : ∀ state, self.RunReaches program pkt state → ∀ after,
      BpfVm.runStep program pkt state = .next after → state.pc < after.pc := by
    intro state reached after stepped
    have forward := advances state reached
    rwa [stepped] at forward
  have below : ∀ state, self.RunReaches program pkt state → ∀ after,
      BpfVm.runStep program pkt state = .next after → state.pc < program.length := by
    intro state _ after stepped
    by_contra outside
    rw [BpfVm.runStep_past_end (Nat.not_lt.mp outside)] at stepped
    cases stepped
  refine ⟨advances, ?_, ?_⟩
  · cases outcome : self.run program pkt (program.length + 1) with
    | halt result => exact ⟨result, rfl⟩
    | next state =>
        exact absurd outcome (StepMachine.runFor_not_next_of_rank RunState.pc grows below
          (Nat.le_add_left _ _) state)
    | abort =>
        obtain ⟨state, reached, stepped⟩ := StepMachine.exists_step_of_abort outcome
        have forward := advances state reached
        rw [stepped] at forward
        exact forward.elim
  · intro count state running inside
    have counted := StepMachine.add_le_rank RunState.pc grows running
    have start : self.runStart.pc = 0 := rfl
    omega

/-- A program whose jumps all move forward stops on every packet. -/
theorem RunTerminates.of_forward (self : BpfVm) {program : List BpfInsn}
    (forward : ∀ pc ins, program[pc]? = some ins → JumpsForward ins pc) (pkt : List UInt8) :
    RunTerminates self program pkt := by
  refine .of_advances fun state _ => ?_
  cases here : program[state.pc]? with
  | some ins =>
      rw [BpfVm.runStep_of_getElem? here]
      exact (runInsn_advances_iff state.vm ins pkt state.pc).mpr (forward state.pc ins here)
  | none =>
      rw [BpfVm.runStep_past_end (List.getElem?_eq_none_iff.mp here)]
      trivial

/-- **Termination.** The run stops within the length of the program, each
executed instruction moving forward, exactly when every jump it executes moves
forward. -/
theorem runTerminates_iff (self : BpfVm) (program : List BpfInsn) (pkt : List UInt8) :
    RunTerminates self program pkt ↔
      ∀ state ins, self.RunReaches program pkt state → program[state.pc]? = some ins →
        JumpsForward ins state.pc := by
  constructor
  · intro terminates state ins reached here
    have forward := terminates.advances state reached
    rw [BpfVm.runStep_of_getElem? here] at forward
    exact (runInsn_advances_iff state.vm ins pkt state.pc).mp forward
  · intro forward
    refine .of_advances fun state reached => ?_
    cases here : program[state.pc]? with
    | some ins =>
        rw [BpfVm.runStep_of_getElem? here]
        exact (runInsn_advances_iff state.vm ins pkt state.pc).mpr (forward state ins reached here)
    | none =>
        rw [BpfVm.runStep_past_end (List.getElem?_eq_none_iff.mp here)]
        trivial

/-- An unconditional jump to its own index never ends. -/
theorem not_runTerminates_self_jump :
    ¬ ∀ (self : BpfVm) (program : List BpfInsn) (pkt : List UInt8),
      ∃ fuel result, self.run program pkt fuel = .halt result := by
  intro stops
  obtain ⟨fuel, result, halted⟩ := stops BpfVm.new [⟨0x05, 0, 0, 0⟩] []
  have stuck : BpfVm.runStep [⟨0x05, 0, 0, 0⟩] [] BpfVm.new.runStart =
      .next BpfVm.new.runStart := by decide
  have forever : ∀ count, BpfVm.new.run [⟨0x05, 0, 0, 0⟩] [] count =
      .next BpfVm.new.runStart := by
    intro count
    induction count with
    | zero => rfl
    | succ count ih => exact (StepMachine.runFor_succ_of_next stuck count).trans ih
  rw [forever fuel] at halted
  cases halted

end Run

end Wnr.Pcap
