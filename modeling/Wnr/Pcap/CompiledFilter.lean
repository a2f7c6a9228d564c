import Wnr.Pcap.BpfTermination
import Wnr.Pcap.Filter

/-! # Compiled programs end

A program without unconditional jumps that is not near the width of a jump
target stops on every packet, and every program that the filter compiler makes is
of this kind (`Wnr.Pcap.FilterBuilder.compile_forward`). So a filter that a
capture has accepted gives a verdict on every packet.
-/

namespace Wnr.Pcap

/-- The opcode is not that of an unconditional jump. -/
def NoJa (code : UInt16) : Prop :=
  (code &&& 0x07).toUInt8 = bpfJmp → (code &&& 0x70).toUInt8 ≠ bpfJa

instance (code : UInt16) : Decidable (NoJa code) :=
  inferInstanceAs (Decidable ((code &&& 0x07).toUInt8 = bpfJmp → (code &&& 0x70).toUInt8 ≠ bpfJa))

theorem jumpsForward_of_noJa {ins : BpfInsn} {pc : Nat} (noJa : NoJa ins.code)
    (near : pc + 256 < 2 ^ 32) : JumpsForward ins pc := by
  have trueOffset := ins.jt.toNat_lt
  have falseOffset := ins.jf.toNat_lt
  intro isJump
  refine ⟨?_, fun always => absurd always (noJa isJump), fun _ => by omega⟩
  rw [Nat.mod_eq_of_lt (by omega)]
  omega

/-- A program whose jumps all move forward, as a filter that is in force. -/
structure ForwardProgram extends BpfProgram where
  forward : ∀ pc ins, insns[pc]? = some ins → JumpsForward ins pc

theorem forward_of_noJa {insns : List BpfInsn} (noJa : ∀ ins ∈ insns, NoJa ins.code)
    (short : insns.length + 256 < 2 ^ 32) (pc : Nat) (ins : BpfInsn)
    (here : insns[pc]? = some ins) : JumpsForward ins pc := by
  obtain ⟨inside, rfl⟩ := List.getElem?_eq_some_iff.mp here
  exact jumpsForward_of_noJa (noJa _ (List.getElem_mem inside)) (by omega)

theorem noJa_loadInsn {size : UInt8} (known : size ∈ [bpfW, bpfH, bpfB]) (k : UInt32) :
    NoJa (loadInsn bpfLd size k).code := by
  simp only [List.mem_cons, List.not_mem_nil, or_false] at known
  change NoJa (bpfLd.toUInt16 ||| size.toUInt16 ||| bpfAbs.toUInt16)
  rcases known with rfl | rfl | rfl <;> decide

theorem noJa_jmpInsn {op : UInt8} (known : op ∈ [bpfJeq, bpfJgt, bpfJge]) (k : UInt32)
    (jt jf : UInt8) : NoJa (jmpInsn op k jt jf).code := by
  simp only [List.mem_cons, List.not_mem_nil, or_false] at known
  change NoJa (bpfJmp.toUInt16 ||| op.toUInt16)
  rcases known with rfl | rfl | rfl <;> decide

theorem noJa_ret (k : UInt32) : NoJa (ret k).code := by
  change NoJa (bpfRet.toUInt16 ||| bpfK.toUInt16)
  decide

/-- A load, a comparison and the two returns. -/
theorem noJa_test {size op : UInt8} (knownSize : size ∈ [bpfW, bpfH, bpfB])
    (knownOp : op ∈ [bpfJeq, bpfJgt, bpfJge]) (k target : UInt32) (jt jf : UInt8) :
    ∀ ins ∈ [loadInsn bpfLd size k, jmpInsn op target jt jf, ret bpfReject, ret bpfAccept],
      NoJa ins.code := by
  simp only [List.forall_mem_cons, List.not_mem_nil, false_implies, implies_true, and_true]
  exact ⟨noJa_loadInsn knownSize k, noJa_jmpInsn knownOp target jt jf, noJa_ret _, noJa_ret _⟩

theorem compilePrimitive_noJa {p : Primitive} {linktype : Int32} {insns : List BpfInsn}
    (compiled : compilePrimitive p linktype = .ok insns) :
    (∀ ins ∈ insns, NoJa ins.code) ∧ insns.length ≤ 8 := by
  have accept : ∀ ins ∈ [ret bpfAccept], NoJa ins.code := by
    simp only [List.forall_mem_singleton]
    exact noJa_ret _
  cases p with
  | all | port port | portRange first last =>
      cases compiled
      exact ⟨accept, by decide⟩
  | proto number =>
      rw [compilePrimitive] at compiled
      split at compiled
      · cases compiled
        exact ⟨noJa_test (by decide) (by decide) _ _ _ _, le_of_eq_of_le rfl (by decide : 4 ≤ 8)⟩
      · cases compiled
        exact ⟨noJa_test (by decide) (by decide) _ _ _ _, le_of_eq_of_le rfl (by decide : 4 ≤ 8)⟩
  | hostIpv4 ip =>
      cases compiled
      refine ⟨?_, le_of_eq_of_le rfl (by decide : 8 ≤ 8)⟩
      intro ins member
      rcases List.mem_append.mp (show ins ∈ [_, _, _, _] ++ [_, _, _, _] from member) with
        destination | source
      · exact noJa_test (by decide) (by decide) _ _ _ _ ins destination
      · exact noJa_test (by decide) (by decide) _ _ _ _ ins source
  | broadcast =>
      cases compiled
      exact ⟨noJa_test (by decide) (by decide) _ _ _ _, le_of_eq_of_le rfl (by decide : 4 ≤ 8)⟩
  | multicast =>
      cases compiled
      refine ⟨?_, le_of_eq_of_le rfl (by decide : 5 ≤ 8)⟩
      simp only [List.forall_mem_cons, List.not_mem_nil, false_implies, implies_true, and_true]
      exact ⟨noJa_loadInsn (by decide) _, noJa_jmpInsn (by decide) _ _ _,
        noJa_jmpInsn (by decide) _ _ _, noJa_ret _, noJa_ret _⟩

/-- A compiled program is the code of the primitive that was read, with a return after it. -/
theorem FilterBuilder.compile_cases {expr : String} {linktype : Int32} {program : BpfProgram}
    (compiled : FilterBuilder.compile expr linktype = .ok program) :
    (tokenize expr = [] ∧ program = ⟨[ret bpfAccept]⟩) ∨
      ∃ p after insns, parsePrimitive ⟨tokenize expr, 0⟩ = .ok (p, after) ∧
        compilePrimitive p linktype = .ok insns ∧ program = ⟨insns ++ [ret bpfAccept]⟩ := by
  simp only [FilterBuilder.compile] at compiled
  split at compiled
  · rename_i empty
    cases compiled
    exact .inl ⟨empty, rfl⟩
  · split at compiled
    · cases compiled
    · rename_i p after parsed
      split at compiled
      · cases compiled
      · rename_i insns made
        cases compiled
        exact .inr ⟨p, after, insns, parsed, made, rfl⟩

/-- Every program that the compiler makes jumps forward only. -/
theorem FilterBuilder.compile_forward {expr : String} {linktype : Int32} {program : BpfProgram}
    (compiled : FilterBuilder.compile expr linktype = .ok program) (pc : Nat) (ins : BpfInsn)
    (here : program.insns[pc]? = some ins) : JumpsForward ins pc := by
  have accept := noJa_ret bpfAccept
  rcases compile_cases compiled with ⟨-, rfl⟩ | ⟨p, after, insns, -, made, rfl⟩
  · refine forward_of_noJa ?_ (by decide) pc ins here
    simpa only [List.forall_mem_singleton] using accept
  · obtain ⟨noJa, short⟩ := compilePrimitive_noJa made
    refine forward_of_noJa ?_ ?_ pc ins here
    · intro other member
      rcases List.mem_append.mp member with inside | last
      · exact noJa other inside
      · obtain rfl := List.mem_singleton.mp last
        exact accept
    · rw [List.length_append, List.length_singleton]
      omega

/-- The program that an accepted expression puts in force. -/
def ForwardProgram.ofCompiled {expr : String} {linktype : Int32} {program : BpfProgram}
    (compiled : FilterBuilder.compile expr linktype = .ok program) : ForwardProgram :=
  { program with forward := FilterBuilder.compile_forward compiled }

/-! ## Verdicts -/

namespace BpfVm

/-- `BpfVm::run` of a program that jumps forward only: a value and the
interpreter as the run leaves it. -/
def runForward (self : BpfVm) (program : ForwardProgram) (pkt : List UInt8) : UInt32 × BpfVm :=
  match ended : self.run program.insns pkt (program.insns.length + 1) with
  | .halt result => result
  | .next _ | .abort => False.elim (by
      obtain ⟨result, halted⟩ := (RunTerminates.of_forward self program.forward pkt).returns
      rw [halted] at ended
      cases ended)

theorem runs_runForward (self : BpfVm) (program : ForwardProgram) (pkt : List UInt8) :
    self.Runs program.insns pkt (self.runForward program pkt).1
      (self.runForward program pkt).2 := by
  obtain ⟨result, halted⟩ := (RunTerminates.of_forward self program.forward pkt).returns
  have same : self.runForward program pkt = result := by
    unfold runForward
    split <;> rename_i ended <;> rw [halted] at ended <;> cases ended
    rfl
  rw [same]
  exact ⟨_, halted⟩

/-- `BpfVm::filter_ok`. -/
def filterOk (self : BpfVm) (program : ForwardProgram) (pkt : List UInt8) : Bool × BpfVm :=
  ((self.runForward program pkt).1 ≠ 0, (self.runForward program pkt).2)

end BpfVm

/-- `BpfProgram::filter`: the verdict of a new interpreter. -/
def ForwardProgram.filter (self : ForwardProgram) (pkt : List UInt8) : Bool :=
  (BpfVm.new.filterOk self pkt).1

theorem ForwardProgram.filter_of_runs {program : ForwardProgram} {pkt : List UInt8}
    {value : UInt32} {vm : BpfVm} (runs : BpfVm.new.Runs program.insns pkt value vm) :
    program.filter pkt = decide (value ≠ 0) := by
  have same := (Prod.mk.inj ((BpfVm.new.runs_runForward program pkt).unique runs)).1
  rw [filter, BpfVm.filterOk, same]

/-- A verdict that is chosen between the two returns. -/
theorem ForwardProgram.filter_iff_of_runs {program : ForwardProgram} {pkt : List UInt8}
    {condition : Prop} [Decidable condition] {vm : BpfVm}
    (runs : BpfVm.new.Runs program.insns pkt (if condition then bpfAccept else bpfReject) vm) :
    program.filter pkt = true ↔ condition := by
  rw [filter_of_runs runs, decide_eq_true_iff]
  split
  · exact iff_of_true (by decide) ‹_›
  · exact iff_of_false (by decide) ‹_›

/-- A program that begins with a return of acceptance accepts every packet. -/
theorem ForwardProgram.filter_accept {program : ForwardProgram} {rest : List BpfInsn}
    (code : program.insns = ret bpfAccept :: rest) (pkt : List UInt8) :
    program.filter pkt = true := by
  have runs : BpfVm.new.Runs program.insns pkt bpfAccept BpfVm.new := by
    rw [code]
    exact ⟨1, rfl⟩
  rw [filter_of_runs runs]
  decide

/-- A verdict does not depend on the runs of the interpreter before it. -/
theorem BpfVm.filterOk_fst (self : BpfVm) (program : ForwardProgram) (pkt : List UInt8) :
    (self.filterOk program pkt).1 = program.filter pkt := by
  rw [ForwardProgram.filter_of_runs (self.runs_runForward program pkt), filterOk]

end Wnr.Pcap
