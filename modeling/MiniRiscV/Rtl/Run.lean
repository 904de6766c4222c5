import MiniRiscV.Rtl.Sequential

/-! The runs of the processor behind a reset, and what the stages hold in every state of a run. -/

namespace MiniRiscV

open ControlLogic

/-- The instruction takes an operand from the register that its `rs1` field names. -/
def readsRs1 (inst : Word) : Bool :=
  opcode inst = instRegreg ∨ opcode inst = instRegimm ∨ opcode inst = instLoad ∨
    opcode inst = instStore ∨ opcode inst = instBranch ∨ opcode inst = instJalr

/-- The instruction selects the write-back bus for the program counter when it is in write-back. -/
def controls (inst : Word) : Bool :=
  opcode inst = instBranch ∨ opcode inst = instJal ∨ opcode inst = instJalr

/-- An instruction with a first register operand is not the no-operation. -/
theorem notNop_of_readsRs1 {inst : Word} (reads : readsRs1 inst) : opcode inst ≠ instNop := by
  -- One case for each of the six kinds of instruction.
  simp only [readsRs1, decide_eq_true_eq] at reads
  rcases reads with is | is | is | is | is | is <;> rw [is] <;> decide

/-- An instruction with a second register operand is not the no-operation. -/
theorem notNop_of_needsRs2 {inst : Word} (reads : needsRs2 inst) : opcode inst ≠ instNop := by
  simp only [needsRs2, decide_eq_true_eq] at reads
  rcases reads with is | is | is <;> rw [is] <;> decide

/-- An instruction with a result is not the no-operation. -/
theorem notNop_of_hasResult {inst : Word} (writes : hasResult inst) : opcode inst ≠ instNop := by
  -- The no-operation is one of the three opcodes without a result.
  intro nop
  simp [hasResult, nop] at writes

/-- The eight values of a `funct3`. -/
theorem funct3_cases (f : BitVec 3) :
    f = 0 ∨ f = 1 ∨ f = 2 ∨ f = 3 ∨ f = 4 ∨ f = 5 ∨ f = 6 ∨ f = 7 := by
  revert f
  decide

/-- A branch adds when it is taken, and gives zero when it is not. -/
theorem aluOpO_branch {inst : Word} (branch : opcode inst = instBranch) (brEqI brLtI : Bool) :
    aluOpO false inst brEqI brLtI = if branchTaken inst brEqI brLtI then .add else .outZero := by
  -- The two blocks test the condition separately, code by code.
  rcases funct3_cases (funct3 inst) with f | f | f | f | f | f | f | f <;>
    simp [aluOpO, branchTaken, branch, f, instBranch, instRegreg, instRegimm, instLoad, instStore]

namespace Core

variable {outer : Word → BitVec 8} {s : Core}

/-- The branch in execute is taken, as it drives `pc_sel_o`. -/
def taken (s : Core) : Bool :=
  branchTaken s.instReg0 (s.comp false).brEqO (s.comp false).brLTO

/-- Only a branch is taken. -/
theorem opcode_of_taken (taken : s.taken) : opcode s.instReg0 = instBranch := by
  simp only [Core.taken, branchTaken, Bool.and_eq_true, decide_eq_true_eq] at taken
  exact taken.1

/-- The next program counter, from the two instructions that can select the write-back bus. -/
theorem pcR_eq (s : Core) :
    s.pcR false = if s.taken || controls s.instReg2 then s.wb false else s.pc4R := by
  -- The two parts of the block that drive the select are one disjunction.
  simp [pcR, pcSelO, taken, controls, Bool.decide_or, or_assoc]

/-- The first operand comes from the youngest of the two older instructions that writes it. -/
theorem br1_eq (notNop : opcode s.instReg0 ≠ instNop) :
    s.br1 false =
      if hasResult s.instReg1 ∧ rd s.instReg1 = rs1 s.instReg0 then s.aluResultO
      else if hasResult s.instReg2 ∧ rd s.instReg2 = rs1 s.instReg0 then s.dataDO false
      else s.registers s.oldAddrAR := by
  -- The select code has one value for each of the three sources.
  simp only [br1, a1SelO]
  by_cases one : hasResult s.instReg1 ∧ rd s.instReg1 = rs1 s.instReg0
  · simp [notNop, one]
  · by_cases two : hasResult s.instReg2 ∧ rd s.instReg2 = rs1 s.instReg0
    · simp [notNop, one, two]
    · simp [notNop, one, two]

/-- The second operand comes from the youngest of the two older instructions that writes it. -/
theorem br2_eq (reads : needsRs2 s.instReg0) :
    s.br2 false =
      if hasResult s.instReg1 ∧ rd s.instReg1 = rs2 s.instReg0 then s.aluResultO
      else if hasResult s.instReg2 ∧ rd s.instReg2 = rs2 s.instReg0 then s.dataDO false
      else s.registers s.oldAddrBR := by
  -- As for the first operand, but only when the instruction reads one.
  have notNop := notNop_of_needsRs2 reads
  simp only [br2, b1SelO, reads, true_and, eq_comm (a := rs2 s.instReg0)]
  by_cases one : hasResult s.instReg1 ∧ rd s.instReg1 = rs2 s.instReg0
  · simp [notNop, one]
  · by_cases two : hasResult s.instReg2 ∧ rd s.instReg2 = rs2 s.instReg0
    · simp [notNop, one, two]
    · simp [notNop, one, two]

/-- What the stages keep beside the instruction words are the fields of these words. -/
structure Decoded (s : Core) : Prop where
  addrD2 : s.out = rd s.instReg2
  addrD1 : s.intermediate2 = rd s.instReg1
  addrD0 : s.intermediate1 = rd s.instReg0
  imm0 : s.immO = immGen (immSelO false s.instReg0).code s.instReg0
  /-- The delayed read addresses have no reset, but matter only behind an instruction. -/
  readAddr0 : opcode s.instReg0 ≠ instNop →
    s.oldAddrAR = rs1 s.instReg0 ∧ s.oldAddrBR = rs2 s.instReg0

namespace Decoded

/-- A reset edge leaves three empty words and their fields. -/
theorem reset (outer : Word → BitVec 8) (s : Core) (instL : Word) :
    Decoded (s.step outer true instL) where
  addrD2 := show 0#5 = rd 0#32 by decide
  addrD1 := show 0#5 = rd 0#32 by decide
  addrD0 := show 0#5 = rd 0#32 by decide
  imm0 := by simp [step, immGen, show immSelO false 0#32 = .immDefault by decide]
  readAddr0 := fun notNop => absurd rfl notNop

/-- Every edge moves the fields along with their words. -/
theorem step (inv : Decoded s) (instL : Word) : Decoded (s.step outer false instL) where
  addrD2 := inv.addrD1
  addrD1 := inv.addrD0
  addrD0 := rfl
  imm0 := rfl
  readAddr0 := fun _ => ⟨rfl, rfl⟩

end Decoded

/-- An edge writes at most the register of the instruction in write-back. -/
theorem step_registers (inv : Decoded s) (instL : Word) (r : BitVec 5) :
    (s.step outer false instL).registers r =
      if hasResult s.instReg2 ∧ rd s.instReg2 = r then s.dataDO false else s.registers r := by
  -- The address in write-back is the destination of the instruction there.
  simp only [step, Bool.false_eq_true, if_false, Registers.clockedWrite, Arch.regWEnO_eq_hasResult,
    inv.addrD2]
  by_cases writes : hasResult s.instReg2
  · by_cases same : r = rd s.instReg2
    · simp [writes, Registers.write, same]
    · simp [writes, Registers.write, same, Ne.symm same]
  · simp [writes]

/-- Three edges behind execute, the register of an instruction holds its ALU result. -/
theorem registers_of_result (inv : Decoded s) (writes : hasResult s.instReg0)
    (notLoad : opcode s.instReg0 ≠ instLoad) (noLink : wbSel2O false s.instReg0 = false)
    (instL instL' instL'' : Word) :
    (((s.step outer false instL).step outer false instL').step outer false instL'').registers
      (rd s.instReg0) = s.resultR false := by
  rw [step_registers ((inv.step instL).step instL')]
  -- The write-back bus carries the result, which has been handed on twice.
  have select : wbSel1O false s.instReg0 = true := by
    simp [wbSel1O, notLoad, notNop_of_hasResult writes]
  have bus : ((s.step outer false instL).step outer false instL').dataDO false =
      s.resultR false := by
    simp [dataDO, wb, step, select, noLink]
  exact (if_pos ⟨writes, rfl⟩).trans bus

end Core

namespace Riscv

variable {n : ℕ} (outer : Word → BitVec 8) (outerInst : BitVec 9 → Word)

/-- The processor after some more edges without reset. -/
def runFrom (s : Riscv n) (cycles : ℕ) : Riscv n :=
  Clocked.run (step outer outerInst) (fun _ => false) s cycles

/--
The processor `cycles` edges behind a reset edge.

What it held before the reset is arbitrary, and so is the program in its instruction memory.
-/
def run (start : Riscv n) (cycles : ℕ) : Riscv n :=
  (start.step outer outerInst true).runFrom outer outerInst cycles

variable {outer outerInst} {start : Riscv n}

/-- A run goes on from any of its states. -/
theorem runFrom_runFrom (s : Riscv n) (cycles more : ℕ) :
    (s.runFrom outer outerInst cycles).runFrom outer outerInst more =
      s.runFrom outer outerInst (cycles + more) := by
  -- Each edge of the continuation is one of the whole run.
  induction more with
  | zero => rfl
  | succ more ih => exact congrArg (step outer outerInst false) ih

/-- With another core that fetches from the same address, the fetch goes on in the same way. -/
theorem step_core {s : Riscv n} {core next : Core} (fetch : core.pcO = s.core.pcO)
    (behind : core.step outer false s.instOut = next) :
    Riscv.step outer outerInst false { s with core } =
      { s.step outer outerInst false with core := next } := by
  subst behind
  simp [step, inst, fetch]

/-- The core of a run steps with the word that the fetch left on the bus. -/
theorem run_succ_core (cycle : ℕ) :
    (start.run outer outerInst (cycle + 1)).core =
      (start.run outer outerInst cycle).core.step outer false
        (start.run outer outerInst cycle).instOut := rfl

/-- In every state of a run the stages hold the fields of their words. -/
theorem run_decoded (cycle : ℕ) : (start.run outer outerInst cycle).core.Decoded := by
  -- The reset establishes the invariant, and every edge shifts it by one word.
  refine Clocked.run_invariant (fun _ (s : Riscv n) => s.core.Decoded)
    (Core.Decoded.reset outer start.core start.instOut) ?_ cycle
  intro _ s inv
  exact inv.step s.instOut

/-- A program is fetched and never changed. -/
theorem run_tabInst (cycle : ℕ) : (start.run outer outerInst cycle).tabInst = start.tabInst := by
  -- No edge writes the instruction memory.
  induction cycle with
  | zero => rfl
  | succ cycle ih => exact ih

/-- The words in the stages and on the fetch bus are words of the program, or empty. -/
theorem run_words (outer : Word → BitVec 8) (holds : Word → Prop) (empty : holds 0)
    (program : ∀ i, holds (start.tabInst i)) (outside : ∀ i, holds (outerInst i)) (cycle : ℕ) :
    holds (start.run outer outerInst cycle).instOut ∧
      holds (start.run outer outerInst cycle).core.instReg0 ∧
      holds (start.run outer outerInst cycle).core.instReg1 ∧
      holds (start.run outer outerInst cycle).core.instReg2 := by
  -- By induction on the edges, from three empty words and an empty bus.
  induction cycle with
  | zero => exact ⟨empty, empty, empty, empty⟩
  | succ cycle ih =>
    -- The words move one stage further, and the next one comes from the memory.
    refine ⟨?_, ih.1, ih.2.1, ih.2.2.1⟩
    change holds ((start.run outer outerInst cycle).inst outerInst)
    simp only [inst]
    split
    · rw [run_tabInst]
      exact program _
    · exact outside _

/-- Without branches and jumps the fetch goes through the addresses in order. -/
theorem run_pcO (program : ∀ i, controls (start.tabInst i) = false)
    (outside : ∀ i, controls (outerInst i) = false) (cycle : ℕ) :
    (start.run outer outerInst cycle).core.pcO = 4 * BitVec.ofNat 32 cycle := by
  -- By induction on the edges: each one goes on by four.
  induction cycle with
  | zero => rfl
  | succ cycle ih =>
    have words := run_words outer (fun inst => controls inst = false) (by decide) program outside
      cycle
    -- Neither the instruction in execute nor the one in write-back selects the bus.
    have notTaken : (start.run outer outerInst cycle).core.taken = false := by
      by_contra taken
      have branch := Core.opcode_of_taken (Bool.eq_true_of_not_eq_false taken)
      have notBranch := words.2.1
      simp [controls, branch] at notBranch
    change (start.run outer outerInst cycle).core.pcR false = _
    rw [Core.pcR_eq, notTaken, words.2.2.2]
    simp only [Bool.or_self, Bool.false_eq_true, if_false, Core.pc4R, ih]
    rw [BitVec.ofNat_add, BitVec.mul_add]
    rfl

/-- A processor with a program in its instruction memory, and empty words behind the program. -/
def holding (program : List Word) : Riscv 20 where
  core := default
  tabInst := fun i => program[i.val]?.getD 0
  instOut := 0

end Riscv
end MiniRiscV
