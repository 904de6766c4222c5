import MiniRiscV.Rtl.Redirect

/-! A branch that is not taken beside the empty word: two runs compared stage by stage. -/

namespace MiniRiscV

open ControlLogic

/-- What is seen of a cycle: the fetch address and the two writes, if any. -/
structure Observed where
  pcO : Word
  regWrite : Option (BitVec 5 × Word)
  memWrite : Option (BitVec 2 × Word × Word)
  deriving DecidableEq

namespace Core

variable {outer : Word → BitVec 8} {s : Core}

/-- The observation of a cycle. -/
def observed (s : Core) : Observed where
  pcO := s.pcO
  regWrite := if regWEnO false s.instReg2 then some (s.out, s.dataDO false) else none
  memWrite :=
    if memRwO false s.instReg1 then some (memSizeO false s.instReg1, s.aluResultO, s.dataWO)
    else none

/-- The same state with the empty word in execute, and what decode keeps beside it. -/
def emptyExecute (s : Core) (a b d : BitVec 5) (imm : Word) : Core :=
  { s with instReg0 := 0, oldAddrAR := a, oldAddrBR := b, intermediate1 := d, immO := imm }

/-- The same state with the empty word in the memory stage. -/
def emptyMemory (s : Core) (d : BitVec 5) (data : Word) : Core :=
  { s with instReg1 := 0, intermediate2 := d, dataWO := data }

/-- The same state with the empty word in write-back, and another word read from the memory. -/
def emptyWriteBack (s : Core) (d : BitVec 5) (read : Word) : Core :=
  { s with instReg2 := 0, out := d, dataO := read }

/-- The empty word in execute gives zero, whatever the comparison answers. -/
theorem resultR_empty (empty : s.instReg0 = 0) : s.resultR false = 0 := by
  have operation : ∀ eq lt, aluOpO false 0#32 eq lt = .outZero := by decide
  simp [resultR, empty, operation, alu, AluOp.code]

/-- The empty word is no taken branch. -/
theorem taken_empty (empty : s.instReg0 = 0) : s.taken = false := by
  have never : ∀ eq lt, branchTaken 0#32 eq lt = false := by decide
  simp [taken, empty, never]

/-- Behind execute only the memory stage is left with a difference. -/
theorem step_emptyExecute (branch : opcode s.instReg0 = instBranch) (notTaken : s.taken = false)
    (a b d : BitVec 5) (imm instL : Word) :
    ∃ data, (s.emptyExecute a b d imm).step outer false instL =
      (s.step outer false instL).emptyMemory d data := by
  refine ⟨(s.emptyExecute a b d imm).br2 false, ?_⟩
  -- Both leave zero on the ALU output, and neither selects the bus.
  have result : (s.emptyExecute a b d imm).resultR false = s.resultR false := by
    rw [resultR_notTaken branch notTaken, resultR_empty rfl]
  have next : (s.emptyExecute a b d imm).pcR false = s.pcR false := by
    rw [pcR_eq, pcR_eq, notTaken, taken_empty rfl]
    rfl
  simp only [step, result, next]
  rfl

/-- A branch in the memory stage is not compared for forwarding, and neither is the empty word. -/
theorem operands_emptyMemory (branch : opcode s.instReg1 = instBranch) (d : BitVec 5)
    (data : Word) :
    (s.emptyMemory d data).br1 false = s.br1 false ∧
      (s.emptyMemory d data).br2 false = s.br2 false := by
  -- Neither word is a producer, so both select codes are those of the same older words.
  have noResult : hasResult s.instReg1 = false := by simp [hasResult, branch]
  constructor
  · simp only [br1, emptyMemory, a1SelO, noResult]
    rfl
  · simp only [br2, emptyMemory, b1SelO, noResult]
    rfl

/-- Behind the memory stage only write-back is left with a difference. -/
theorem step_emptyMemory (branch : opcode s.instReg1 = instBranch) (d : BitVec 5)
    (data instL : Word) :
    (s.emptyMemory d data).step outer false instL =
      (s.step outer false instL).emptyWriteBack d
        (s.mem.dataR outer false memByte s.aluResultO) := by
  obtain ⟨first, second⟩ := operands_emptyMemory branch d data
  -- The stages before see the same operands, and so the same results.
  have compared : (s.emptyMemory d data).comp false = s.comp false := by
    simp only [comp, first, second]
    rfl
  have result : (s.emptyMemory d data).resultR false = s.resultR false := by
    simp only [resultR, reg1O, reg2O, first, second, compared]
    rfl
  have next : (s.emptyMemory d data).pcR false = s.pcR false := by
    simp only [pcR, compared]
    rfl
  -- Neither word writes the memory, and the empty one reads a byte.
  have noStore : memRwO false s.instReg1 = false := by simp [memRwO, branch, instBranch, instStore]
  have emptyNoStore : memRwO false 0#32 = false := by decide
  have size : memSizeO false 0#32 = memByte := by decide
  have emptyReg : (s.emptyMemory d data).instReg1 = 0#32 := rfl
  simp only [step, result, next, second, noStore, emptyReg, emptyNoStore, size]
  rfl

/-- A branch in write-back is not compared for forwarding, and neither is the empty word. -/
theorem operands_emptyWriteBack (branch : opcode s.instReg2 = instBranch) (d : BitVec 5)
    (read : Word) :
    (s.emptyWriteBack d read).br1 false = s.br1 false ∧
      (s.emptyWriteBack d read).br2 false = s.br2 false := by
  have noResult : hasResult s.instReg2 = false := by simp [hasResult, branch]
  have emptyNoResult : hasResult (0 : Word) = false := by decide
  -- Without the write-back bus the operands come from the ALU output or the register file.
  constructor
  · simp only [br1, emptyWriteBack, a1SelO, noResult, emptyNoResult, Bool.false_eq_true, false_and,
      if_false]
    by_cases nop : opcode s.instReg0 = instNop
    · simp [nop]
    · by_cases one : hasResult s.instReg1 ∧ rd s.instReg1 = rs1 s.instReg0 <;> simp [nop, one]
  · simp only [br2, emptyWriteBack, b1SelO, noResult, emptyNoResult, Bool.false_eq_true, false_and,
      if_false]
    by_cases nop : opcode s.instReg0 = instNop
    · simp [nop]
    · by_cases one : hasResult s.instReg1 ∧ needsRs2 s.instReg0 ∧ rs2 s.instReg0 = rd s.instReg1 <;>
        simp [nop, one]

/-- Behind write-back only the program counter is left with a difference. -/
theorem step_emptyWriteBack (branch : opcode s.instReg2 = instBranch) (d : BitVec 5)
    (read instL : Word) :
    (s.emptyWriteBack d read).step outer false instL =
      { s.step outer false instL with pcO := if s.taken then read else s.pcO + 4 } := by
  obtain ⟨first, second⟩ := operands_emptyWriteBack branch d read
  -- The stages before see the same operands, and so the same results.
  have compared : (s.emptyWriteBack d read).comp false = s.comp false := by
    simp only [comp, first, second]
    rfl
  have result : (s.emptyWriteBack d read).resultR false = s.resultR false := by
    simp only [resultR, reg1O, reg2O, first, second, compared]
    rfl
  have taken : (s.emptyWriteBack d read).taken = s.taken := by
    simp only [Core.taken, compared]
    rfl
  -- The empty word selects nothing, so only a branch in execute can load the word that was read.
  have next : (s.emptyWriteBack d read).pcR false = if s.taken then read else s.pcO + 4 := by
    have noControl : controls (0 : Word) = false := by decide
    have select : wbSel1O false (0 : Word) = false := by decide
    rw [pcR_eq, taken]
    simp only [emptyWriteBack, noControl, wb, select, Bool.or_false, Bool.false_eq_true, if_false]
    rfl
  -- Neither word writes a register.
  have noWrite : regWEnO false s.instReg2 = false := by
    simp [regWEnO, branch]
  have emptyNoWrite : regWEnO false 0#32 = false := by decide
  have emptyReg : (s.emptyWriteBack d read).instReg2 = 0#32 := rfl
  simp only [step, result, next, second, noWrite, emptyReg, emptyNoWrite,
    Registers.clockedWrite, Bool.false_eq_true, if_false]
  rfl

/-- A branch in write-back loads what it left on the ALU output. -/
theorem step_pcO_branch (branch : opcode s.instReg2 = instBranch) (instL : Word) :
    (s.step outer false instL).pcO = s.aluO := by
  have control : controls s.instReg2 := by simp [controls, branch]
  change s.pcR false = _
  rw [pcR_eq, control, Bool.or_true, if_pos rfl, wb_of_controls control]

/-- Neither a branch nor the empty word in the memory stage is seen. -/
theorem observed_emptyMemory (branch : opcode s.instReg1 = instBranch) (d : BitVec 5)
    (data : Word) : (s.emptyMemory d data).observed = s.observed := by
  -- Neither word stores, and the write-back stage is the same.
  have noStore : memRwO false s.instReg1 = false := by simp [memRwO, branch, instBranch, instStore]
  simp only [observed, emptyMemory, noStore]
  rfl

/-- Neither a branch nor the empty word in write-back is seen, before its edge. -/
theorem observed_emptyWriteBack (branch : opcode s.instReg2 = instBranch) (d : BitVec 5)
    (read : Word) : (s.emptyWriteBack d read).observed = s.observed := by
  -- Neither word writes a register, and the memory stage is the same.
  have noWrite : regWEnO false s.instReg2 = false := by
    simp [regWEnO, branch]
  simp only [observed, emptyWriteBack, noWrite]
  rfl

end Core

namespace Riscv

variable {n : ℕ} {outer : Word → BitVec 8} {outerInst : BitVec 9 → Word} {s : Riscv n}

/-- The same processor with the word on the fetch bus replaced by the empty word. -/
def emptied (s : Riscv n) : Riscv n := { s with instOut := 0 }

/-- The other run with the empty word in execute. -/
theorem runFrom_emptied_one :
    s.emptied.runFrom outer outerInst 1 =
      { s.runFrom outer outerInst 1 with
        core := (s.runFrom outer outerInst 1).core.emptyExecute (rs1 0) (rs2 0) (rd 0)
          (immGen (immSelO false 0).code 0) } := rfl

variable (branch : opcode s.instOut = instBranch)
  (notTaken : (s.runFrom outer outerInst 1).core.taken = false)

include branch notTaken in
/-- The other run with the empty word in the memory stage. -/
theorem runFrom_emptied_two :
    ∃ data, s.emptied.runFrom outer outerInst 2 =
      { s.runFrom outer outerInst 2 with
        core := (s.runFrom outer outerInst 2).core.emptyMemory (rd 0) data } := by
  -- The word is in execute, where it is not a taken branch.
  have inExecute : opcode (s.runFrom outer outerInst 1).core.instReg0 = instBranch := branch
  obtain ⟨data, same⟩ := @Core.step_emptyExecute outer _ inExecute notTaken (rs1 0) (rs2 0) (rd 0)
    (immGen (immSelO false 0).code 0) (s.runFrom outer outerInst 1).instOut
  refine ⟨data, ?_⟩
  change Riscv.step outer outerInst false (s.emptied.runFrom outer outerInst 1) = _
  rw [runFrom_emptied_one]
  exact step_core rfl same

include branch notTaken in
/-- The other run with the empty word in write-back, which has read the byte at zero. -/
theorem runFrom_emptied_three :
    s.emptied.runFrom outer outerInst 3 =
      { s.runFrom outer outerInst 3 with
        core := (s.runFrom outer outerInst 3).core.emptyWriteBack (rd 0)
          ((s.runFrom outer outerInst 2).core.mem.dataR outer false memByte 0) } := by
  -- The difference moves from the memory stage to write-back.
  obtain ⟨data, before⟩ := runFrom_emptied_two branch notTaken
  have inMemory : opcode (s.runFrom outer outerInst 2).core.instReg1 = instBranch := branch
  have inExecute : opcode (s.runFrom outer outerInst 1).core.instReg0 = instBranch := branch
  -- The address is what the branch itself left on the ALU output.
  have address : (s.runFrom outer outerInst 2).core.aluResultO = 0 :=
    Core.resultR_notTaken inExecute notTaken
  have same := @Core.step_emptyMemory outer _ inMemory (rd 0) data
    (s.runFrom outer outerInst 2).instOut
  rw [address] at same
  change Riscv.step outer outerInst false (s.emptied.runFrom outer outerInst 2) = _
  rw [before]
  exact step_core rfl same

include branch notTaken in
/-- Behind write-back the two runs differ in the program counter at most. -/
theorem runFrom_emptied_four :
    s.emptied.runFrom outer outerInst 4 =
      { s.runFrom outer outerInst 4 with
        core := { (s.runFrom outer outerInst 4).core with
          pcO :=
            -- The difference leaves write-back, and only the fetch address can keep it.
            if (s.runFrom outer outerInst 3).core.taken then
              (s.runFrom outer outerInst 2).core.mem.dataR outer false memByte 0
            else (s.runFrom outer outerInst 3).core.pcO + 4 } } := by
  have before := runFrom_emptied_three branch notTaken
  have inWriteBack : opcode (s.runFrom outer outerInst 3).core.instReg2 = instBranch := branch
  have same := @Core.step_emptyWriteBack outer _ inWriteBack (rd 0)
    ((s.runFrom outer outerInst 2).core.mem.dataR outer false memByte 0)
    (s.runFrom outer outerInst 3).instOut
  change Riscv.step outer outerInst false (s.emptied.runFrom outer outerInst 3) = _
  rw [before]
  exact step_core rfl same

include branch notTaken in
/-- Behind write-back the branch has loaded a zero. -/
theorem runFrom_pcO_four : (s.runFrom outer outerInst 4).core.pcO = 0 := by
  -- What it loads is the zero that it had on the ALU output.
  have inWriteBack : opcode (s.runFrom outer outerInst 3).core.instReg2 = instBranch := branch
  have inExecute : opcode (s.runFrom outer outerInst 1).core.instReg0 = instBranch := branch
  have loaded := @Core.step_pcO_branch outer _ inWriteBack (s.runFrom outer outerInst 3).instOut
  exact loaded.trans (Core.resultR_notTaken inExecute notTaken)

/--
Write-back leaves the two runs at one address.

The branch loads a zero. The empty word lets the fetch go on, unless a branch in execute selects
the bus, which then carries the byte that the empty word read at the address zero.
-/
def FallsThrough (outer : Word → BitVec 8) (memory writeBack : Core) : Prop :=
  if writeBack.taken then memory.mem.dataR outer false memByte 0 = 0 else writeBack.pcO + 4 = 0

instance (memory writeBack : Core) : Decidable (FallsThrough outer memory writeBack) := by
  unfold FallsThrough
  infer_instance

include branch notTaken in
/-- A branch that is not taken is seen as the empty word exactly when both end at one address. -/
theorem observed_emptied_iff :
    (∀ later, (s.runFrom outer outerInst (later + 1)).core.observed =
      (s.emptied.runFrom outer outerInst (later + 1)).core.observed) ↔
      FallsThrough outer (s.runFrom outer outerInst 2).core (s.runFrom outer outerInst 3).core := by
  have four := runFrom_emptied_four branch notTaken
  have loaded := runFrom_pcO_four branch notTaken
  -- The condition says that the two program counters agree behind write-back.
  have condition : FallsThrough outer (s.runFrom outer outerInst 2).core
      (s.runFrom outer outerInst 3).core ↔
      (s.emptied.runFrom outer outerInst 4).core.pcO = (s.runFrom outer outerInst 4).core.pcO := by
    rw [four, loaded, FallsThrough]
    split <;> simp
  rw [condition]
  constructor
  · intro same
    exact (congrArg Observed.pcO (same 3)).symm
  · intro same later
    rcases later with _ | _ | _ | later
    · -- In execute neither word is seen.
      rfl
    · obtain ⟨data, two⟩ := runFrom_emptied_two branch notTaken
      rw [two]
      exact (Core.observed_emptyMemory branch _ _).symm
    · rw [runFrom_emptied_three branch notTaken]
      exact (Core.observed_emptyWriteBack branch _ _).symm
    · -- From there on the two runs are one.
      have merged : s.emptied.runFrom outer outerInst 4 = s.runFrom outer outerInst 4 := by
        rw [four] at same ⊢
        simp only at same
        rw [same]
      rw [show later + 1 + 1 + 1 + 1 = 4 + later by omega, ← runFrom_runFrom, ← runFrom_runFrom,
        merged]

/--
In every run, a branch that is not taken is seen as the empty word exactly when both leave
write-back to one address.
-/
theorem notTaken_iff (start : Riscv n) (cycle : ℕ)
    (branch : opcode (start.run outer outerInst cycle).instOut = instBranch)
    (notTaken : (start.run outer outerInst (cycle + 1)).core.taken = false) :
    (∀ later, (start.run outer outerInst (cycle + (later + 1))).core.observed =
      ((start.run outer outerInst cycle).emptied.runFrom outer outerInst
        (later + 1)).core.observed) ↔
      FallsThrough outer (start.run outer outerInst (cycle + 2)).core
        (start.run outer outerInst (cycle + 3)).core := by
  -- The state at a cycle is one that a run goes on from.
  have states (more : ℕ) : start.run outer outerInst (cycle + more) =
      (start.run outer outerInst cycle).runFrom outer outerInst more :=
    (runFrom_runFrom _ _ _).symm
  simp only [states] at notTaken ⊢
  exact observed_emptied_iff branch notTaken

/-- Behind `sb r0, 0(r0)` a `bne r0, r0, 8` and a taken `beq` two words later agree on zero. -/
theorem notTaken_storedZero :
    let start := holding [0x00000023#32, 0x00001463#32, 0#32, 0x00000463#32]
    ∀ later, (start.run (fun _ => 0) (fun _ => 0) (2 + (later + 1))).core.observed =
      ((start.run (fun _ => 0) (fun _ => 0) 2).emptied.runFrom (fun _ => 0) (fun _ => 0)
        (later + 1)).core.observed :=
  (notTaken_iff (holding [0x00000023#32, 0x00001463#32, 0#32, 0x00000463#32]) 2 (by decide)
    (by decide)).mpr (by decide)

/-- `bne r0, r0, 8` is not taken, and yet the fetch goes back to the address zero behind it. -/
theorem not_notTaken_bne :
    let start := holding [0x00001463#32]
    opcode (start.run (fun _ => 0) (fun _ => 0) 1).instOut = instBranch ∧
      (start.run (fun _ => 0) (fun _ => 0) 2).core.taken = false ∧
      ¬ ∀ later, (start.run (fun _ => 0) (fun _ => 0) (1 + (later + 1))).core.observed =
        ((start.run (fun _ => 0) (fun _ => 0) 1).emptied.runFrom (fun _ => 0) (fun _ => 0)
          (later + 1)).core.observed := by
  -- The program counters differ in the fourth observation.
  refine ⟨by decide, by decide, fun same => ?_⟩
  exact absurd (congrArg Observed.pcO (same 3)) (by decide)

end Riscv
end MiniRiscV
