import MiniRiscV.Lib.Rv32i
import MiniRiscV.Rtl.Run

/-! The comparisons of the branches and of `SLT` and `SLTU`, from the operands to their effect. -/

namespace MiniRiscV

open ControlLogic

/-- No word is less than itself, in either order. -/
private theorem not_less_self (a : Word) : a.slt a = false ∧ a.ult a = false := by
  simp [BitVec.slt, BitVec.ult]

/-- `branch_comp` answers with equality and with one of the two orders. -/
theorem branchComp_eq (aI bI : Word) (brUnI : Bool) :
    branchComp aI bI brUnI =
      { brEqO := aI = bI, brLTO := if brUnI then aI.slt bI else aI.ult bI } := by
  unfold branchComp
  by_cases same : aI = bI
  · -- Equal operands are in neither order.
    subst same
    cases brUnI <;> simp [not_less_self]
  · cases brUnI <;> simp [same]

/-- A result set by a comparison is the answer of the comparison. -/
theorem alu_setLessThan (signed : Prop) [Decidable signed] (a b x y : Word) :
    alu (setLessThan (a = b) (if signed then a.slt b else a.ult b)).code x y =
      if (if signed then a.slt b else a.ult b) then 1 else 0 := by
  by_cases same : a = b
  · -- Equal operands give zero, as neither is less than the other.
    subst same
    by_cases order : signed <;> simp [order, not_less_self, setLessThan, alu, AluOp.code]
  · by_cases order : signed
    · cases a.slt b <;> simp [order, same, setLessThan, alu, AluOp.code]
    · cases a.ult b <;> simp [order, same, setLessThan, alu, AluOp.code]

/-- The instruction is `SLT` or `SLTU`. -/
def SetsLess (inst : Word) : Prop :=
  opcode inst = instRegreg ∧ (funct3 inst = 0b010#3 ∨ funct3 inst = 0b011#3)

/-- The instruction depends on the order of its operands, not only on whether they are equal. -/
def Orders (inst : Word) : Prop :=
  SetsLess inst ∨ (opcode inst = instBranch ∧ (funct3 inst).getLsbD 2)

/-- The field that `br_un_o` is computed from is the upper part of `funct3`. -/
theorem extractLsb'_funct3 (inst : Word) :
    inst.extractLsb' 13 2 = (funct3 inst).extractLsb' 1 2 := by
  -- Both sides read the same two bits of the word.
  ext i inside
  simp only [funct3, BitVec.getElem_extractLsb', BitVec.getLsbD_extractLsb']
  rw [decide_eq_true (by omega), Bool.true_and, ← Nat.add_assoc]

namespace Core

variable {s : Core}

/-- A comparison has the effect that RV32I defines for the two forwarded operands. -/
structure ComparesRight (s : Core) (written : Word) : Prop where
  set : SetsLess s.instReg0 →
    written = Rv32i.setLess (funct3 s.instReg0) (s.br1 false) (s.br2 false)
  branch : opcode s.instReg0 = instBranch →
    (s.taken ↔ Rv32i.Branches (funct3 s.instReg0) (s.br1 false) (s.br2 false))

/-- A branch decides as RV32I defines, unless the order matters and the signs differ. -/
theorem taken_iff_branches (branch : opcode s.instReg0 = instBranch) :
    (s.taken ↔ Rv32i.Branches (funct3 s.instReg0) (s.br1 false) (s.br2 false)) ↔
      ((funct3 s.instReg0).getLsbD 2 → (s.br1 false).msb = (s.br2 false).msb) := by
  rw [← Rv32i.slt_eq_ult_iff]
  generalize opA : s.br1 false = a
  generalize opB : s.br2 false = b
  -- The mode is signed for `BLTU` and `BGEU`, and unsigned for `BLT` and `BGE`.
  have mode : (s.comp false) =
      { brEqO := a = b
        brLTO := if (funct3 s.instReg0).extractLsb' 1 2 = 0b11#2 then a.slt b else a.ult b } := by
    simp [comp, branchComp_eq, opA, opB, brUnO, branch, extractLsb'_funct3, instBranch, instRegreg,
      instRegimm]
  simp only [taken, branchTaken, branch, mode, Rv32i.Branches, ← BitVec.slt_iff_toInt_lt,
    ← BitVec.lt_def, ← BitVec.ult_iff_lt]
  -- Five of the codes are settled by evaluation: equality, the reserved ones, and `BLT`.
  rcases funct3_cases (funct3 s.instReg0) with f | f | f | f | f | f | f | f
  all_goals simp [f]
  · -- `BLTU` is taken on the signed order.
    exact eq_comm
  all_goals
    by_cases same : a = b
    · simp [same, not_less_self]
    · cases a.slt b <;> cases a.ult b <;> simp [same]

/-- The result of `SLT` and `SLTU`: each uses the order of the other. -/
theorem resultR_setsLess (sets : SetsLess s.instReg0) :
    s.resultR false =
      if (if funct3 s.instReg0 = 0b011#3 then (s.br1 false).slt (s.br2 false)
        else (s.br1 false).ult (s.br2 false)) then 1 else 0 := by
  obtain ⟨regreg, code⟩ := sets
  generalize opA : s.br1 false = a
  generalize opB : s.br2 false = b
  have mode : (s.comp false) =
      { brEqO := a = b
        brLTO := if funct3 s.instReg0 = 0b011#3 then a.slt b else a.ult b } := by
    simp [comp, branchComp_eq, opA, opB, brUnO, regreg, instBranch, instRegreg, instRegimm]
  -- The operation is one of the two constants, chosen by the comparison.
  have operation : aluOpO false s.instReg0 (s.comp false).brEqO (s.comp false).brLTO =
      setLessThan (s.comp false).brEqO (s.comp false).brLTO := by
    rcases code with code | code <;> simp [aluOpO, regreg, code]
  rw [resultR, operation, mode]
  exact alu_setLessThan _ a b _ _

/-- `SLT` and `SLTU` give what RV32I defines exactly when the two signs agree. -/
theorem resultR_eq_setLess (sets : SetsLess s.instReg0) :
    s.resultR false = Rv32i.setLess (funct3 s.instReg0) (s.br1 false) (s.br2 false) ↔
      (s.br1 false).msb = (s.br2 false).msb := by
  rw [resultR_setsLess sets, ← Rv32i.slt_eq_ult_iff]
  simp only [Rv32i.setLess, ← BitVec.slt_iff_toInt_lt, ← BitVec.lt_def, ← BitVec.ult_iff_lt]
  generalize (s.br1 false) = a
  generalize (s.br2 false) = b
  -- The code chooses the order, and the other one is used.
  rcases sets.2 with code | code
  all_goals cases signed : a.slt b <;> cases unsigned : a.ult b <;> simp [code]

/-- A comparison is right in both its forms, unless it depends on the order and the signs differ. -/
theorem comparesRight_iff_of_written {written : Word}
    (result : SetsLess s.instReg0 → written = s.resultR false) :
    s.ComparesRight written ↔
      (Orders s.instReg0 → (s.br1 false).msb = (s.br2 false).msb) := by
  -- The two forms do not overlap, and each has its own condition.
  constructor
  · rintro right (sets | ⟨branch, order⟩)
    · rw [← resultR_eq_setLess sets, ← result sets]
      exact right.set sets
    · exact (taken_iff_branches branch).mp (right.branch branch) order
  · intro signs
    refine ⟨fun sets => ?_, fun branch => ?_⟩
    · rw [result sets]
      exact (resultR_eq_setLess sets).mpr (signs (.inl sets))
    · exact (taken_iff_branches branch).mpr fun order => signs (.inr ⟨branch, order⟩)

end Core

/--
In every state of a run, the comparison in execute has the effect that RV32I defines exactly
when it is one for equality or its operands have the same sign bit.
-/
theorem Riscv.comparesRight_iff {n : ℕ} {outer : Word → BitVec 8} {outerInst : BitVec 9 → Word}
    (start : Riscv n) (cycle : ℕ) :
    (start.run outer outerInst cycle).core.ComparesRight
        ((start.run outer outerInst (cycle + 3)).core.registers
          (rd (start.run outer outerInst cycle).core.instReg0)) ↔
      (Orders (start.run outer outerInst cycle).core.instReg0 →
        ((start.run outer outerInst cycle).core.br1 false).msb =
          ((start.run outer outerInst cycle).core.br2 false).msb) := by
  refine Core.comparesRight_iff_of_written fun ⟨regreg, _⟩ => ?_
  -- A register-register instruction has a result, which is neither loaded nor a link.
  refine Core.registers_of_result (run_decoded cycle) ?_ ?_ ?_ _ _ _
  · simp [hasResult, regreg, instRegreg, instBranch, instNop, instStore]
  · simp [regreg, instRegreg, instLoad]
  · simp [wbSel2O, regreg, instRegreg, instJalr, instJal]

/--
`addi r1, r0, -1`, `slt r2, r1, r0` and `blt r1, r0, 8`: minus one is not less than zero.

Both comparisons see the unsigned order of the two words.
-/
theorem Riscv.not_comparesRight_minusOne :
    let start := holding [0xFFF00093#32, 0x0000A133#32, 0x0000C463#32]
    ¬ (start.run (fun _ => 0) (fun _ => 0) 3).core.ComparesRight
        ((start.run (fun _ => 0) (fun _ => 0) 6).core.registers 2) ∧
      ¬ (start.run (fun _ => 0) (fun _ => 0) 4).core.ComparesRight
        ((start.run (fun _ => 0) (fun _ => 0) 7).core.registers 8) := by
  -- Minus one is the greatest word in the unsigned order.
  constructor
  · intro right
    exact absurd (right.set ⟨by decide, .inl (by decide)⟩) (by decide)
  · intro right
    exact absurd ((right.branch (by decide)).mpr (by
      right; right; left; decide)) (by decide)

end MiniRiscV
