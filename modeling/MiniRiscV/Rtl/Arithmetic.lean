import MiniRiscV.Rtl.Immediate
import MiniRiscV.Rtl.Run

/-! The arithmetic instructions: what `alu` computes for two registers and for an immediate. -/

namespace MiniRiscV

open ControlLogic

/-- The instruction is this operation on two registers. -/
def Performs (inst : Word) (op : Rv32i.Operation) : Prop :=
  opcode inst = instRegreg ∧ funct3 inst = op.funct3 ∧ funct7 inst = op.funct7

/-- The instruction is this operation on a register and an immediate, of which `sub` has none. -/
def PerformsImm (inst : Word) (op : Rv32i.Operation) : Prop :=
  opcode inst = instRegimm ∧ op ≠ .sub ∧ funct3 inst = op.funct3 ∧
    (op.shifts → funct7 inst = op.funct7)

/-- What an immediate form computes with: the shift amount, or else the extended immediate. -/
def immOperand (inst : Word) (op : Rv32i.Operation) : Word :=
  if op.shifts then (rs2 inst).setWidth 32 else (Rv32i.immI inst).signExtend 32

/-- The enumerator that both modules have for an operation. -/
def aluOpOf : Rv32i.Operation → AluOp
  | .add => .add
  | .sub => .sub
  | .sll => .sll
  | .xor => .xor
  | .srl => .srl
  | .sra => .sra
  | .or => .or
  | .and => .and

/-- The register forms are decoded to the operation that their fields name. -/
theorem aluOpO_performs {inst : Word} {op : Rv32i.Operation} (performs : Performs inst op)
    (brEqI brLtI : Bool) : aluOpO false inst brEqI brLtI = aluOpOf op := by
  obtain ⟨regreg, code, upper⟩ := performs
  -- One case of the table for each operation.
  cases op <;>
    simp [aluOpO, aluOpOf, regreg, code, upper, Rv32i.Operation.funct3, Rv32i.Operation.funct7]

/-- The immediate forms are decoded to the same operation, but for the two right shifts. -/
theorem aluOpO_performsImm {inst : Word} {op : Rv32i.Operation} (performs : PerformsImm inst op)
    (brEqI brLtI : Bool) :
    aluOpO false inst brEqI brLtI = if op = .srl ∨ op = .sra then .outZero else aluOpOf op := by
  obtain ⟨regimm, notSub, code, -⟩ := performs
  -- The table of the immediate forms is another one, without an entry for the right shifts.
  cases op
  case sub => exact absurd rfl notSub
  all_goals
    simp [aluOpO, aluOpOf, regimm, code, Rv32i.Operation.funct3, instRegimm, instRegreg]

/-- The ALU computes every operation but the arithmetic shift, for which it shifts zeros in. -/
theorem alu_aluOpOf (op : Rv32i.Operation) (a b : Word) :
    alu (aluOpOf op).code a b =
      if op = .sra then Rv32i.Operation.result .srl a b else op.result a b := by
  -- The enumerators stand in pairs, and the two right shifts have one meaning.
  cases op <;> simp [alu, aluOpOf, AluOp.code, Rv32i.Operation.result]

/-- The ALU computes an operation exactly when it is not a shift of a sign bit into the number. -/
theorem alu_eq_result_iff (op : Rv32i.Operation) (a b : Word) :
    alu (aluOpOf op).code a b = op.result a b ↔
      (op = .sra → a.msb = false ∨ b.extractLsb' 0 5 = 0) := by
  -- Only the arithmetic shift can go wrong.
  rw [alu_aluOpOf]
  by_cases arithmetic : op = .sra
  · subst arithmetic
    have none : (b.extractLsb' 0 5).toNat = 0 ↔ b.extractLsb' 0 5 = 0 := by
      rw [← BitVec.toNat_inj]
      rfl
    rw [if_pos rfl, ← none]
    exact (Rv32i.ushiftRight_eq_sshiftRight_iff a _).trans ⟨fun either _ => either, fun h => h rfl⟩
  · simp [arithmetic]

/-- The ALU uses five bits of a shift amount. -/
theorem alu_shift {op : Rv32i.Operation} (shift : op.shifts) (a : Word) {b b' : Word}
    (same : b.extractLsb' 0 5 = b'.extractLsb' 0 5) :
    alu (aluOpOf op).code a b = alu (aluOpOf op).code a b' := by
  -- The results of the three shifts have these five bits only.
  rw [alu_aluOpOf, alu_aluOpOf]
  cases op <;> simp [Rv32i.Operation.shifts] at shift <;> simp [Rv32i.Operation.result, same]

/-- The lower half of the immediate of a shift is the field of the second register. -/
theorem shamt_immI (inst : Word) :
    ((Rv32i.immI inst).signExtend 32).extractLsb' 0 5 =
      ((rs2 inst).setWidth 32).extractLsb' 0 5 := by
  -- Both are the bits from 20 to 24 of the word.
  refine BitVec.eq_of_getLsbD_eq fun i inside => ?_
  rw [BitVec.getLsbD_extractLsb', BitVec.getLsbD_extractLsb', BitVec.getLsbD_signExtend]
  simp [Rv32i.immI, rs2, inside, show i < 12 by omega, show i < 32 by omega]

namespace Core

variable {outer : Word → BitVec 8} {s t : Core} {op : Rv32i.Operation}

/-- A register form computes with the two forwarded operands. -/
theorem resultR_performs (performs : Performs s.instReg0 op) :
    s.resultR false = alu (aluOpOf op).code (s.br1 false) (s.br2 false) := by
  -- Neither the program counter nor an immediate takes the place of an operand.
  have regreg := performs.1
  rw [resultR, aluOpO_performs performs]
  simp [reg1O, reg2O, a2SelO, b2SelO, regreg, instRegreg, instBranch, instJal, instJalr,
    instAuipc]

/--
The latched result of a register form is the one of RV32I, unless it is an arithmetic shift of a
negative number.
-/
theorem aluResultO_performs_iff (performs : Performs s.instReg0 op) (instL : Word) :
    (s.step outer false instL).aluResultO = op.result (s.br1 false) (s.br2 false) ↔
      (op = .sra → (s.br1 false).msb = false ∨ (s.br2 false).extractLsb' 0 5 = 0) := by
  -- What is latched is the combinational result.
  have latched : (s.step outer false instL).aluResultO = s.resultR false := rfl
  rw [latched, resultR_performs performs]
  exact alu_eq_result_iff op _ _

/-- An immediate form computes with the first operand and the latched immediate. -/
theorem resultR_performsImm (performs : PerformsImm s.instReg0 op) :
    s.resultR false =
      if op = .srl ∨ op = .sra then 0 else alu (aluOpOf op).code (s.br1 false) s.immO := by
  have regimm := performs.1
  rw [resultR, aluOpO_performsImm performs]
  -- The immediate takes the place of the second operand only.
  have first : s.reg1O false = s.br1 false := by
    simp [reg1O, a2SelO, regimm, instRegimm, instBranch, instJal, instJalr, instAuipc]
  have second : s.reg2O false = s.immO := by
    simp [reg2O, b2SelO, regimm, instRegimm, instRegreg, instNop]
  rw [first, second]
  split
  · rfl
  · rfl

/-- An immediate form gives zero for the right shifts, and else what the register form gives. -/
theorem resultR_performsImm_eq (inv : Decoded s) (performs : PerformsImm s.instReg0 op) :
    s.resultR false =
      if op = .srl ∨ op = .sra then 0
      else alu (aluOpOf op).code (s.br1 false) (immOperand s.instReg0 op) := by
  rw [resultR_performsImm performs, inv.imm0, immGen_regimm performs.1, immOperand]
  by_cases shift : op.shifts
  · -- The immediate of a shift has the amount in its five lowest bits.
    rw [if_pos shift, alu_shift shift _ (shamt_immI s.instReg0)]
  · rw [if_neg shift]

/-- A right shift gives zero in its register form exactly when it shifts out all of its operand. -/
theorem alu_rightShift_eq_zero_iff (right : op = .srl ∨ op = .sra) (inst a : Word) :
    0 = alu (aluOpOf op).code a (immOperand inst op) ↔ a.toNat < 2 ^ (rs2 inst).toNat := by
  have amount : ((rs2 inst).setWidth 32).extractLsb' 0 5 = rs2 inst := by
    refine BitVec.eq_of_getLsbD_eq fun i inside => ?_
    rw [BitVec.getLsbD_extractLsb', BitVec.getLsbD_setWidth]
    simp [inside, show i < 32 by omega]
  -- The ALU takes both for the logical shift.
  have shifted : alu (aluOpOf op).code a (immOperand inst op) = a >>> (rs2 inst).toNat := by
    rw [alu_aluOpOf]
    rcases right with rfl | rfl <;>
      simp [immOperand, Rv32i.Operation.shifts, Rv32i.Operation.result, amount]
  rw [shifted, eq_comm]
  exact Rv32i.ushiftRight_eq_zero_iff a _

/-- The two forms of an operation agree, but for a right shift that leaves something. -/
theorem resultR_performsImm_iff (inv : Decoded s) (imm : PerformsImm s.instReg0 op)
    (reg : Performs t.instReg0 op) (first : t.br1 false = s.br1 false)
    (second : t.br2 false = immOperand s.instReg0 op) :
    s.resultR false = t.resultR false ↔
      (op = .srl ∨ op = .sra → (s.br1 false).toNat < 2 ^ (rs2 s.instReg0).toNat) := by
  -- The operands are the same, so only the zero of the right shifts can differ.
  rw [resultR_performsImm_eq inv imm, resultR_performs reg, first, second]
  by_cases right : op = .srl ∨ op = .sra
  · rw [if_pos right, alu_rightShift_eq_zero_iff right]
    exact ⟨fun small _ => small, fun small => small right⟩
  · simp [right]

end Core

namespace Riscv

/-- `addi r1, r0, -1`, `addi r2, r0, 1`, `sub r3, r1, r2`: the difference is the one of RV32I. -/
theorem aluResultO_performs_sub :
    let s := ((holding [0xFFF00093#32, 0x00100113#32, 0x402081B3#32]).run (fun _ => 0) (fun _ => 0)
      4).core
    (s.step (fun _ => 0) false 0).aluResultO =
      Rv32i.Operation.result .sub (s.br1 false) (s.br2 false) :=
  (Core.aluResultO_performs_iff ⟨by decide, by decide, by decide⟩ 0).mpr (by decide)

/-- `addi r1, r0, -1`, `addi r2, r0, 1`, `sra r3, r1, r2`: half of minus one is positive. -/
theorem not_aluResultO_performs_sra :
    let s := ((holding [0xFFF00093#32, 0x00100113#32, 0x4020D1B3#32]).run (fun _ => 0) (fun _ => 0)
      4).core
    Performs s.instReg0 .sra ∧ (s.step (fun _ => 0) false 0).aluResultO ≠
      Rv32i.Operation.result .sra (s.br1 false) (s.br2 false) :=
  ⟨⟨by decide, by decide, by decide⟩, by decide⟩

/--
In two runs, an instruction with an immediate and the one with that value in its second register
latch the same result, but for a right shift that leaves something of its operand.
-/
theorem immediateForm_iff {n n' : ℕ} {outer outer' : Word → BitVec 8}
    {outerInst outerInst' : BitVec 9 → Word} (start : Riscv n) (start' : Riscv n')
    (cycle cycle' : ℕ) {op : Rv32i.Operation}
    (imm : PerformsImm (start.run outer outerInst cycle).core.instReg0 op)
    (reg : Performs (start'.run outer' outerInst' cycle').core.instReg0 op)
    (first : (start'.run outer' outerInst' cycle').core.br1 false =
      (start.run outer outerInst cycle).core.br1 false)
    (second : (start'.run outer' outerInst' cycle').core.br2 false =
      immOperand (start.run outer outerInst cycle).core.instReg0 op) :
    (start.run outer outerInst (cycle + 1)).core.aluResultO =
        (start'.run outer' outerInst' (cycle' + 1)).core.aluResultO ↔
      (op = .srl ∨ op = .sra →
        ((start.run outer outerInst cycle).core.br1 false).toNat <
          2 ^ (rs2 (start.run outer outerInst cycle).core.instReg0).toNat) :=
  Core.resultR_performsImm_iff (run_decoded cycle) imm reg first second

/-- `slli r3, r1, 3` for a five, and `sll r3, r1, r2` for a five and a three. -/
theorem immediateForm_slli :
    ((holding [0x00500093#32, 0x00309193#32]).run (fun _ => 0) (fun _ => 0) 4).core.aluResultO =
      ((holding [0x00500093#32, 0x00300113#32, 0x002091B3#32]).run (fun _ => 0) (fun _ => 0)
        5).core.aluResultO :=
  (@immediateForm_iff 20 20 (fun _ => 0) (fun _ => 0) (fun _ => 0) (fun _ => 0)
    (holding [0x00500093#32, 0x00309193#32])
    (holding [0x00500093#32, 0x00300113#32, 0x002091B3#32]) 3 4 .sll
    ⟨by decide, by decide, by decide, by decide⟩ ⟨by decide, by decide, by decide⟩ (by decide)
    (by decide)).mpr (by decide)

/-- `srli r3, r1, 1` for a five gives zero, and `srl r3, r1, r2` for a five and a one gives two. -/
theorem not_immediateForm_srli :
    let s := (holding [0x00500093#32, 0x0010D193#32]).run (fun _ => 0) (fun _ => 0)
    let t := (holding [0x00500093#32, 0x00100113#32, 0x0020D1B3#32]).run (fun _ => 0) (fun _ => 0)
    (PerformsImm (s 3).core.instReg0 .srl ∧ Performs (t 4).core.instReg0 .srl) ∧
      ((t 4).core.br1 false = (s 3).core.br1 false ∧
        (t 4).core.br2 false = immOperand (s 3).core.instReg0 .srl) ∧
      (s 4).core.aluResultO ≠ (t 5).core.aluResultO := by
  -- The decoding of both words, their operands, and the two results.
  refine ⟨⟨⟨by decide, by decide, by decide, by decide⟩, ⟨by decide, by decide, by decide⟩⟩,
    ⟨by decide, by decide⟩, by decide⟩

end Riscv
end MiniRiscV
