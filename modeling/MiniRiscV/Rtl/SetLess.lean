import MiniRiscV.Rtl.Comparison
import MiniRiscV.Rtl.Immediate

/-! `SLTI` and `SLTIU`, whose comparison is made with a register in place of the immediate. -/

namespace MiniRiscV

open ControlLogic

/-- The instruction is `SLTI` or `SLTIU`. -/
def SetsLessImm (inst : Word) : Prop :=
  opcode inst = instRegimm ∧ (funct3 inst = 0b010#3 ∨ funct3 inst = 0b011#3)

namespace Core

variable {outer : Word → BitVec 8} {s t : Core}

/-- The value in the register that the bits of the immediate name. -/
def namedByImm (s : Core) : Word := s.registers (rs2 s.instReg0)

/-- Two results that depend on the first operand and the immediate alone, as RV32I has them. -/
structure SetsLessRight (s : Core) (latched latched' : Word) : Prop where
  same : latched = latched'
  slti : funct3 s.instReg0 = 0b010#3 →
    (latched = 1 ↔
      (s.br1 false).toInt < ((Rv32i.immI s.instReg0).signExtend 32).toInt)
  sltiu : funct3 s.instReg0 = 0b011#3 →
    (latched = 1 ↔
      (s.br1 false).toNat < ((Rv32i.immI s.instReg0).signExtend 32).toNat)

/-- The register compares with the first operand in one order as the immediate in the other. -/
structure RegisterAgrees (s : Core) : Prop where
  slti : funct3 s.instReg0 = 0b010#3 →
    ((s.br1 false).toNat < s.namedByImm.toNat ↔
      (s.br1 false).toInt < ((Rv32i.immI s.instReg0).signExtend 32).toInt)
  sltiu : funct3 s.instReg0 = 0b011#3 →
    ((s.br1 false).toInt < s.namedByImm.toInt ↔
      (s.br1 false).toNat < ((Rv32i.immI s.instReg0).signExtend 32).toNat)

/-- An instruction with an immediate leaves its other operand to the register file. -/
theorem br2_of_regimm (inv : Decoded s) (regimm : opcode s.instReg0 = instRegimm) :
    s.br2 false = s.namedByImm := by
  have notNop : opcode s.instReg0 ≠ instNop := by rw [regimm]; decide
  -- Nothing is forwarded to an operand that the instruction does not need.
  have unneeded : needsRs2 s.instReg0 = false := by
    simp [needsRs2, regimm, instRegimm, instBranch, instStore, instRegreg]
  simp [br2, b1SelO, unneeded, namedByImm, (inv.readAddr0 notNop).2]

/-- The result is the comparison with the register, in the order of the other instruction. -/
theorem resultR_setsLessImm (inv : Decoded s) (sets : SetsLessImm s.instReg0) :
    s.resultR false =
      if (if funct3 s.instReg0 = 0b011#3 then (s.br1 false).slt s.namedByImm
        else (s.br1 false).ult s.namedByImm) then 1 else 0 := by
  obtain ⟨regimm, code⟩ := sets
  -- The comparator sits in front of the multiplexer for the immediate.
  have mode : s.comp false =
      { brEqO := s.br1 false = s.namedByImm
        brLTO := if funct3 s.instReg0 = 0b011#3 then (s.br1 false).slt s.namedByImm
          else (s.br1 false).ult s.namedByImm } := by
    rw [comp, branchComp_eq, br2_of_regimm inv regimm]
    simp [brUnO, regimm, instBranch, instRegreg, instRegimm]
  have operation : aluOpO false s.instReg0 (s.comp false).brEqO (s.comp false).brLTO =
      setLessThan (s.comp false).brEqO (s.comp false).brLTO := by
    rcases code with code | code <;> simp [aluOpO, regimm, code, instRegimm, instRegreg]
  rw [resultR, operation, mode]
  exact alu_setLessThan _ _ _ _ _

/-- The result is one exactly when the comparison with the register holds. -/
theorem resultR_eq_one_iff (inv : Decoded s) (sets : SetsLessImm s.instReg0) :
    s.resultR false = 1 ↔
      if funct3 s.instReg0 = 0b011#3 then (s.br1 false).toInt < s.namedByImm.toInt
      else (s.br1 false).toNat < s.namedByImm.toNat := by
  -- The result is the answer of the comparison, as a number.
  rw [resultR_setsLessImm inv sets, ← BitVec.slt_iff_toInt_lt, ← BitVec.lt_def,
    ← BitVec.ult_iff_lt]
  by_cases unsigned : funct3 s.instReg0 = 0b011#3
  · cases (s.br1 false).slt s.namedByImm <;> simp [unsigned]
  · cases (s.br1 false).ult s.namedByImm <;> simp [unsigned]

/-- The result is zero or one. -/
theorem resultR_eq_zero (inv : Decoded s) (sets : SetsLessImm s.instReg0)
    (notOne : s.resultR false ≠ 1) : s.resultR false = 0 := by
  -- There are only these two results.
  rw [resultR_setsLessImm inv sets] at notOne ⊢
  exact if_neg fun holds => notOne (if_pos holds)

/-- The result is the one that the immediate gives exactly when the register agrees with it. -/
theorem registerAgrees_iff (inv : Decoded s) (sets : SetsLessImm s.instReg0) :
    s.RegisterAgrees ↔ s.SetsLessRight (s.resultR false) (s.resultR false) := by
  -- Each side compares one of the two answers with the same result.
  have one := resultR_eq_one_iff inv sets
  constructor
  · intro agrees
    refine ⟨rfl, fun slti => ?_, fun sltiu => ?_⟩
    · rw [one, ← agrees.slti slti]
      simp [slti]
    · rw [one, ← agrees.sltiu sltiu]
      simp [sltiu]
  · intro right
    refine ⟨fun slti => ?_, fun sltiu => ?_⟩
    · rw [← right.slti slti, one]
      simp [slti]
    · rw [← right.sltiu sltiu, one]
      simp [sltiu]

/-- Of two results that are right for the same operands, each shows its own register. -/
theorem setsLessRight_iff_of_word (invS : Decoded s) (invT : Decoded t)
    (sets : SetsLessImm s.instReg0) (word : t.instReg0 = s.instReg0)
    (first : t.br1 false = s.br1 false) :
    s.SetsLessRight (s.resultR false) (t.resultR false) ↔ s.RegisterAgrees ∧ t.RegisterAgrees := by
  have setsT : SetsLessImm t.instReg0 := word ▸ sets
  rw [registerAgrees_iff invS sets, registerAgrees_iff invT setsT]
  constructor
  · intro right
    refine ⟨⟨rfl, right.slti, right.sltiu⟩, rfl, fun slti => ?_, fun sltiu => ?_⟩
    · -- What holds of the first result holds of the second one, which is the same.
      rw [← right.same, word, first]
      exact right.slti (word ▸ slti)
    · rw [← right.same, word, first]
      exact right.sltiu (word ▸ sltiu)
  · intro right
    obtain ⟨rightS, rightT⟩ := right
    refine ⟨?_, rightS.slti, rightS.sltiu⟩
    -- Both are one under the same condition, and otherwise zero.
    have same : s.resultR false = 1 ↔ t.resultR false = 1 := by
      rcases sets.2 with code | code
      · rw [rightS.slti code, rightT.slti (word ▸ code), word, first]
      · rw [rightS.sltiu code, rightT.sltiu (word ▸ code), word, first]
    by_cases one : s.resultR false = 1
    · rw [one, same.mp one]
    · rw [resultR_eq_zero invS sets one,
        resultR_eq_zero invT setsT fun oneT => one (same.mpr oneT)]

end Core

namespace Riscv

/--
In two runs with the same `SLTI` or `SLTIU` and the same first operand in execute, the results
are the one of RV32I exactly when in both runs the register that the immediate names agrees.
-/
theorem setsLessRight_iff {n n' : ℕ} {outer outer' : Word → BitVec 8}
    {outerInst outerInst' : BitVec 9 → Word} (start : Riscv n) (start' : Riscv n')
    (cycle cycle' : ℕ) (sets : SetsLessImm (start.run outer outerInst cycle).core.instReg0)
    (word : (start'.run outer' outerInst' cycle').core.instReg0 =
      (start.run outer outerInst cycle).core.instReg0)
    (first : (start'.run outer' outerInst' cycle').core.br1 false =
      (start.run outer outerInst cycle).core.br1 false) :
    (start.run outer outerInst cycle).core.SetsLessRight
        (start.run outer outerInst (cycle + 1)).core.aluResultO
        (start'.run outer' outerInst' (cycle' + 1)).core.aluResultO ↔
      (start.run outer outerInst cycle).core.RegisterAgrees ∧
        (start'.run outer' outerInst' cycle').core.RegisterAgrees :=
  Core.setsLessRight_iff_of_word (run_decoded cycle) (run_decoded cycle') sets word first

/-- With `addi r5, r0, 9` before it or without, `slti r1, r0, 0` gives zero in both runs. -/
theorem setsLessRight_slti :
    let s := (holding [0x00900293#32, 0x00002093#32]).run (fun _ => 0) (fun _ => 0)
    let t := (holding [0x00002093#32]).run (fun _ => 0) (fun _ => 0)
    (s 3).core.SetsLessRight (s 4).core.aluResultO (t 3).core.aluResultO := by
  refine (setsLessRight_iff (holding [0x00900293#32, 0x00002093#32]) (holding [0x00002093#32]) 3 2
    ⟨by decide, .inl (by decide)⟩ (by decide) (by decide)).mpr ⟨?_, ?_⟩
  -- The immediate names register zero, which is not greater than zero either.
  · exact ⟨fun _ => by decide, fun sltiu => absurd sltiu (by decide)⟩
  · exact ⟨fun _ => by decide, fun sltiu => absurd sltiu (by decide)⟩

/-- `slti r1, r0, 5` gives one behind `addi r5, r0, 9` and two empty words, and zero without. -/
theorem not_setsLessRight_slti :
    let s := (holding [0x00900293#32, 0#32, 0#32, 0x00502093#32]).run (fun _ => 0) (fun _ => 0)
    let t := (holding [0x00502093#32]).run (fun _ => 0) (fun _ => 0)
    (SetsLessImm (s 5).core.instReg0 ∧ (t 2).core.instReg0 = (s 5).core.instReg0 ∧
        (t 2).core.br1 false = (s 5).core.br1 false) ∧
      (s 6).core.aluResultO = 1 ∧ (t 3).core.aluResultO = 0 ∧
      ¬ (s 5).core.SetsLessRight (s 6).core.aluResultO (t 3).core.aluResultO := by
  -- Five is the number of the register that holds the nine.
  refine ⟨⟨⟨by decide, .inl (by decide)⟩, by decide, by decide⟩, by decide, by decide, ?_⟩
  intro right
  exact absurd right.same (by decide)

end Riscv
end MiniRiscV
