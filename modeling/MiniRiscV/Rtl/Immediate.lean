import MiniRiscV.Lib.Rv32i
import MiniRiscV.Rtl.Riscv

/-! The immediate that `control_logic` and `imm_gen` recover is the one of the RV32I format. -/

namespace MiniRiscV

open ControlLogic

variable {inst : Word}

/-- The word of sign bits that the slices are assigned over. -/
private theorem getLsbD_sign (sign : Bool) {i : ℕ} (inside : i < 32) :
    (if sign then 0xFFFFFFFF else 0 : Word).getLsbD i = sign := by
  -- The word is all zeros or all ones.
  cases sign
  · simp
  · rw [if_pos rfl, show (0xFFFFFFFF : Word) = BitVec.allOnes 32 by decide, BitVec.getLsbD_allOnes]
    simpa using inside

/-- Twelve bits assigned over copies of their top bit are a sign extension. -/
private theorem setSlice_sign {sign : Bool} (imm : BitVec 12) (top : imm.getLsbD 11 = sign) :
    (if sign then 0xFFFFFFFF else 0 : Word).setSlice 0 imm = imm.signExtend 32 := by
  -- Below bit 12 both sides have the twelve bits, and above it their top bit.
  refine BitVec.eq_of_getLsbD_eq fun i inside => ?_
  rw [BitVec.getLsbD_setSlice _ _ _ inside, getLsbD_sign _ inside, BitVec.getLsbD_signExtend,
    BitVec.msb_eq_getLsbD_last, top]
  simp [inside]

/-- The top bit of the I-format immediate is the top bit of the word. -/
private theorem getLsbD_immI (inst : Word) :
    (Rv32i.immI inst).getLsbD 11 = inst.getLsbD 31 := by
  simp [Rv32i.immI]

/-- A register-immediate instruction has the I-format immediate. -/
theorem immGen_regimm (is : opcode inst = instRegimm) :
    immGen (immSelO false inst).code inst = (Rv32i.immI inst).signExtend 32 := by
  have sel : immSelO false inst = .immRegimm := by
    simp [immSelO, is, instRegimm, instRegreg]
  rw [sel]
  exact setSlice_sign (Rv32i.immI inst) (getLsbD_immI inst)

/-- A load has the I-format immediate. -/
theorem immGen_load (is : opcode inst = instLoad) :
    immGen (immSelO false inst).code inst = (Rv32i.immI inst).signExtend 32 := by
  have sel : immSelO false inst = .immLoad := by
    simp [immSelO, is, instLoad, instRegimm, instRegreg]
  rw [sel]
  exact setSlice_sign (Rv32i.immI inst) (getLsbD_immI inst)

/-- `JALR` has the I-format immediate. -/
theorem immGen_jalr (is : opcode inst = instJalr) :
    immGen (immSelO false inst).code inst = (Rv32i.immI inst).signExtend 32 := by
  have sel : immSelO false inst = .immJalr := by
    simp [immSelO, is, instStore, instLoad, instRegimm, instRegreg, instBranch, instJalr]
  rw [sel]
  exact setSlice_sign (Rv32i.immI inst) (getLsbD_immI inst)

/-- A store has the S-format immediate. -/
theorem immGen_store (is : opcode inst = instStore) :
    immGen (immSelO false inst).code inst = (Rv32i.immS inst).signExtend 32 := by
  have sel : immSelO false inst = .immStore := by
    simp [immSelO, is, instStore, instLoad, instRegimm, instRegreg]
  have top : (Rv32i.immS inst).getLsbD 11 = inst.getLsbD 31 := by
    rw [Rv32i.immS, BitVec.getLsbD_append]
    simp
  rw [sel, ← setSlice_sign (Rv32i.immS inst) top]
  change ((if inst.getLsbD 31 then 0xFFFFFFFF else 0 : Word).setSlice 0
    (inst.extractLsb' 7 5)).setSlice 5 (inst.extractLsb' 25 7) = _
  -- The two slices are adjacent, and together they are the immediate of the format.
  refine BitVec.eq_of_getLsbD_eq fun i inside => ?_
  rw [BitVec.getLsbD_setSlice _ _ _ inside, BitVec.getLsbD_setSlice _ _ _ inside,
    BitVec.getLsbD_setSlice _ _ _ inside, Rv32i.immS, BitVec.getLsbD_append]
  by_cases low : i < 5
  · simp [low, show ¬ 5 ≤ i by omega, show i < 12 by omega]
  · by_cases high : i < 12
    · simp [low, high, show 5 ≤ i by omega]
    · simp [low, high]

/--
A branch has the B-format offset, except for its lowest bit.

No slice covers that bit, so it stays the sign bit it was filled with.
-/
theorem immGen_branch (is : opcode inst = instBranch) :
    immGen (immSelO false inst).code inst =
      (Rv32i.immB inst).signExtend 32 ||| (inst.extractLsb' 31 1).setWidth 32 := by
  have sel : immSelO false inst = .immBranch := by
    simp [immSelO, is, instStore, instLoad, instRegimm, instRegreg, instBranch]
  have sign : (Rv32i.immB inst).msb = inst.getLsbD 31 := by
    rw [BitVec.msb_eq_getLsbD_last, Rv32i.immB]
    simp only [BitVec.getLsbD_append]
    simp
  rw [sel]
  change ((((if inst.getLsbD 31 then 0xFFFFFFFF else 0 : Word).setSlice 5
    (inst.extractLsb' 25 6)).setSlice 1 (inst.extractLsb' 8 4)).setSlice 12
    (inst.extractLsb' 31 1)).setSlice 11 (inst.extractLsb' 7 1) = _
  refine BitVec.eq_of_getLsbD_eq fun i inside => ?_
  rw [BitVec.getLsbD_or, BitVec.getLsbD_signExtend, sign]
  iterate 4 rw [BitVec.getLsbD_setSlice _ _ _ inside]
  rw [getLsbD_sign _ inside, Rv32i.immB]
  simp only [BitVec.getLsbD_append, BitVec.getLsbD_setWidth, BitVec.getLsbD_extractLsb']
  -- One case for each slice of the format, and one for the copies of the sign above them.
  rcases (by omega : i = 0 ∨ (1 ≤ i ∧ i < 5) ∨ (5 ≤ i ∧ i < 11) ∨ i = 11 ∨ i = 12 ∨ 13 ≤ i) with
    rfl | ⟨low, high⟩ | ⟨low, high⟩ | rfl | rfl | low
  · simp
  · simp [low, high, inside, show ¬ i < 1 by omega, show i < 13 by omega, show i - 1 < 4 by omega,
      show ¬ 11 ≤ i by omega, show ¬ 12 ≤ i by omega]
  · simp [low, high, inside, show ¬ i < 1 by omega, show i < 13 by omega, show ¬ i - 1 < 4 by omega,
      show ¬ 11 ≤ i by omega, show ¬ 12 ≤ i by omega, show ¬ i < 5 by omega,
      show i - 5 < 6 by omega, show i - 1 - 4 = i - 5 by omega]
  · simp
  · simp
  · simp [inside, show ¬ i < 13 by omega, show ¬ i < 11 by omega, show ¬ i < 12 by omega,
      show ¬ i < 5 by omega, show i ≠ 0 by omega]

/-- A jump has the J-format offset, except for its lowest bit, which is again the sign bit. -/
theorem immGen_jal (is : opcode inst = instJal) :
    immGen (immSelO false inst).code inst =
      (Rv32i.immJ inst).signExtend 32 ||| (inst.extractLsb' 31 1).setWidth 32 := by
  have sel : immSelO false inst = .immJal := by
    simp [immSelO, is, instStore, instLoad, instRegimm, instRegreg, instBranch, instJal, instJalr]
  have sign : (Rv32i.immJ inst).msb = inst.getLsbD 31 := by
    rw [BitVec.msb_eq_getLsbD_last, Rv32i.immJ]
    simp only [BitVec.getLsbD_append]
    simp
  rw [sel]
  change ((((if inst.getLsbD 31 then 0xFFFFFFFF else 0 : Word).setSlice 12
    (inst.extractLsb' 12 8)).setSlice 11 (inst.extractLsb' 20 1)).setSlice 1
    (inst.extractLsb' 21 10)).setSlice 20 (inst.extractLsb' 31 1) = _
  refine BitVec.eq_of_getLsbD_eq fun i inside => ?_
  rw [BitVec.getLsbD_or, BitVec.getLsbD_signExtend, sign]
  iterate 4 rw [BitVec.getLsbD_setSlice _ _ _ inside]
  rw [getLsbD_sign _ inside, Rv32i.immJ]
  simp only [BitVec.getLsbD_append, BitVec.getLsbD_setWidth, BitVec.getLsbD_extractLsb']
  -- One case for each slice of the format, and one for the copies of the sign above them.
  rcases (by omega :
      i = 0 ∨ (1 ≤ i ∧ i < 11) ∨ i = 11 ∨ (12 ≤ i ∧ i < 20) ∨ i = 20 ∨ 21 ≤ i) with
    rfl | ⟨low, high⟩ | rfl | ⟨low, high⟩ | rfl | low
  · simp
  · simp [low, high, inside, show ¬ i < 1 by omega, show i < 21 by omega, show i - 1 < 10 by omega,
      show ¬ 20 ≤ i by omega]
  · simp
  · simp [low, high, inside, show ¬ i < 1 by omega, show i < 21 by omega,
      show ¬ i - 1 < 10 by omega, show ¬ 20 ≤ i by omega, show ¬ i < 11 by omega,
      show ¬ i < 12 by omega, show i - 12 < 8 by omega, show ¬ i - 1 - 10 < 1 by omega,
      show i - 1 - 10 - 1 = i - 12 by omega]
  · simp
  · simp [inside, show ¬ i < 21 by omega, show ¬ i < 20 by omega, show ¬ i < 12 by omega,
      show ¬ i < 11 by omega, show i ≠ 0 by omega]

/-- The two instructions with an upper immediate have the U-format one, not yet shifted. -/
theorem immGen_upper (is : opcode inst = instLui ∨ opcode inst = instAuipc) :
    immGen (immSelO false inst).code inst = (Rv32i.immU inst).setWidth 32 := by
  have sel : immSelO false inst = .immUpper := by
    rcases is with is | is <;>
      simp [immSelO, is, instStore, instLoad, instRegimm, instRegreg, instLui, instAuipc, instJal,
        instJalr, instBranch]
  -- The slice is placed at the lowest bit, and the shift is left to the ALU.
  rw [sel]
  rfl

/-- The lowest bit of an even offset is free for the sign, which then shows in it. -/
private theorem or_sign_eq_iff {offset : Word} (even : offset.getLsbD 0 = false) (inst : Word) :
    offset ||| (inst.extractLsb' 31 1).setWidth 32 = offset ↔ inst.msb = false := by
  have sign : (inst.extractLsb' 31 1).getLsbD 0 = inst.msb := by
    simp [BitVec.msb_eq_getLsbD_last]
  constructor
  · intro same
    -- The lowest bits of both sides are the sign and zero.
    have lowest := congrArg (fun w : Word => w.getLsbD 0) same
    simpa only [BitVec.getLsbD_or, BitVec.getLsbD_setWidth, even, sign, Bool.false_or,
      show decide (0 < 32) = true by decide, Bool.true_and] using lowest
  · intro positive
    rw [positive] at sign
    have zero : inst.extractLsb' 31 1 = 0 := by
      refine BitVec.eq_of_getLsbD_eq fun i inside => ?_
      obtain rfl : i = 0 := by omega
      simpa using sign
    rw [zero]
    simp

/-- The latched immediate is the one of the word's RV32I format. -/
structure ImmediateRight (inst latched : Word) : Prop where
  immI : opcode inst = instRegimm ∨ opcode inst = instLoad ∨ opcode inst = instJalr →
    latched = (Rv32i.immI inst).signExtend 32
  immS : opcode inst = instStore → latched = (Rv32i.immS inst).signExtend 32
  immB : opcode inst = instBranch → latched = (Rv32i.immB inst).signExtend 32
  immJ : opcode inst = instJal → latched = (Rv32i.immJ inst).signExtend 32
  immU : opcode inst = instLui ∨ opcode inst = instAuipc →
    latched = (Rv32i.immU inst).setWidth 32

/-- A backward offset is the only immediate that is not right, by its lowest bit. -/
theorem Core.immediateRight_iff (outer : Word → BitVec 8) (s : Core) (inst : Word) :
    ImmediateRight inst (s.step outer false inst).immO ↔
      (opcode inst = instBranch ∨ opcode inst = instJal → inst.msb = false) := by
  have latched : (s.step outer false inst).immO = immGen (immSelO false inst).code inst := rfl
  -- The offsets of both formats are even, also after their extension.
  have evenB : ((Rv32i.immB inst).signExtend 32).getLsbD 0 = false := by
    rw [BitVec.getLsbD_signExtend, Rv32i.immB, BitVec.getLsbD_append]
    simp
  have evenJ : ((Rv32i.immJ inst).signExtend 32).getLsbD 0 = false := by
    rw [BitVec.getLsbD_signExtend, Rv32i.immJ, BitVec.getLsbD_append]
    simp
  rw [latched]
  constructor
  · intro right is
    rcases is with branch | jal
    · have shown := right.immB branch
      rw [immGen_branch branch] at shown
      exact (or_sign_eq_iff evenB inst).mp shown
    · have shown := right.immJ jal
      rw [immGen_jal jal] at shown
      exact (or_sign_eq_iff evenJ inst).mp shown
  · intro positive
    refine ⟨fun is => ?_, immGen_store, fun branch => ?_, fun jal => ?_, immGen_upper⟩
    · rcases is with regimm | load | jalr
      · exact immGen_regimm regimm
      · exact immGen_load load
      · exact immGen_jalr jalr
    · rw [immGen_branch branch]
      exact (or_sign_eq_iff evenB inst).mpr (positive (.inl branch))
    · rw [immGen_jal jal]
      exact (or_sign_eq_iff evenJ inst).mpr (positive (.inr jal))

/-- `beq r0, r0, -4` and `jal r0, -4` latch the offset minus three. -/
theorem not_immediateRight_backward :
    ¬ ImmediateRight 0xFE000EE3#32
        ((default : Core).step (fun _ => 0) false 0xFE000EE3#32).immO ∧
      ¬ ImmediateRight 0xFFDFF06F#32
        ((default : Core).step (fun _ => 0) false 0xFFDFF06F#32).immO := by
  -- Both offsets are negative.
  refine ⟨fun right => ?_, fun right => ?_⟩
  · exact absurd (right.immB (by decide)) (by decide)
  · exact absurd (right.immJ (by decide)) (by decide)

end MiniRiscV
