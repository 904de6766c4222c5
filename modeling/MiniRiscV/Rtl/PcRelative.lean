import MiniRiscV.Rtl.Immediate
import MiniRiscV.Rtl.Run

/-! The results that depend on the address of their own instruction. -/

namespace MiniRiscV

open ControlLogic

namespace Core

variable {outer : Word → BitVec 8} {s : Core}

/-- The ALU result of an instruction is relative to the address it was fetched from. -/
structure PcRelative (s : Core) (address latched : Word) : Prop where
  jal : opcode s.instReg0 = instJal →
    latched = address + (Rv32i.immJ s.instReg0).signExtend 32
  branch : opcode s.instReg0 = instBranch → s.taken →
    latched = address + (Rv32i.immB s.instReg0).signExtend 32
  auipc : opcode s.instReg0 = instAuipc →
    latched = address + (Rv32i.immU s.instReg0).setWidth 32 <<< 12

/-- Both jumps add their immediate to the program counter. -/
theorem resultR_jump (jump : opcode s.instReg0 = instJal ∨ opcode s.instReg0 = instJalr) :
    s.resultR false = s.pcO + s.immO := by
  -- The operand multiplexers make no difference between the two.
  rcases jump with is | is <;>
    simp [resultR, reg1O, reg2O, a2SelO, b2SelO, aluOpO, alu, AluOp.code, is, instRegreg,
      instRegimm, instLoad, instStore, instBranch, instJalr, instJal, instNop]

/-- A `JAL` adds its offset to the program counter, with the sign in the lowest bit. -/
theorem resultR_jal (inv : Decoded s) (jal : opcode s.instReg0 = instJal) :
    s.resultR false =
      s.pcO + ((Rv32i.immJ s.instReg0).signExtend 32 |||
        (s.instReg0.extractLsb' 31 1).setWidth 32) := by
  rw [resultR_jump (.inl jal), inv.imm0, immGen_jal jal]

/-- A taken branch adds its immediate to the program counter. -/
theorem resultR_branch (inv : Decoded s) (branch : opcode s.instReg0 = instBranch)
    (taken : s.taken) :
    s.resultR false =
      s.pcO + ((Rv32i.immB s.instReg0).signExtend 32 |||
        (s.instReg0.extractLsb' 31 1).setWidth 32) := by
  -- As for a jump, but only a taken branch adds.
  rw [← immGen_branch branch, ← inv.imm0]
  have operation : aluOpO false s.instReg0 (s.comp false).brEqO (s.comp false).brLTO = .add := by
    rw [aluOpO_branch branch]
    exact if_pos taken
  simp [resultR, reg1O, reg2O, a2SelO, b2SelO, operation, alu, AluOp.code, branch, instRegreg,
    instBranch, instNop]

/-- `AUIPC` shifts the sum of the program counter and its immediate. -/
theorem resultR_auipc (inv : Decoded s) (auipc : opcode s.instReg0 = instAuipc) :
    s.resultR false = (s.pcO + (Rv32i.immU s.instReg0).setWidth 32) <<< 12 := by
  -- The operation adds before it shifts.
  rw [← immGen_upper (.inr auipc), ← inv.imm0]
  simp [resultR, reg1O, reg2O, a2SelO, b2SelO, aluOpO, alu, AluOp.code, auipc, instRegreg,
    instRegimm, instLoad, instStore, instBranch, instJalr, instJal, instNop, instLui, instAuipc]

/-- A lowest bit never makes up for the eight bytes the program counter is ahead. -/
theorem add_eight_ne (address offset : Word) (sign : BitVec 1) :
    address + 8 + (offset ||| sign.setWidth 32) ≠ address + offset := by
  intro same
  rw [BitVec.add_assoc, BitVec.add_right_inj] at same
  -- Eight leaves the lowest bit alone, so that bit was already there.
  have lowest := congrArg (fun w : Word => w.getLsbD 0) same
  simp only [BitVec.getLsbD_add (show 0 < 32 by decide), BitVec.carry_zero, BitVec.getLsbD_or,
    BitVec.getLsbD_setWidth] at lowest
  have kept : offset ||| sign.setWidth 32 = offset := by
    refine BitVec.eq_of_getLsbD_eq fun i inside => ?_
    rw [BitVec.getLsbD_or, BitVec.getLsbD_setWidth]
    by_cases first : i = 0
    · subst first
      simpa using lowest
    · have absent : sign.getLsbD i = false := BitVec.getLsbD_of_ge sign i (by omega)
      simp [absent]
  rw [kept] at same
  -- What is left is that eight is zero.
  simp at same

/-- The one address at which `AUIPC` gives what it should. -/
theorem auipc_eq_iff (address upper : Word) :
    (address + 8 + upper) <<< 12 = address + upper <<< 12 ↔ address = 0x08008000#32 := by
  rw [BitVec.shiftLeft_add_distrib, BitVec.add_left_inj]
  constructor
  · intro same
    have values := congrArg BitVec.toNat same
    simp only [BitVec.toNat_shiftLeft, BitVec.toNat_add, Nat.shiftLeft_eq] at values
    apply BitVec.eq_of_toNat_eq
    -- The equation is linear modulo a power of two, with the odd coefficient 4095.
    have := address.isLt
    simp at values ⊢
    omega
  · rintro rfl
    decide

/-- Two fetches behind its own, the results of an instruction are eight bytes off. -/
theorem pcRelative_iff_of_ahead (inv : Decoded s) {address : Word} (ahead : s.pcO = address + 8) :
    s.PcRelative address (s.resultR false) ↔
      opcode s.instReg0 ≠ instJal ∧ ¬ s.taken ∧
        (opcode s.instReg0 = instAuipc → address = 0x08008000#32) := by
  -- For each form, the result and what it should be are both known.
  constructor
  · intro relative
    refine ⟨fun jal => ?_, fun taken => ?_, fun auipc => ?_⟩
    · have latched := relative.jal jal
      rw [resultR_jal inv jal, ahead] at latched
      exact add_eight_ne _ _ _ latched
    · have latched := relative.branch (opcode_of_taken taken) taken
      rw [resultR_branch inv (opcode_of_taken taken) taken, ahead] at latched
      exact add_eight_ne _ _ _ latched
    · have latched := relative.auipc auipc
      rw [resultR_auipc inv auipc, ahead] at latched
      exact (auipc_eq_iff _ _).mp latched
  · rintro ⟨notJal, notTaken, auipc⟩
    refine ⟨fun jal => absurd jal notJal, fun _ taken => absurd taken notTaken, fun is => ?_⟩
    rw [resultR_auipc inv is, ahead]
    exact (auipc_eq_iff _ _).mpr (auipc is)

end Core

/--
An instruction whose fetch was followed by two sequential ones has a result relative to its
address only when it is an `AUIPC` at one single address.
-/
theorem Riscv.pcRelative_iff {n : ℕ} {outer : Word → BitVec 8} {outerInst : BitVec 9 → Word}
    (start : Riscv n) (cycle : ℕ) (address : Word)
    (sequential : ∀ i ≤ 2,
      (start.run outer outerInst (cycle + i)).core.pcO = address + 4 * BitVec.ofNat 32 i) :
    (start.run outer outerInst (cycle + 2)).core.PcRelative address
        (start.run outer outerInst (cycle + 3)).core.aluResultO ↔
      opcode (start.run outer outerInst (cycle + 2)).core.instReg0 ≠ instJal ∧
        ¬ (start.run outer outerInst (cycle + 2)).core.taken ∧
        (opcode (start.run outer outerInst (cycle + 2)).core.instReg0 = instAuipc →
          address = 0x08008000#32) :=
  Core.pcRelative_iff_of_ahead (run_decoded _) (sequential 2 (by decide))

/-- A memory of 512 words that is full of `auipc r1, 1`. -/
def fullOfAuipc : Riscv 511 where
  core := default
  tabInst _ := 0x00001097#32
  instOut := 0

/-- In this memory, the instruction at that one address adds its immediate to it. -/
theorem Riscv.pcRelative_auipc :
    (fullOfAuipc.run (fun _ => 0) (fun _ => 0) (0x02002000 + 2)).core.instReg0 = 0x00001097#32 ∧
      (fullOfAuipc.run (fun _ => 0) (fun _ => 0) (0x02002000 + 2)).core.PcRelative 0x08008000#32
        (fullOfAuipc.run (fun _ => 0) (fun _ => 0) (0x02002000 + 3)).core.aluResultO := by
  -- Every address has its word in the memory, and a word is in execute two cycles later.
  have fetched (s : Riscv 511) (same : s.tabInst = fullOfAuipc.tabInst) :
      s.inst (fun _ => 0) = 0x00001097#32 := by
    rw [inst, dif_pos (BitVec.isLt _), same]
    rfl
  have executed (cycle : ℕ) :
      (fullOfAuipc.run (fun _ => 0) (fun _ => 0) (cycle + 2)).core.instReg0 = 0x00001097#32 :=
    fetched (fullOfAuipc.run (fun _ => 0) (fun _ => 0) cycle) (run_tabInst cycle)
  have word := executed 0x02002000
  refine ⟨word, (pcRelative_iff fullOfAuipc 0x02002000 0x08008000#32 ?_).mpr
    ⟨?_, ?_, fun _ => rfl⟩⟩
  · intro i _
    have straight : controls 0x00001097#32 = false := by decide
    rw [run_pcO (fun _ => straight) (fun _ => by decide), BitVec.ofNat_add, BitVec.mul_add]
    rfl
  · rw [word]
    decide
  · intro taken
    have branch := Core.opcode_of_taken taken
    rw [word] at branch
    exact absurd branch (by decide)

/-- `jal r1, 8` at the address zero aims at sixteen, and `auipc r1, 0` there gives 0x8000. -/
theorem Riscv.not_pcRelative_zero :
    ¬ ((holding [0x008000EF#32]).run (fun _ => 0) (fun _ => 0) 2).core.PcRelative 0#32
        ((holding [0x008000EF#32]).run (fun _ => 0) (fun _ => 0) 3).core.aluResultO ∧
      ¬ ((holding [0x00000097#32]).run (fun _ => 0) (fun _ => 0) 2).core.PcRelative 0#32
        ((holding [0x00000097#32]).run (fun _ => 0) (fun _ => 0) 3).core.aluResultO := by
  refine ⟨fun relative => ?_, fun relative => ?_⟩
  · exact absurd (relative.jal (by decide)) (by decide)
  · exact absurd (relative.auipc (by decide)) (by decide)

end MiniRiscV
