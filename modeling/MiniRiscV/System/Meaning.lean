import MiniRiscV.Asm.Truncation
import MiniRiscV.Rtl.Segments

/-! The RV32I instructions that the lines of a source stand for, and the words written for them. -/

namespace MiniRiscV

open Rv32i (Instr)

/-- The RV32I instruction of a mnemonic that goes on to the next one, on some operands. -/
def Insnset.instr (insn : Insnset) (rd rs1 rs2 : BitVec 5) (imm : Word) : Option Instr :=
  match insn with
  | .add => some (.register .add rd rs1 rs2)
  | .sub => some (.register .sub rd rs1 rs2)
  | .sll => some (.register .sll rd rs1 rs2)
  | .xor => some (.register .xor rd rs1 rs2)
  | .srl => some (.register .srl rd rs1 rs2)
  | .sra => some (.register .sra rd rs1 rs2)
  | .or => some (.register .or rd rs1 rs2)
  | .and => some (.register .and rd rs1 rs2)
  | .slt => some (.compare .slt rd rs1 rs2)
  | .sltu => some (.compare .sltu rd rs1 rs2)
  | .addi => some (.immediate .add rd rs1 (imm.setWidth 12))
  | .slli => some (.immediate .sll rd rs1 (imm.setWidth 12))
  | .xori => some (.immediate .xor rd rs1 (imm.setWidth 12))
  | .srli => some (.immediate .srl rd rs1 (imm.setWidth 12))
  | .srai => some (.immediate .sra rd rs1 (imm.setWidth 12))
  | .ori => some (.immediate .or rd rs1 (imm.setWidth 12))
  | .andi => some (.immediate .and rd rs1 (imm.setWidth 12))
  | .slti => some (.compareImm .slt rd rs1 (imm.setWidth 12))
  | .sltiu => some (.compareImm .sltu rd rs1 (imm.setWidth 12))
  -- The source gives the whole value, of which the instruction has the upper part.
  | .lui => some (.lui rd (imm.extractLsb' 12 20))
  | .lb => some (.load .lb rd rs1 (imm.setWidth 12))
  | .lh => some (.load .lh rd rs1 (imm.setWidth 12))
  | .lw => some (.load .lw rd rs1 (imm.setWidth 12))
  | .lbu => some (.load .lbu rd rs1 (imm.setWidth 12))
  | .lhu => some (.load .lhu rd rs1 (imm.setWidth 12))
  | .sb => some (.store .sb rs1 rs2 (imm.setWidth 12))
  | .sh => some (.store .sh rs1 rs2 (imm.setWidth 12))
  | .sw => some (.store .sw rs1 rs2 (imm.setWidth 12))
  | .beq | .bne | .blt | .bge | .bltu | .bgeu | .jal | .jalr | .auipc | .nop | .undefined => none

/-- The line is a no-operation, or it stands for an instruction that can hold its operand. -/
inductive Means : InsnLine → Option Instr → Prop where
  | nop {line : InsnLine} (is : line.insn.type = .nop) : Means line none
  | instr {insn : Insnset} {rd rs1 rs2 : Fin 32} {imm : ℤ} (label : StringT) (lineAddr : ℤ)
    {i : Instr} (fits : Fits insn imm)
    (is : insn.instr (regBits rd) (regBits rs1) (regBits rs2) (BitVec.ofInt 32 imm) = some i) :
    Means (registerLine insn rd rs1 rs2 imm label lineAddr) (some i)

/-- The amount of a shift is in the lowest bits of its immediate. -/
theorem extractLsb'_setWidth (w : Word) :
    (w.setWidth 12).extractLsb' 0 5 = w.setWidth 5 := by
  ext i inside
  simp [show i < 12 by omega]

section Words

variable {insn : Insnset} {d s1 s2 : BitVec 5} {imm : Word} {i : Instr}

/-- The word of the instruction of a mnemonic, by the type of the mnemonic. -/
theorem encode_instr (is : insn.instr d s1 s2 imm = some i) :
    i.encode =
      match (insnset2insn insn).type with
      | .regreg => Rv32i.rType 0b0110011#7 d s1 s2 insn.isaFunct3 insn.isaFunct7
      | .regimm =>
        if insn.isShift then
          Rv32i.rType 0b0010011#7 d s1 (imm.setWidth 5) insn.isaFunct3 insn.isaFunct7
        else Rv32i.iType 0b0010011#7 d s1 insn.isaFunct3 (imm.setWidth 12)
      | .load => Rv32i.iType 0b0000011#7 d s1 insn.isaFunct3 (imm.setWidth 12)
      | .store => Rv32i.sType 0b0100011#7 s1 s2 insn.isaFunct3 (imm.setWidth 12)
      | _ => Rv32i.uType insn.isaOpcode d (imm.extractLsb' 12 20) := by
  -- One case for each mnemonic, whose codes are those of its instruction.
  cases insn
  case slli | srli | srai =>
    cases is
    rw [← extractLsb'_setWidth]
    rfl
  all_goals
    cases is
    try rfl

/-- A mnemonic that stands for an instruction is of one of the five types without a label. -/
theorem type_of_instr (is : insn.instr d s1 s2 imm = some i) :
    (insnset2insn insn).type = .regreg ∨ (insnset2insn insn).type = .regimm ∨
      (insnset2insn insn).type = .load ∨ (insnset2insn insn).type = .store ∨ insn = .lui := by
  cases insn
  all_goals first
    | cases is; done
    | decide

end Words

namespace Means

variable {line : InsnLine} {i : Option Instr}

/-- A line is written as the word of its instruction. -/
theorem write (means : Means line i) :
    line.write = some ((wordOf i).binaryText ++ ['\n']) := by
  cases means with
  | nop is =>
    -- A no-operation is printed as thirty-two zeros.
    have zeros : printBinary 0 32 = (0#32).binaryText := by decide
    simp only [InsnLine.write, is, wordOf]
    exact congrArg (fun text => some (text ++ ['\n'])) zeros
  | @instr insn rd rs1 rs2 imm label lineAddr i fits is =>
    rw [wordOf, encode_instr is]
    -- The texts of the five types are known.
    rcases type_of_instr is with type | type | type | type | rfl
    · simp only [type]
      exact write_regreg type
    · simp only [type]
      by_cases shift : insn.isShift
      · rw [if_pos shift]
        exact write_shift shift
      · rw [if_neg shift]
        exact write_regimm type shift
    · simp only [type]
      exact write_load type
    · simp only [type]
      exact write_store type
    · exact write_upper (.inl rfl)

/-- Such a line does not depend on a label. -/
theorem not_isControl (means : Means line i) : ¬ line.isControl := by
  cases means with
  | nop is => simp [InsnLine.isControl, is]
  | @instr insn rd rs1 rs2 imm label lineAddr i fits is =>
    have type : (registerLine insn rd rs1 rs2 imm label lineAddr).insn.type =
      (insnset2insn insn).type := rfl
    rcases type_of_instr is with is | is | is | is | rfl
    · simp [InsnLine.isControl, type, is]
    · simp [InsnLine.isControl, type, is]
    · simp [InsnLine.isControl, type, is]
    · simp [InsnLine.isControl, type, is]
    · simp [InsnLine.isControl, type, show (insnset2insn .lui).type = .lui by decide]

end Means

end MiniRiscV
