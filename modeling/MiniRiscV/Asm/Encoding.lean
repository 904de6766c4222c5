import MiniRiscV.Asm.Digits
import MiniRiscV.Rtl.Immediate

/-! The words written for the instructions without a label are those the processor decodes. -/

namespace MiniRiscV

/-- The RV32I opcode of a mnemonic. -/
def Insnset.isaOpcode : Insnset → BitVec 7
  | .add | .sub | .and | .or | .xor | .sll | .srl | .sra | .slt | .sltu => 0b0110011#7
  | .addi | .andi | .ori | .xori | .slli | .srli | .srai | .slti | .sltiu => 0b0010011#7
  | .lb | .lh | .lw | .lbu | .lhu => 0b0000011#7
  | .sb | .sh | .sw => 0b0100011#7
  | .beq | .bne | .blt | .bge | .bltu | .bgeu => 0b1100011#7
  | .jal => 0b1101111#7
  | .jalr => 0b1100111#7
  | .lui => 0b0110111#7
  | .auipc => 0b0010111#7
  | .nop | .undefined => 0

/-- The RV32I `funct3` of a mnemonic that has one. -/
def Insnset.isaFunct3 : Insnset → BitVec 3
  | .add | .sub | .addi | .beq | .lb | .sb | .jalr => 0b000#3
  | .sll | .slli | .bne | .lh | .sh => 0b001#3
  | .slt | .slti | .lw | .sw => 0b010#3
  | .sltu | .sltiu => 0b011#3
  | .xor | .xori | .blt | .lbu => 0b100#3
  | .srl | .sra | .srli | .srai | .bge | .lhu => 0b101#3
  | .or | .ori | .bltu => 0b110#3
  | .and | .andi | .bgeu => 0b111#3
  | .jal | .lui | .auipc | .nop | .undefined => 0

/-- The RV32I `funct7` of a mnemonic that has one. -/
def Insnset.isaFunct7 : Insnset → BitVec 7
  | .sub | .sra | .srai => 0b0100000#7
  | _ => 0b0000000#7

/-- The shifts by an immediate, whose immediate has five bits. -/
def Insnset.isShift (insn : Insnset) : Bool := insn = .slli ∨ insn = .srli ∨ insn = .srai

/-- The code of a register on the wires of the processor. -/
def regBits (r : Fin 32) : BitVec 5 := BitVec.ofNat 5 r

/-- A line whose three registers are known. -/
def registerLine (insn : Insnset) (rd rs1 rs2 : Fin 32) (imm : ℤ) (label : StringT)
    (lineAddr : ℤ) : InsnLine where
  insn := insnset2insn insn
  rd := some rd
  rs1 := some rs1
  rs2 := some rs2
  imm := imm
  label := label
  lineAddr := lineAddr

/-- The immediates that the format of a mnemonic without a label can hold. -/
def Fits (insn : Insnset) (imm : ℤ) : Prop :=
  match (insnset2insn insn).type with
  | .regreg => True
  | .regimm => if insn.isShift then 0 ≤ imm ∧ imm ≤ 31 else -2048 ≤ imm ∧ imm ≤ 2047
  | .load | .store => -2048 ≤ imm ∧ imm ≤ 2047
  | .lui | .auipc => -2 ^ 31 ≤ imm ∧ imm < 2 ^ 31
  | _ => False

/-- What the decoder of the processor finds in a word, compared with the assembly operands. -/
def Agrees (insn : Insnset) (rd' rs1' rs2' : Fin 32) (imm : ℤ) (w : Word) : Prop :=
  let immO := immGen (ControlLogic.immSelO false w).code w
  opcode w = insn.isaOpcode ∧
    match (insnset2insn insn).type with
    | .regreg => funct3 w = insn.isaFunct3 ∧ funct7 w = insn.isaFunct7 ∧ rd w = regBits rd' ∧
        rs1 w = regBits rs1' ∧ rs2 w = regBits rs2'
    | .regimm => funct3 w = insn.isaFunct3 ∧ rd w = regBits rd' ∧ rs1 w = regBits rs1' ∧
        if insn.isShift then
          funct7 w = insn.isaFunct7 ∧ ((immO.extractLsb' 0 5).toNat : ℤ) = imm
        else immO.toInt = imm
    | .load => funct3 w = insn.isaFunct3 ∧ rd w = regBits rd' ∧ rs1 w = regBits rs1' ∧
        immO.toInt = imm
    | .store => funct3 w = insn.isaFunct3 ∧ rs1 w = regBits rs1' ∧ rs2 w = regBits rs2' ∧
        immO.toInt = imm
    | .lui | .auipc =>
      rd w = regBits rd' ∧ immO <<< 12 = BitVec.ofInt 32 imm &&& 0xFFFFF000#32
    | _ => False

section Texts

variable {line : InsnLine} {rd' rs1' rs2' : Fin 32} {funct7 funct3 : String} {f7 : BitVec 7}
  {f3 : BitVec 3}

/-- What is printed for three registers and two constants. -/
theorem regregText_eq (hasRd : line.rd = some rd') (hasRs1 : line.rs1 = some rs1')
    (hasRs2 : line.rs2 = some rs2') (spelled7 : funct7.toList = f7.binaryText)
    (spelled3 : funct3.toList = f3.binaryText) :
    line.regregText funct7 funct3 =
      some (f7.binaryText ++ (regBits rs2').binaryText ++ (regBits rs1').binaryText ++
        f3.binaryText ++ (regBits rd').binaryText) := by
  simp [InsnLine.regregText, hasRd, hasRs1, hasRs2, reg2code_some, spelled7, spelled3, regBits]

/-- What is printed for two registers and an immediate, of which twelve digits are left. -/
theorem immText_eq (hasRd : line.rd = some rd') (hasRs1 : line.rs1 = some rs1')
    (spelled3 : funct3.toList = f3.binaryText) :
    line.immText funct3 =
      some ((line.imm32.setWidth 12).binaryText ++ (regBits rs1').binaryText ++ f3.binaryText ++
        (regBits rd').binaryText) := by
  simp [InsnLine.immText, hasRd, hasRs1, reg2code_some, spelled3, printBinary_eq, regBits]

/-- What is printed for a shift by an immediate, of which five digits are left. -/
theorem shiftText_eq (hasRd : line.rd = some rd') (hasRs1 : line.rs1 = some rs1')
    (spelled7 : funct7.toList = f7.binaryText) (spelled3 : funct3.toList = f3.binaryText) :
    line.shiftText funct7 funct3 =
      some (f7.binaryText ++ (line.imm32.setWidth 5).binaryText ++ (regBits rs1').binaryText ++
        f3.binaryText ++ (regBits rd').binaryText) := by
  simp [InsnLine.shiftText, hasRd, hasRs1, reg2code_some, spelled7, spelled3, printBinary_eq,
    regBits]

/-- A store splits its immediate into the seven digits above the five lowest, and these. -/
theorem storeText_eq (hasRs1 : line.rs1 = some rs1') (hasRs2 : line.rs2 = some rs2')
    (spelled3 : funct3.toList = f3.binaryText) :
    line.storeText funct3 =
      some (((line.imm32.setWidth 12).extractLsb' 5 7).binaryText ++ (regBits rs2').binaryText ++
        (regBits rs1').binaryText ++ f3.binaryText ++
        ((line.imm32.setWidth 12).extractLsb' 0 5).binaryText) := by
  -- The two pieces of the immediate are masked and shifted out of the 32 bits.
  have high : (line.imm32.sshiftRight 5).setWidth 7 =
      (line.imm32.setWidth 12).extractLsb' 5 7 := by
    rw [setWidth_sshiftRight _ (by decide)]
    ext i inside
    simp [show 5 + i < 12 by omega]
  have low : line.imm32.setWidth 5 &&& 31#5 = (line.imm32.setWidth 12).extractLsb' 0 5 := by
    rw [show 31#5 = BitVec.allOnes 5 by decide, BitVec.and_allOnes]
    ext i inside
    simp [show i < 12 by omega]
  simp [InsnLine.storeText, hasRs1, hasRs2, reg2code_some, spelled3, printBinary_eq, high, low,
    regBits]

/-- What is printed for an upper immediate, the top twenty digits. -/
theorem upperText_eq (hasRd : line.rd = some rd') :
    line.upperText =
      some ((line.imm32.extractLsb' 12 20).binaryText ++ (regBits rd').binaryText) := by
  simp [InsnLine.upperText, hasRd, reg2code_some, printBinary_eq, setWidth_sshiftRight, regBits]

end Texts

section Words

variable {insn : Insnset} {rd' rs1' rs2' : Fin 32} {imm : ℤ} {label : StringT} {lineAddr : ℤ}

/-- A register-register line is written in the R format. -/
theorem write_regreg (regreg : (insnset2insn insn).type = .regreg) :
    (registerLine insn rd' rs1' rs2' imm label lineAddr).write =
      some ((Rv32i.rType 0b0110011#7 (regBits rd') (regBits rs1') (regBits rs2')
        insn.isaFunct3 insn.isaFunct7).binaryText ++ ['\n']) := by
  have fields : (registerLine insn rd' rs1' rs2' imm label lineAddr).regregFields =
      some (insn.isaFunct7.binaryText ++ (regBits rs2').binaryText ++ (regBits rs1').binaryText ++
        insn.isaFunct3.binaryText ++ (regBits rd').binaryText) := by
    -- The inner switch gives each mnemonic its own pair of codes.
    cases insn
    all_goals first
      | exact absurd regreg (by decide)
      | exact regregText_eq rfl rfl rfl (by decide) (by decide)
  have opcode : regregOpcode.toList = (0b0110011#7).binaryText := by decide
  simp [InsnLine.write, show (registerLine insn rd' rs1' rs2' imm label lineAddr).insn.type = _
    from regreg, fields, opcode, Rv32i.binaryText_rType]

/-- A register-immediate line other than a shift is written in the I format. -/
theorem write_regimm (regimm : (insnset2insn insn).type = .regimm) (noShift : ¬ insn.isShift) :
    (registerLine insn rd' rs1' rs2' imm label lineAddr).write =
      some ((Rv32i.iType 0b0010011#7 (regBits rd') (regBits rs1') insn.isaFunct3
        ((BitVec.ofInt 32 imm).setWidth 12)).binaryText ++ ['\n']) := by
  -- Each mnemonic of the type prints its own `funct3`.
  have fields : (registerLine insn rd' rs1' rs2' imm label lineAddr).regimmFields =
      some (((BitVec.ofInt 32 imm).setWidth 12).binaryText ++ (regBits rs1').binaryText ++
        insn.isaFunct3.binaryText ++ (regBits rd').binaryText) := by
    cases insn
    all_goals first
      | exact absurd regimm (by decide)
      | exact absurd (by decide) noShift
      | exact immText_eq rfl rfl (by decide)
  have opcode : regimmOpcode.toList = (0b0010011#7).binaryText := by decide
  simp [InsnLine.write, show (registerLine insn rd' rs1' rs2' imm label lineAddr).insn.type = _
    from regimm, fields, opcode, Rv32i.binaryText_iType]

/-- A shift by an immediate is written in the R format, the shift amount in place of `rs2`. -/
theorem write_shift (shift : insn.isShift) :
    (registerLine insn rd' rs1' rs2' imm label lineAddr).write =
      some ((Rv32i.rType 0b0010011#7 (regBits rd') (regBits rs1')
        ((BitVec.ofInt 32 imm).setWidth 5) insn.isaFunct3 insn.isaFunct7).binaryText ++
        ['\n']) := by
  have regimm : (insnset2insn insn).type = .regimm := by
    cases insn
    all_goals first
      | exact absurd shift (by decide)
      | decide
  -- Each shift prints its own `funct7` and `funct3`.
  have fields : (registerLine insn rd' rs1' rs2' imm label lineAddr).regimmFields =
      some (insn.isaFunct7.binaryText ++ ((BitVec.ofInt 32 imm).setWidth 5).binaryText ++
        (regBits rs1').binaryText ++ insn.isaFunct3.binaryText ++
        (regBits rd').binaryText) := by
    cases insn
    all_goals first
      | exact absurd shift (by decide)
      | exact shiftText_eq rfl rfl (by decide) (by decide)
  have opcode : regimmOpcode.toList = (0b0010011#7).binaryText := by decide
  simp [InsnLine.write, show (registerLine insn rd' rs1' rs2' imm label lineAddr).insn.type = _
    from regimm, fields, opcode, Rv32i.binaryText_rType]

/-- A load is written in the I format. -/
theorem write_load (load : (insnset2insn insn).type = .load) :
    (registerLine insn rd' rs1' rs2' imm label lineAddr).write =
      some ((Rv32i.iType 0b0000011#7 (regBits rd') (regBits rs1') insn.isaFunct3
        ((BitVec.ofInt 32 imm).setWidth 12)).binaryText ++ ['\n']) := by
  -- Each mnemonic of the type prints its own `funct3`.
  have fields : (registerLine insn rd' rs1' rs2' imm label lineAddr).loadFields =
      some (((BitVec.ofInt 32 imm).setWidth 12).binaryText ++ (regBits rs1').binaryText ++
        insn.isaFunct3.binaryText ++ (regBits rd').binaryText) := by
    cases insn
    all_goals first
      | exact absurd load (by decide)
      | exact immText_eq rfl rfl (by decide)
  have opcode : loadOpcode.toList = (0b0000011#7).binaryText := by decide
  simp [InsnLine.write, show (registerLine insn rd' rs1' rs2' imm label lineAddr).insn.type = _
    from load, fields, opcode, Rv32i.binaryText_iType]

/-- A store is written in the S format. -/
theorem write_store (store : (insnset2insn insn).type = .store) :
    (registerLine insn rd' rs1' rs2' imm label lineAddr).write =
      some ((Rv32i.sType 0b0100011#7 (regBits rs1') (regBits rs2') insn.isaFunct3
        ((BitVec.ofInt 32 imm).setWidth 12)).binaryText ++ ['\n']) := by
  -- Each mnemonic of the type prints its own `funct3`.
  have fields : (registerLine insn rd' rs1' rs2' imm label lineAddr).storeFields =
      some ((((BitVec.ofInt 32 imm).setWidth 12).extractLsb' 5 7).binaryText ++
        (regBits rs2').binaryText ++ (regBits rs1').binaryText ++ insn.isaFunct3.binaryText ++
        (((BitVec.ofInt 32 imm).setWidth 12).extractLsb' 0 5).binaryText) := by
    cases insn
    all_goals first
      | exact absurd store (by decide)
      | exact storeText_eq rfl rfl (by decide)
  have opcode : storeOpcode.toList = (0b0100011#7).binaryText := by decide
  simp only [InsnLine.write, show (registerLine insn rd' rs1' rs2' imm label lineAddr).insn.type = _
    from store, fields, opcode, Rv32i.binaryText_sType]
  rfl

/-- The two lines with an upper immediate are written in the U format. -/
theorem write_upper (upper : insn = .lui ∨ insn = .auipc) :
    (registerLine insn rd' rs1' rs2' imm label lineAddr).write =
      some ((Rv32i.uType insn.isaOpcode (regBits rd')
        ((BitVec.ofInt 32 imm).extractLsb' 12 20)).binaryText ++ ['\n']) := by
  -- The two mnemonics differ in their opcode only.
  have fields : (registerLine insn rd' rs1' rs2' imm label lineAddr).upperText =
      some (((BitVec.ofInt 32 imm).extractLsb' 12 20).binaryText ++ (regBits rd').binaryText) :=
    upperText_eq rfl
  rcases upper with rfl | rfl
  · have opcode : luiOpcode.toList = (Insnset.isaOpcode .lui).binaryText := by decide
    simp [InsnLine.write, show (registerLine .lui rd' rs1' rs2' imm label lineAddr).insn.type =
      .lui from rfl, fields, opcode, Rv32i.binaryText_uType]
  · have opcode : auipcOpcode.toList = (Insnset.isaOpcode .auipc).binaryText := by decide
    simp [InsnLine.write, show (registerLine .auipc rd' rs1' rs2' imm label lineAddr).insn.type =
      .auipc from rfl, fields, opcode, Rv32i.binaryText_uType]

end Words

section Immediates

/-- The low twelve bits of an integer, read as a signed number. -/
theorem toInt_setWidth_ofInt (n : ℤ) :
    ((BitVec.ofInt 32 n).setWidth 12).toInt = n.bmod 4096 := by
  -- The cut to 32 bits that comes first is lost in the other one.
  rw [BitVec.toInt_setWidth, BitVec.toNat_ofInt, Int.bmod_def, Int.bmod_def]
  omega

/-- The low five bits of an integer, read as a number without a sign. -/
theorem toNat_setWidth_ofInt (n : ℤ) :
    (((BitVec.ofInt 32 n).setWidth 5).toNat : ℤ) = n % 32 := by
  rw [BitVec.toNat_setWidth, BitVec.toNat_ofInt]
  omega

/-- A twelve-bit immediate survives the cut to its field and the sign extension of the decoder. -/
theorem toInt_signExtend_setWidth {imm : ℤ} (low : -2048 ≤ imm) (high : imm ≤ 2047) :
    (((BitVec.ofInt 32 imm).setWidth 12).signExtend 32).toInt = imm := by
  rw [BitVec.toInt_signExtend_of_le (by decide), toInt_setWidth_ofInt, Int.bmod_def]
  omega

/-- A shift amount survives the cut to five bits. -/
theorem toNat_setWidth_shamt {imm : ℤ} (low : 0 ≤ imm) (high : imm ≤ 31) :
    (((BitVec.ofInt 32 imm).setWidth 5).toNat : ℤ) = imm := by
  rw [toNat_setWidth_ofInt]
  omega

/-- The low bits of a sign-extended I-format immediate are the field `rs2` of the word. -/
theorem extractLsb'_immI (w : Word) :
    ((Rv32i.immI w).signExtend 32).extractLsb' 0 5 = Rv32i.rs2 w := by
  ext i inside
  rw [BitVec.getElem_extractLsb', BitVec.getLsbD_signExtend]
  simp [Rv32i.immI, Rv32i.rs2, show i < 12 by omega, show i < 32 by omega]

/-- The upper immediate, moved back to its place, is the operand without its low bits. -/
theorem extractLsb'_shiftLeft (x : BitVec 32) :
    ((x.extractLsb' 12 20).setWidth 32) <<< 12 = x &&& 0xFFFFF000#32 := by
  -- The mask keeps the bits from 12 on.
  have mask : ∀ i < 32, (0xFFFFF000#32).getLsbD i = decide (12 ≤ i) := by decide
  refine BitVec.eq_of_getLsbD_eq fun i inside => ?_
  rw [BitVec.getLsbD_shiftLeft, BitVec.getLsbD_and, mask i inside]
  by_cases low : i < 12
  · simp [low, show ¬ 12 ≤ i by omega]
  · simp [low, inside, show 12 ≤ i by omega, show i - 12 < 20 by omega,
      show i - 12 < 32 by omega]

end Immediates

/-- The mnemonics of a type share one opcode. -/
theorem isaOpcode_of_type (insn : Insnset) :
    ((insnset2insn insn).type = .regreg → insn.isaOpcode = 0b0110011#7) ∧
      ((insnset2insn insn).type = .regimm → insn.isaOpcode = 0b0010011#7) ∧
      ((insnset2insn insn).type = .load → insn.isaOpcode = 0b0000011#7) ∧
      ((insnset2insn insn).type = .store → insn.isaOpcode = 0b0100011#7) := by
  cases insn <;> decide

/-- The two mnemonics with an upper immediate are the only ones of their types. -/
theorem eq_of_type_upper {insn : Insnset} :
    ((insnset2insn insn).type = .lui → insn = .lui) ∧
      ((insnset2insn insn).type = .auipc → insn = .auipc) := by
  cases insn <;> decide

/-- A word of the U format agrees with the operands it was made of. -/
private theorem agrees_upper {insn : Insnset} (upper : insn = .lui ∨ insn = .auipc)
    (rd' rs1' rs2' : Fin 32) (imm : ℤ) :
    Agrees insn rd' rs1' rs2' imm
      (Rv32i.uType insn.isaOpcode (regBits rd') ((BitVec.ofInt 32 imm).extractLsb' 12 20)) := by
  -- The immediate of the word is the upper part, which the processor shifts back.
  obtain ⟨op, d, immU⟩ := Rv32i.fields_uType insn.isaOpcode (regBits rd')
    ((BitVec.ofInt 32 imm).extractLsb' 12 20)
  refine ⟨op, ?_⟩
  rcases upper with rfl | rfl
  · exact ⟨d, by rw [immGen_upper (.inl op), immU, extractLsb'_shiftLeft]⟩
  · exact ⟨d, by rw [immGen_upper (.inr op), immU, extractLsb'_shiftLeft]⟩

/--
The assembler and the decoder agree on every instruction without a label.

The line written is 32 binary digits, and the word they spell has the codes of its mnemonic, the
registers, and an immediate that the processor recovers.
-/
theorem write_agrees (insn : Insnset) (rd' rs1' rs2' : Fin 32) (imm : ℤ) (label : StringT)
    (lineAddr : ℤ) (fits : Fits insn imm) :
    ∃ w : Word,
      (registerLine insn rd' rs1' rs2' imm label lineAddr).write = some (w.binaryText ++ ['\n']) ∧
        Agrees insn rd' rs1' rs2' imm w := by
  obtain ⟨regregCode, regimmCode, loadCode, storeCode⟩ := isaOpcode_of_type insn
  -- One case for each format of the encoder; the types with a label have no fitting immediate.
  cases type : (insnset2insn insn).type with
  | regreg =>
    obtain ⟨op, d, s1, s2, f3, f7⟩ := Rv32i.fields_rType 0b0110011#7 (regBits rd')
      (regBits rs1') (regBits rs2') insn.isaFunct3 insn.isaFunct7
    refine ⟨_, write_regreg type, ?_⟩
    simp only [Agrees, type]
    exact ⟨op.trans (regregCode type).symm, f3, f7, d, s1, s2⟩
  | regimm =>
    simp only [Fits, type] at fits
    by_cases shift : insn.isShift
    · obtain ⟨op, d, s1, s2, f3, f7⟩ := Rv32i.fields_rType 0b0010011#7 (regBits rd')
        (regBits rs1') ((BitVec.ofInt 32 imm).setWidth 5) insn.isaFunct3 insn.isaFunct7
      simp only [shift, if_true] at fits
      refine ⟨_, write_shift shift, ?_⟩
      simp only [Agrees, type, shift, if_true]
      rw [immGen_regimm op, extractLsb'_immI, s2]
      exact ⟨op.trans (regimmCode type).symm, f3, d, s1, f7,
        toNat_setWidth_shamt fits.1 fits.2⟩
    · obtain ⟨op, d, s1, f3, immI⟩ := Rv32i.fields_iType 0b0010011#7 (regBits rd')
        (regBits rs1') insn.isaFunct3 ((BitVec.ofInt 32 imm).setWidth 12)
      simp only [shift, Bool.false_eq_true, if_false] at fits
      refine ⟨_, write_regimm type shift, ?_⟩
      simp only [Agrees, type, shift, Bool.false_eq_true, if_false]
      rw [immGen_regimm op, immI]
      exact ⟨op.trans (regimmCode type).symm, f3, d, s1,
        toInt_signExtend_setWidth fits.1 fits.2⟩
  | load =>
    obtain ⟨op, d, s1, f3, immI⟩ := Rv32i.fields_iType 0b0000011#7 (regBits rd') (regBits rs1')
      insn.isaFunct3 ((BitVec.ofInt 32 imm).setWidth 12)
    simp only [Fits, type] at fits
    refine ⟨_, write_load type, ?_⟩
    simp only [Agrees, type]
    rw [immGen_load op, immI]
    exact ⟨op.trans (loadCode type).symm, f3, d, s1, toInt_signExtend_setWidth fits.1 fits.2⟩
  | store =>
    obtain ⟨op, s1, s2, f3, immS⟩ := Rv32i.fields_sType 0b0100011#7 (regBits rs1')
      (regBits rs2') insn.isaFunct3 ((BitVec.ofInt 32 imm).setWidth 12)
    simp only [Fits, type] at fits
    refine ⟨_, write_store type, ?_⟩
    simp only [Agrees, type]
    rw [immGen_store op, immS]
    exact ⟨op.trans (storeCode type).symm, f3, s1, s2, toInt_signExtend_setWidth fits.1 fits.2⟩
  | lui =>
    have upper : insn = .lui ∨ insn = .auipc := .inl (eq_of_type_upper.1 type)
    exact ⟨_, write_upper upper, agrees_upper upper rd' rs1' rs2' imm⟩
  | auipc =>
    have upper : insn = .lui ∨ insn = .auipc := .inr (eq_of_type_upper.2 type)
    exact ⟨_, write_upper upper, agrees_upper upper rd' rs1' rs2' imm⟩
  | nop | branch | jal | jalr | undefined => simp [Fits, type] at fits

/-- The word for `sw r1, -4(r2)`. -/
theorem write_agrees_store :
    ∃ w : Word, (registerLine .sw 0 2 1 (-4) stringEmpty 0).write =
        some (w.binaryText ++ ['\n']) ∧ Agrees .sw 0 2 1 (-4) w :=
  write_agrees .sw 0 2 1 (-4) stringEmpty 0
    (show -2048 ≤ (-4 : ℤ) ∧ (-4 : ℤ) ≤ 2047 by decide)

end MiniRiscV
