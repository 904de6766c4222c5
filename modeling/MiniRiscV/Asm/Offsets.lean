import Mathlib.Tactic.IntervalCases
import MiniRiscV.Asm.Encoding

/-! The words written for branches and jumps, and the offsets an RV32I decoder finds in them. -/

namespace MiniRiscV

/-- The word that a line of the file spells. -/
def readLine (line : CStr) : Option Word :=
  if line.getLast? = some '\n' then BitVec.ofBinaryText 32 line.dropLast else none

/-- A line written for a word reads back as that word. -/
@[simp] theorem readLine_binaryText (w : Word) : readLine (w.binaryText ++ ['\n']) = some w := by
  simp [readLine]

/-- The mnemonic of a branch, from its `funct3`. -/
def isaBranch (f3 : BitVec 3) : Option Insnset :=
  if f3 = 0b000#3 then some .beq
  else if f3 = 0b001#3 then some .bne
  else if f3 = 0b100#3 then some .blt
  else if f3 = 0b101#3 then some .bge
  else if f3 = 0b110#3 then some .bltu
  else if f3 = 0b111#3 then some .bgeu
  else none

/-- Decode a word of the B format: mnemonic, `rs1`, `rs2` and offset. -/
def decodeBranch (w : Word) : Option (Insnset × BitVec 5 × BitVec 5 × ℤ) :=
  if Rv32i.opcode w = 0b1100011#7 then
    (isaBranch (Rv32i.funct3 w)).map fun insn =>
      (insn, Rv32i.rs1 w, Rv32i.rs2 w, (Rv32i.immB w).toInt)
  else none

/-- Decode a word of the J format: `rd` and offset. -/
def decodeJal (w : Word) : Option (BitVec 5 × ℤ) :=
  if Rv32i.opcode w = 0b1101111#7 then some (Rv32i.rd w, (Rv32i.immJ w).toInt) else none

/-- The offset that the digits of a branch line stand for. -/
def branchOffset (imm : BitVec 32) : BitVec 13 :=
  imm.extractLsb' 12 1 ++ imm.extractLsb' 11 1 ++ imm.extractLsb' 5 6 ++
    (imm &&& 0x1E#32).extractLsb' 0 4 ++ 0#1

/-- The offset that the digits of a `JAL` line stand for. -/
def jalOffset (imm : BitVec 32) : BitVec 21 :=
  0#1 ++ (imm &&& 0x7F800#32).extractLsb' 12 8 ++ imm.extractLsb' 11 1 ++ imm.extractLsb' 1 10 ++
    0#1

/-- The five low bits of a branch offset are written one place too high. -/
theorem getLsbD_branchOffset (imm : BitVec 32) {i : ℕ} (inside : i < 13) :
    (branchOffset imm).getLsbD i =
      if i < 2 then false else if i < 5 then imm.getLsbD (i - 1) else imm.getLsbD i := by
  -- One case for each of the thirteen bits.
  rw [branchOffset]
  repeat rw [BitVec.getLsbD_append]
  interval_cases i <;> simp

/-- The two high bits of a `JAL` offset are lost. -/
theorem getLsbD_jalOffset (imm : BitVec 32) {i : ℕ} (inside : i < 21) :
    (jalOffset imm).getLsbD i = if i = 0 ∨ 19 ≤ i then false else imm.getLsbD i := by
  rw [jalOffset]
  repeat rw [BitVec.getLsbD_append]
  interval_cases i <;> simp

/-- The slice of an offset that is written four digits at a time is cut one bit too low. -/
private theorem branchOffset_pieces (imm : BitVec 32) :
    (branchOffset imm).extractLsb' 12 1 = imm.extractLsb' 12 1 ∧
      (branchOffset imm).extractLsb' 11 1 = imm.extractLsb' 11 1 ∧
      (branchOffset imm).extractLsb' 5 6 = imm.extractLsb' 5 6 ∧
      (branchOffset imm).extractLsb' 1 4 = (imm &&& 0x1E#32).extractLsb' 0 4 := by
  -- A piece is found by discarding the lower parts, and then the higher ones.
  refine ⟨?_, ?_, ?_, ?_⟩
  all_goals
    rw [branchOffset]
    repeat first
      | rw [BitVec.extractLsb'_append_eq_of_add_le (by decide)]
      | rw [BitVec.extractLsb'_append_eq_of_le (by decide)]
    simp

/-- The slices of a `JAL` offset that are printed are those of the immediate, the sign apart. -/
private theorem jalOffset_pieces (imm : BitVec 32) :
    (jalOffset imm).extractLsb' 20 1 = 0#1 ∧
      (jalOffset imm).extractLsb' 12 8 = (imm &&& 0x7F800#32).extractLsb' 12 8 ∧
      (jalOffset imm).extractLsb' 11 1 = imm.extractLsb' 11 1 ∧
      (jalOffset imm).extractLsb' 1 10 = imm.extractLsb' 1 10 := by
  -- A piece is found by discarding the lower parts, and then the higher ones.
  refine ⟨?_, ?_, ?_, ?_⟩
  all_goals
    rw [jalOffset]
    repeat first
      | rw [BitVec.extractLsb'_append_eq_of_add_le (by decide)]
      | rw [BitVec.extractLsb'_append_eq_of_le (by decide)]
    simp

section Texts

variable {line : InsnLine} {rd' rs1' rs2' : Fin 32} {funct3 : String} {f3 : BitVec 3}

/-- What is printed for a branch, with the pieces of the offset around the registers. -/
theorem branchText_eq (hasRs1 : line.rs1 = some rs1') (hasRs2 : line.rs2 = some rs2')
    (spelled3 : funct3.toList = f3.binaryText) :
    line.branchText funct3 =
      some ((line.imm32.extractLsb' 12 1).binaryText ++ (line.imm32.extractLsb' 5 6).binaryText ++
        (regBits rs2').binaryText ++ (regBits rs1').binaryText ++ f3.binaryText ++
        ((line.imm32 &&& 0x1E#32).extractLsb' 0 4).binaryText ++
        (line.imm32.extractLsb' 11 1).binaryText) := by
  -- Each mask and shift leaves one piece of the immediate.
  have bit12 : printDecimal ((line.imm32 &&& 0x1000#32).sshiftRight 12) =
      (line.imm32.extractLsb' 12 1).binaryText :=
    printDecimal_bit line.imm32 (by decide) (by decide)
  have bit11 : printDecimal ((line.imm32 &&& 0x800#32).sshiftRight 11) =
      (line.imm32.extractLsb' 11 1).binaryText :=
    printDecimal_bit line.imm32 (by decide) (by decide)
  have bits10to5 : printBinary (line.imm32.sshiftRight 5 &&& 0x3F#32) 6 =
      (line.imm32.extractLsb' 5 6).binaryText := by
    rw [printBinary_eq _ (by decide), BitVec.setWidth_and, setWidth_sshiftRight _ (by decide),
      show (0x3F#32).setWidth 6 = BitVec.allOnes 6 by decide, BitVec.and_allOnes]
  have bits3to0 : printBinary (line.imm32 &&& 0x1E#32) 4 =
      ((line.imm32 &&& 0x1E#32).extractLsb' 0 4).binaryText := by
    rw [printBinary_eq _ (by decide), BitVec.setWidth_eq_extractLsb' (by decide)]
  simp [InsnLine.branchText, hasRs1, hasRs2, reg2code_some, spelled3, bit12, bit11, bits10to5,
    bits3to0, regBits]

/-- What is printed for a `JAL`, whose first digit is always zero. -/
theorem jalFields_eq (hasRd : line.rd = some rd') :
    line.jalFields =
      some ((0#1).binaryText ++ (line.imm32.extractLsb' 1 10).binaryText ++
        (line.imm32.extractLsb' 11 1).binaryText ++
        ((line.imm32 &&& 0x7F800#32).extractLsb' 12 8).binaryText ++ (regBits rd').binaryText) := by
  -- Each mask and shift leaves one piece of the immediate; the sign is always zero.
  have bit11 : printDecimal ((line.imm32 &&& 0x800#32).sshiftRight 11) =
      (line.imm32.extractLsb' 11 1).binaryText :=
    printDecimal_bit line.imm32 (by decide) (by decide)
  have bits10to1 : printBinary (line.imm32.sshiftRight 1 &&& 0x3FF#32) 10 =
      (line.imm32.extractLsb' 1 10).binaryText := by
    rw [printBinary_eq _ (by decide), BitVec.setWidth_and, setWidth_sshiftRight _ (by decide),
      show (0x3FF#32).setWidth 10 = BitVec.allOnes 10 by decide, BitVec.and_allOnes]
  have bits19to12 : printBinary ((line.imm32 &&& 0x7F800#32).sshiftRight 12) 8 =
      ((line.imm32 &&& 0x7F800#32).extractLsb' 12 8).binaryText := by
    rw [printBinary_eq _ (by decide), setWidth_sshiftRight _ (by decide)]
  simp [InsnLine.jalFields, hasRd, reg2code_some, printDecimal_jalSign, bit11, bits10to1,
    bits19to12, regBits]

end Texts

section Words

variable {insn : Insnset} {rd' rs1' rs2' : Fin 32} {imm : ℤ} {label : StringT} {lineAddr : ℤ}

/-- A branch line is written in the B format, for the offset its digits stand for. -/
theorem write_branch (branch : (insnset2insn insn).type = .branch) :
    (registerLine insn rd' rs1' rs2' imm label lineAddr).write =
      some ((Rv32i.bType 0b1100011#7 (regBits rs1') (regBits rs2') insn.isaFunct3
        (branchOffset (BitVec.ofInt 32 imm))).binaryText ++ ['\n']) := by
  obtain ⟨bit12, bit11, bits10to5, bits4to1⟩ := branchOffset_pieces (BitVec.ofInt 32 imm)
  -- Each branch prints its own `funct3`.
  have fields : (registerLine insn rd' rs1' rs2' imm label lineAddr).branchFields =
        some (((BitVec.ofInt 32 imm).extractLsb' 12 1).binaryText ++
          ((BitVec.ofInt 32 imm).extractLsb' 5 6).binaryText ++ (regBits rs2').binaryText ++
          (regBits rs1').binaryText ++ insn.isaFunct3.binaryText ++
          ((BitVec.ofInt 32 imm &&& 0x1E#32).extractLsb' 0 4).binaryText ++
          ((BitVec.ofInt 32 imm).extractLsb' 11 1).binaryText) := by
    cases insn
    all_goals first
      | exact absurd branch (by decide)
      | exact branchText_eq rfl rfl (by decide)
  have opcode : branchOpcode.toList = (0b1100011#7).binaryText := by decide
  simp [InsnLine.write, show (registerLine insn rd' rs1' rs2' imm label lineAddr).insn.type = _
    from branch, fields, opcode, Rv32i.binaryText_bType, bit12, bit11, bits10to5, bits4to1]

/-- A `JAL` line is written in the J format, for the offset its digits stand for. -/
theorem write_jal :
    (registerLine .jal rd' rs1' rs2' imm label lineAddr).write =
      some ((Rv32i.jType 0b1101111#7 (regBits rd') (jalOffset (BitVec.ofInt 32 imm))).binaryText ++
        ['\n']) := by
  obtain ⟨bit20, bits19to12, bit11, bits10to1⟩ := jalOffset_pieces (BitVec.ofInt 32 imm)
  -- The pieces that are printed are those of the offset as the format has them.
  have fields : (registerLine .jal rd' rs1' rs2' imm label lineAddr).jalFields =
      some ((0#1).binaryText ++ ((BitVec.ofInt 32 imm).extractLsb' 1 10).binaryText ++
        ((BitVec.ofInt 32 imm).extractLsb' 11 1).binaryText ++
        ((BitVec.ofInt 32 imm &&& 0x7F800#32).extractLsb' 12 8).binaryText ++
        (regBits rd').binaryText) := jalFields_eq rfl
  have opcode : jalOpcode.toList = (0b1101111#7).binaryText := by decide
  simp only [InsnLine.write, show (registerLine .jal rd' rs1' rs2' imm label lineAddr).insn.type =
    .jal from rfl, fields, opcode, Rv32i.binaryText_jType, bit20, bits19to12, bit11, bits10to1]
  simp

end Words

/-- The line of a branch, read back and decoded. -/
def branchRoundTrip (insn : Insnset) (rd' rs1' rs2' : Fin 32) (imm : ℤ) (label : StringT)
    (lineAddr : ℤ) : Option (Insnset × BitVec 5 × BitVec 5 × ℤ) := do
  let line ← (registerLine insn rd' rs1' rs2' imm label lineAddr).write
  decodeBranch (← readLine line)

/-- The line of a `JAL`, read back and decoded. -/
def jalRoundTrip (rd' rs1' rs2' : Fin 32) (imm : ℤ) (label : StringT) (lineAddr : ℤ) :
    Option (BitVec 5 × ℤ) := do
  let line ← (registerLine .jal rd' rs1' rs2' imm label lineAddr).write
  decodeJal (← readLine line)

/-- A decoder finds in a branch line everything but the offset itself. -/
theorem branchRoundTrip_eq {insn : Insnset} (branch : (insnset2insn insn).type = .branch)
    (rd' rs1' rs2' : Fin 32) (imm : ℤ) (label : StringT) (lineAddr : ℤ) :
    branchRoundTrip insn rd' rs1' rs2' imm label lineAddr =
      some (insn, regBits rs1', regBits rs2', (branchOffset (BitVec.ofInt 32 imm)).toInt) := by
  -- The decoder finds the mnemonic, the registers and the offset in their fields.
  have mnemonic : isaBranch insn.isaFunct3 = some insn := by
    cases insn
    all_goals first
      | exact absurd branch (by decide)
      | decide
  have even : (branchOffset (BitVec.ofInt 32 imm)).getLsbD 0 = false := by
    rw [getLsbD_branchOffset _ (by decide)]
    rfl
  obtain ⟨op, s1, s2, f3, immB⟩ := Rv32i.fields_bType 0b1100011#7 (regBits rs1') (regBits rs2')
    insn.isaFunct3 (branchOffset (BitVec.ofInt 32 imm)) even
  simp [branchRoundTrip, write_branch branch, decodeBranch, op, s1, s2, f3, immB, mnemonic]

/-- A decoder finds in a `JAL` line the register, and the offset without its two high bits. -/
theorem jalRoundTrip_eq (rd' rs1' rs2' : Fin 32) (imm : ℤ) (label : StringT) (lineAddr : ℤ) :
    jalRoundTrip rd' rs1' rs2' imm label lineAddr =
      some (regBits rd', (jalOffset (BitVec.ofInt 32 imm)).toInt) := by
  -- The decoder finds the register and the offset in their fields.
  have even : (jalOffset (BitVec.ofInt 32 imm)).getLsbD 0 = false := by
    rw [getLsbD_jalOffset _ (by decide)]
    rfl
  obtain ⟨op, d, immJ⟩ := Rv32i.fields_jType 0b1101111#7 (regBits rd')
    (jalOffset (BitVec.ofInt 32 imm)) even
  simp [jalRoundTrip, write_jal, decodeJal, op, d, immJ]

/-- The offset written is the one given exactly when its five low bits are zero. -/
theorem branchOffset_eq_iff (x : BitVec 32) :
    branchOffset x = x.setWidth 13 ↔ x.setWidth 5 = 0#5 := by
  constructor
  · intro same
    have bits : ∀ i < 13,
        x.getLsbD i =
          if i < 2 then false else if i < 5 then x.getLsbD (i - 1) else x.getLsbD i := by
      intro i inside
      rw [← getLsbD_branchOffset x inside, same, BitVec.getLsbD_setWidth]
      simp [inside]
    -- Each of the five bits equals the one below it, and the lowest is zero.
    have bit0 : x.getLsbD 0 = false := bits 0 (by decide)
    have bit1 : x.getLsbD 1 = false := bits 1 (by decide)
    have bit2 : x.getLsbD 2 = false := (bits 2 (by decide)).trans bit1
    have bit3 : x.getLsbD 3 = false := (bits 3 (by decide)).trans bit2
    have bit4 : x.getLsbD 4 = false := (bits 4 (by decide)).trans bit3
    refine BitVec.eq_of_getLsbD_eq fun i inside => ?_
    rw [BitVec.getLsbD_setWidth]
    interval_cases i <;> simp_all
  · intro zero
    have lowBit : ∀ i < 5, x.getLsbD i = false := by
      intro i inside
      have bit := congrArg (fun y => y.getLsbD i) zero
      simpa [BitVec.getLsbD_setWidth, inside] using bit
    refine BitVec.eq_of_getLsbD_eq fun i inside => ?_
    rw [getLsbD_branchOffset x inside, BitVec.getLsbD_setWidth]
    by_cases lowest : i < 2
    · simp [lowest, lowBit i (by omega)]
    · by_cases low : i < 5
      · simp [lowest, low, lowBit i low, lowBit (i - 1) (by omega)]
      · simp [lowest, low, inside]

/-- The offset written is the one given exactly when its two high bits are zero. -/
theorem jalOffset_eq_iff (x : BitVec 32) (even : x.getLsbD 0 = false) :
    jalOffset x = x.setWidth 21 ↔ x.extractLsb' 19 2 = 0#2 := by
  -- The two offsets differ at most in the two bits that are not printed.
  constructor
  · intro same
    refine BitVec.eq_of_getLsbD_eq fun i inside => ?_
    have bit := congrArg (fun y => y.getLsbD (19 + i)) same
    simp only [getLsbD_jalOffset x (show 19 + i < 21 by omega), BitVec.getLsbD_setWidth] at bit
    simpa [inside, show 19 + i < 21 by omega] using bit.symm
  · intro zero
    have highBit : ∀ i < 2, x.getLsbD (19 + i) = false := by
      intro i inside
      have bit := congrArg (fun y => y.getLsbD i) zero
      simpa [inside] using bit
    refine BitVec.eq_of_getLsbD_eq fun i inside => ?_
    rw [getLsbD_jalOffset x inside, BitVec.getLsbD_setWidth]
    by_cases lowest : i = 0
    · simpa [lowest] using even.symm
    · by_cases high : 19 ≤ i
      · have bit := highBit (i - 19) (by omega)
        rw [show 19 + (i - 19) = i by omega] at bit
        simp [high, bit]
      · simp [lowest, high, inside]

/--
The B format survives the round trip exactly for the multiples of 32.

The mask of the four low digits keeps bits 4 to 1 in their places, and only bits 3 to 0 are
printed.
-/
theorem branchRoundTrip_iff {insn : Insnset} (branch : (insnset2insn insn).type = .branch)
    (rd' rs1' rs2' : Fin 32) (imm : ℤ) (label : StringT) (lineAddr : ℤ) (even : imm % 2 = 0)
    (low : -4096 ≤ imm) (high : imm ≤ 4094) :
    branchRoundTrip insn rd' rs1' rs2' imm label lineAddr =
        some (insn, regBits rs1', regBits rs2', imm) ↔
      imm % 32 = 0 := by
  -- In this range thirteen bits hold the immediate.
  have exact : ((BitVec.ofInt 32 imm).setWidth 13).toInt = imm := by
    rw [BitVec.toInt_setWidth, BitVec.toNat_ofInt, Int.bmod_def]
    split <;> omega
  -- The bits that are misplaced are the lowest five.
  have lowBits : (BitVec.ofInt 32 imm).setWidth 5 = 0#5 ↔ imm % 32 = 0 := by
    rw [← BitVec.toNat_inj, BitVec.toNat_setWidth, BitVec.toNat_ofInt, BitVec.toNat_ofNat]
    omega
  rw [branchRoundTrip_eq branch, ← lowBits, ← branchOffset_eq_iff, ← BitVec.toInt_inj, exact]
  simp

/-- `beq r1, r2` over the two words behind it goes twice as far. -/
theorem branchRoundTrip_twelve :
    branchRoundTrip .beq 0 1 2 12 stringEmpty 0 = some (.beq, regBits 1, regBits 2, 24) ∧
      branchRoundTrip .beq 0 1 2 12 stringEmpty 0 ≠ some (.beq, regBits 1, regBits 2, 12) := by
  decide +kernel

/-- A backward branch over 64 bytes, which arrives. -/
theorem branchRoundTrip_back64 :
    branchRoundTrip .blt 0 1 2 (-64) stringEmpty 0 = some (.blt, regBits 1, regBits 2, -64) :=
  (branchRoundTrip_iff (by decide) 0 1 2 (-64) stringEmpty 0 (by decide) (by decide)
    (by decide)).2 (by decide)

/--
The J format survives the round trip exactly for the forward offsets below 2^19.

The digit of the sign is always zero, and the mask of the eight digits next to it loses bit 19.
-/
theorem jalRoundTrip_iff (rd' rs1' rs2' : Fin 32) (imm : ℤ) (label : StringT) (lineAddr : ℤ)
    (even : imm % 2 = 0) (low : -2 ^ 20 ≤ imm) (high : imm ≤ 2 ^ 20 - 2) :
    jalRoundTrip rd' rs1' rs2' imm label lineAddr = some (regBits rd', imm) ↔
      0 ≤ imm ∧ imm < 2 ^ 19 := by
  -- In this range twenty-one bits hold the immediate.
  have exact : ((BitVec.ofInt 32 imm).setWidth 21).toInt = imm := by
    rw [BitVec.toInt_setWidth, BitVec.toNat_ofInt, Int.bmod_def]
    split <;> omega
  have lowest : (BitVec.ofInt 32 imm).getLsbD 0 = false := by
    rw [BitVec.getLsbD, BitVec.toNat_ofInt, Nat.testBit_zero]
    simp only [decide_eq_false_iff_not]
    omega
  -- The bits that are not printed are zero for the offsets up to the bound.
  have highBits : (BitVec.ofInt 32 imm).extractLsb' 19 2 = 0#2 ↔ 0 ≤ imm ∧ imm < 2 ^ 19 := by
    rw [← BitVec.toNat_inj, BitVec.extractLsb'_toNat, BitVec.toNat_ofInt, BitVec.toNat_ofNat,
      Nat.shiftRight_eq_div_pow]
    omega
  rw [jalRoundTrip_eq, ← highBits, ← jalOffset_eq_iff _ lowest, ← BitVec.toInt_inj, exact]
  simp

/-- The jump that closes a program of one word goes forward. -/
theorem jalRoundTrip_back4 :
    jalRoundTrip 6 0 0 (-4) stringEmpty 4 = some (regBits 6, 2 ^ 19 - 4) ∧
      jalRoundTrip 6 0 0 (-4) stringEmpty 4 ≠ some (regBits 6, -4) := by
  decide +kernel

/-- A short jump forward, which arrives. -/
theorem jalRoundTrip_forward8 :
    jalRoundTrip 6 0 0 8 stringEmpty 0 = some (regBits 6, 8) :=
  (jalRoundTrip_iff 6 0 0 8 stringEmpty 0 (by decide) (by decide) (by decide)).2 (by decide)

end MiniRiscV
