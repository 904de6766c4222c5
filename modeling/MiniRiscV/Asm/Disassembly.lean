import MiniRiscV.Asm.Image
import MiniRiscV.Asm.Truncation

/-! The words of a file read back: each gives its instruction, its registers and its operand. -/

namespace MiniRiscV

/-- What the formats keep of an instruction line. -/
inductive Coded where
  | nop
  | register (insn : Insnset) (rd rs1 rs2 : BitVec 5)
  | immediate (insn : Insnset) (rd rs1 : BitVec 5) (imm : BitVec 12)
  | shift (insn : Insnset) (rd rs1 shamt : BitVec 5)
  | store (insn : Insnset) (rs1 rs2 : BitVec 5) (imm : BitVec 12)
  | branch (insn : Insnset) (rs1 rs2 : BitVec 5) (offset : BitVec 13)
  | jal (rd : BitVec 5) (offset : BitVec 21)
  | upper (insn : Insnset) (rd : BitVec 5) (imm : BitVec 20)
  deriving DecidableEq

/-- What is kept of a line, none when a register that is printed is missing. -/
def InsnLine.coded (line : InsnLine) : Option Coded :=
  match line.insn.type with
  | .nop => some .nop
  | .regreg => do
    return .register line.insn.insn (regBits (← line.rd)) (regBits (← line.rs1))
      (regBits (← line.rs2))
  | .regimm => do
    if line.insn.insn.isShift then
      return .shift line.insn.insn (regBits (← line.rd)) (regBits (← line.rs1))
        (line.imm32.setWidth 5)
    else
      return .immediate line.insn.insn (regBits (← line.rd)) (regBits (← line.rs1))
        (line.imm32.setWidth 12)
  | .load => do
    return .immediate line.insn.insn (regBits (← line.rd)) (regBits (← line.rs1))
      (line.imm32.setWidth 12)
  -- An instruction that is not known has this type too.
  | .jalr => do
    return .immediate .jalr (regBits (← line.rd)) (regBits (← line.rs1)) (line.imm32.setWidth 12)
  | .store => do
    return .store line.insn.insn (regBits (← line.rs1)) (regBits (← line.rs2))
      (line.imm32.setWidth 12)
  | .branch => do
    return .branch line.insn.insn (regBits (← line.rs1)) (regBits (← line.rs2))
      (branchOffset line.imm32)
  | .jal => do return .jal (regBits (← line.rd)) (jalOffset line.imm32)
  | .lui | .auipc => do
    return .upper line.insn.insn (regBits (← line.rd)) (line.imm32.extractLsb' 12 20)
  | .undefined => none

namespace Insnset

variable (insn : Insnset) (w : Word)

/-- The words of the instruction have a `funct3`. -/
def hasFunct3 : Bool :=
  (insnset2insn insn).type ∈ [.regreg, .regimm, .load, .store, .branch, .jalr]

/-- The words of the instruction have a `funct7`. -/
def hasFunct7 : Bool := (insnset2insn insn).type = .regreg ∨ insn.isShift

/-- The word has the codes of the instruction. -/
def Spells : Prop :=
  Rv32i.opcode w = insn.isaOpcode ∧ (insn.hasFunct3 → Rv32i.funct3 w = insn.isaFunct3) ∧
    (insn.hasFunct7 → Rv32i.funct7 w = insn.isaFunct7)

instance : Decidable (insn.Spells w) := inferInstanceAs (Decidable (_ ∧ _ ∧ _))

/-- What a word of the instruction holds. -/
def coded : Coded :=
  match (insnset2insn insn).type with
  | .nop | .undefined => .nop
  | .regreg => .register insn (Rv32i.rd w) (Rv32i.rs1 w) (Rv32i.rs2 w)
  | .regimm =>
    if insn.isShift then .shift insn (Rv32i.rd w) (Rv32i.rs1 w) (Rv32i.rs2 w)
    else .immediate insn (Rv32i.rd w) (Rv32i.rs1 w) (Rv32i.immI w)
  | .load | .jalr => .immediate insn (Rv32i.rd w) (Rv32i.rs1 w) (Rv32i.immI w)
  | .store => .store insn (Rv32i.rs1 w) (Rv32i.rs2 w) (Rv32i.immS w)
  | .branch => .branch insn (Rv32i.rs1 w) (Rv32i.rs2 w) (Rv32i.immB w)
  | .jal => .jal (Rv32i.rd w) (Rv32i.immJ w)
  | .lui | .auipc => .upper insn (Rv32i.rd w) (Rv32i.immU w)

end Insnset

/-- The instructions, as `str2insn` knows them. -/
def insnsets : List Insnset := insnNames.map Prod.snd

/-- A word read back, if it has the codes of an instruction. -/
def disassemble (w : Word) : Option Coded :=
  (insnsets.find? fun insn => insn.Spells w).map fun insn => insn.coded w

section Reading

variable {insn insn' : Insnset} {w : Word}

/-- No word has the codes of two instructions. -/
theorem Insnset.Spells.unique (mem : insn ∈ insnsets) (mem' : insn' ∈ insnsets)
    (spells : insn.Spells w) (spells' : insn'.Spells w) : insn = insn' := by
  -- The codes of each two of them differ in some part.
  have apart : ∀ insn ∈ insnsets, ∀ insn' ∈ insnsets, insn.isaOpcode = insn'.isaOpcode →
      (insn.hasFunct3 → insn'.hasFunct3 → insn.isaFunct3 = insn'.isaFunct3) →
      (insn.hasFunct7 → insn'.hasFunct7 → insn.isaFunct7 = insn'.isaFunct7) → insn = insn' := by
    decide +kernel
  obtain ⟨opcode, funct3, funct7⟩ := spells
  obtain ⟨opcode', funct3', funct7'⟩ := spells'
  -- Where both have a part, it is that of the word, and so the same.
  refine apart insn mem insn' mem' (opcode.symm.trans opcode') (fun has has' => ?_)
    fun has has' => ?_
  · exact (funct3 has).symm.trans (funct3' has')
  · exact (funct7 has).symm.trans (funct7' has')

/-- A word with the codes of an instruction is read as one of its words. -/
theorem disassemble_of_spells (mem : insn ∈ insnsets) (spells : insn.Spells w) :
    disassemble w = some (insn.coded w) := by
  -- Some instruction is found, and it can be no other one.
  have found : (insnsets.find? fun insn => insn.Spells w).isSome := by
    rw [List.find?_isSome]
    exact ⟨insn, mem, by simpa using spells⟩
  obtain ⟨first, found⟩ := Option.isSome_iff_exists.mp found
  have spells' : first.Spells w := by simpa using List.find?_some found
  rw [disassemble, found, (spells'.unique (List.mem_of_find?_eq_some found) mem spells)]
  rfl

/-- The codes and the instructions of the types. -/
theorem codes_of_type (insn : Insnset) :
    ((insnset2insn insn).type = .branch → insn.isaOpcode = 0b1100011#7) ∧
      ((insnset2insn insn).type ∈ [InsnType.load, .store, .branch] → insn.hasFunct7 = false) ∧
      ((insnset2insn insn).type = .jal → insn = .jal) ∧
      ((insnset2insn insn).type = .nop → insn = .nop) := by
  -- One case for each mnemonic.
  cases insn <;> decide

/-- Every instruction with a type of its own is known. -/
theorem mem_insnsets (other : (insnset2insn insn).type ≠ .jalr) : insn ∈ insnsets := by
  -- Only the instruction that is not known shares its type, with `JALR`.
  cases insn with
  | undefined => exact absurd rfl other
  | _ => decide

end Reading

section Formats

variable {insn : Insnset} {d a b : BitVec 5}

/-- A word of the R format has the two functions of its instruction. -/
theorem disassemble_regreg (type : (insnset2insn insn).type = .regreg) :
    disassemble (Rv32i.rType 0b0110011#7 d a b insn.isaFunct3 insn.isaFunct7) =
      some (.register insn d a b) := by
  -- Every field of the word is the one that was put there.
  obtain ⟨op, fd, fa, fb, f3, f7⟩ := Rv32i.fields_rType 0b0110011#7 d a b insn.isaFunct3
    insn.isaFunct7
  rw [disassemble_of_spells (mem_insnsets (by rw [type]; decide))
    ⟨op.trans ((isaOpcode_of_type insn).1 type).symm, fun _ => f3, fun _ => f7⟩]
  simp only [Insnset.coded, type, fd, fa, fb]

/-- A shift by an immediate has them too. -/
theorem disassemble_shift (shift : insn.isShift) :
    disassemble (Rv32i.rType 0b0010011#7 d a b insn.isaFunct3 insn.isaFunct7) =
      some (.shift insn d a b) := by
  have type : (insnset2insn insn).type = .regimm := by
    -- Three instructions are shifts, and all the others are not.
    cases insn
    all_goals first
      | exact absurd shift (by decide)
      | decide
  -- Its shift amount stands where the second register of the R format is.
  obtain ⟨op, fd, fa, fb, f3, f7⟩ := Rv32i.fields_rType 0b0010011#7 d a b insn.isaFunct3
    insn.isaFunct7
  rw [disassemble_of_spells (mem_insnsets (by rw [type]; decide))
    ⟨op.trans ((isaOpcode_of_type insn).2.1 type).symm, fun _ => f3, fun _ => f7⟩]
  simp only [Insnset.coded, type, shift, if_true, fd, fa, fb]

/-- A word of the I format has an immediate, whatever its opcode. -/
theorem disassemble_iType (mem : insn ∈ insnsets) (noFunct7 : insn.hasFunct7 = false)
    (immediate : ∀ w, insn.coded w = .immediate insn (Rv32i.rd w) (Rv32i.rs1 w) (Rv32i.immI w))
    (imm : BitVec 12) :
    disassemble (Rv32i.iType insn.isaOpcode d a insn.isaFunct3 imm) =
      some (.immediate insn d a imm) := by
  obtain ⟨op, fd, fa, f3, fi⟩ := Rv32i.fields_iType insn.isaOpcode d a insn.isaFunct3 imm
  -- The place of a `funct7` is taken by the immediate, so there is none to compare.
  rw [disassemble_of_spells mem ⟨op, fun _ => f3, fun has => by simp [noFunct7] at has⟩, immediate,
    fd, fa, fi]

/-- A word of the S format is read back, its immediate being put together again. -/
theorem disassemble_store (type : (insnset2insn insn).type = .store) (imm : BitVec 12) :
    disassemble (Rv32i.sType 0b0100011#7 a b insn.isaFunct3 imm) =
      some (.store insn a b imm) := by
  obtain ⟨op, fa, fb, f3, fi⟩ := Rv32i.fields_sType 0b0100011#7 a b insn.isaFunct3 imm
  -- The upper part of the immediate is where others have a `funct7`.
  have noFunct7 := (codes_of_type insn).2.1 (by simp [type])
  rw [disassemble_of_spells (mem_insnsets (by rw [type]; decide))
    ⟨op.trans ((isaOpcode_of_type insn).2.2.2 type).symm, fun _ => f3,
      fun has => by simp [noFunct7] at has⟩]
  simp only [Insnset.coded, type, fa, fb, fi]

/-- The offset of a branch is even, and so its lowest bit is not missing. -/
theorem disassemble_branch (type : (insnset2insn insn).type = .branch) (imm : BitVec 32) :
    disassemble (Rv32i.bType 0b1100011#7 a b insn.isaFunct3 (branchOffset imm)) =
      some (.branch insn a b (branchOffset imm)) := by
  -- The format leaves the lowest bit out, and it reads as zero.
  obtain ⟨op, fa, fb, f3, fi⟩ := Rv32i.fields_bType 0b1100011#7 a b insn.isaFunct3
    (branchOffset imm) (by rw [getLsbD_branchOffset _ (by decide)]; rfl)
  have noFunct7 := (codes_of_type insn).2.1 (by simp [type])
  rw [disassemble_of_spells (mem_insnsets (by rw [type]; decide))
    ⟨op.trans ((codes_of_type insn).1 type).symm, fun _ => f3,
      fun has => by simp [noFunct7] at has⟩]
  simp only [Insnset.coded, type, fa, fb, fi]

/-- A word of a `JAL` line is read back with the offset that it holds. -/
theorem disassemble_jal (imm : BitVec 32) :
    disassemble (Rv32i.jType 0b1101111#7 d (jalOffset imm)) = some (.jal d (jalOffset imm)) := by
  -- The lowest bit of the offset is left out here as well.
  obtain ⟨op, fd, fi⟩ := Rv32i.fields_jType 0b1101111#7 d (jalOffset imm)
    (by rw [getLsbD_jalOffset _ (by decide)]; rfl)
  -- The opcode alone makes the word a `JAL`.
  have spells : Insnset.jal.Spells (Rv32i.jType 0b1101111#7 d (jalOffset imm)) :=
    ⟨op, fun has => absurd has (by decide), fun has => absurd has (by decide)⟩
  rw [disassemble_of_spells (by decide) spells]
  exact congrArg₂ (fun d imm => some (Coded.jal d imm)) fd fi

/-- The two instructions of the U format are told apart by their opcodes. -/
theorem disassemble_upper (upper : insn = .lui ∨ insn = .auipc) (imm : BitVec 20) :
    disassemble (Rv32i.uType insn.isaOpcode d imm) = some (.upper insn d imm) := by
  obtain ⟨op, fd, fi⟩ := Rv32i.fields_uType insn.isaOpcode d imm
  -- Neither of the two has a function, and both hold the same fields.
  have known : insn ∈ insnsets ∧ insn.hasFunct3 = false ∧ insn.hasFunct7 = false ∧
      ∀ w, insn.coded w = .upper insn (Rv32i.rd w) (Rv32i.immU w) := by
    rcases upper with rfl | rfl
    · exact ⟨by decide, by decide, by decide, fun _ => rfl⟩
    · exact ⟨by decide, by decide, by decide, fun _ => rfl⟩
  obtain ⟨mem, noFunct3, noFunct7, coded⟩ := known
  rw [disassemble_of_spells mem ⟨op, fun has => by simp [noFunct3] at has,
    fun has => by simp [noFunct7] at has⟩, coded, fd, fi]

end Formats

section Lines

variable {line : InsnLine} {insn : Insnset} {w w' : Word}

/-- The word that is written for a line is the one of its format. -/
theorem eq_of_write (written : line.write = some (w.binaryText ++ ['\n']))
    (written' : line.write = some (w'.binaryText ++ ['\n'])) : w = w' := by
  -- Digits and a newline determine the digits, and these the word.
  rw [written', Option.some.injEq, List.append_cancel_right_eq, BitVec.binaryText_inj] at written
  exact written.symm

/-- The registers that a line does not print may as well be known. -/
theorem exists_registerLine (is : line.insn = insnset2insn insn)
    (known : ∀ reg ∈ line.printedRegs, reg.isSome) :
    ∃ rd rs1 rs2,
      line.write = (registerLine insn rd rs1 rs2 line.imm line.label line.lineAddr).write ∧
      line.coded = (registerLine insn rd rs1 rs2 line.imm line.label line.lineAddr).coded := by
  obtain ⟨insn', rd, rs1, rs2, imm, label, lineAddr⟩ := line
  obtain rfl : insn' = insnset2insn insn := is
  -- Register zero stands for those that the format of the line leaves out.
  cases type : (insnset2insn insn).type
  all_goals
    simp only [InsnLine.printedRegs, type, List.forall_mem_cons, Option.isSome_iff_exists] at known
    simp only [InsnLine.write, InsnLine.coded, registerLine, type]
  case regreg =>
    obtain ⟨⟨b, rfl⟩, ⟨a, rfl⟩, ⟨d, rfl⟩, -⟩ := known
    exact ⟨d, a, b, rfl, rfl⟩
  case regimm | load | jalr =>
    obtain ⟨⟨a, rfl⟩, ⟨d, rfl⟩, -⟩ := known
    exact ⟨d, a, 0, rfl, rfl⟩
  case store | branch =>
    obtain ⟨⟨b, rfl⟩, ⟨a, rfl⟩, -⟩ := known
    exact ⟨0, a, b, rfl, rfl⟩
  case jal | lui | auipc =>
    obtain ⟨⟨d, rfl⟩, -⟩ := known
    exact ⟨d, 0, 0, rfl, rfl⟩
  case nop | undefined => exact ⟨0, 0, 0, trivial, trivial⟩

section Registers

variable {rd' rs1' rs2' : Fin 32} {imm : ℤ} {label : StringT} {lineAddr : ℤ}

/-- What is read from the word of a line with known registers is what the formats keep of it. -/
theorem disassemble_registerLine
    (written : (registerLine insn rd' rs1' rs2' imm label lineAddr).write =
      some (w.binaryText ++ ['\n'])) :
    disassemble w = (registerLine insn rd' rs1' rs2' imm label lineAddr).coded := by
  obtain ⟨regregCode, regimmCode, loadCode, storeCode⟩ := isaOpcode_of_type insn
  have isType : (registerLine insn rd' rs1' rs2' imm label lineAddr).insn.type =
    (insnset2insn insn).type := rfl
  -- One case for each format.
  cases type : (insnset2insn insn).type with
  | regreg =>
    obtain rfl := eq_of_write written (write_regreg type)
    rw [disassemble_regreg type, InsnLine.coded, isType, type]
    rfl
  | regimm =>
    -- A shift is written in the R format, the others in the I format.
    by_cases shift : insn.isShift
    · obtain rfl := eq_of_write written (write_shift shift)
      rw [disassemble_shift shift]
      simp [InsnLine.coded, InsnLine.imm32, registerLine, type, shift]
    · obtain rfl := eq_of_write written (write_regimm type shift)
      have read := @disassemble_iType insn (regBits rd') (regBits rs1')
        (mem_insnsets (by rw [type]; decide)) (by simp [Insnset.hasFunct7, type, shift])
        (fun _ => by simp [Insnset.coded, type, shift])
      rw [regimmCode type] at read
      rw [read]
      simp [InsnLine.coded, InsnLine.imm32, registerLine, type, shift]
  | load =>
    obtain rfl := eq_of_write written (write_load type)
    have noFunct7 := (codes_of_type insn).2.1 (by simp [type])
    have read := @disassemble_iType insn (regBits rd') (regBits rs1')
      (mem_insnsets (by rw [type]; decide)) noFunct7 (fun _ => by simp [Insnset.coded, type])
    rw [loadCode type] at read
    rw [read, InsnLine.coded, isType, type]
    rfl
  | jalr =>
    obtain rfl := eq_of_write written (write_jalr type)
    have read := @disassemble_iType .jalr (regBits rd') (regBits rs1') (by decide) (by decide)
      (fun _ => rfl)
    refine (read _).trans ?_
    rw [InsnLine.coded, isType, type]
    rfl
  | store =>
    obtain rfl := eq_of_write written (write_store type)
    rw [disassemble_store type, InsnLine.coded, isType, type]
    rfl
  | branch =>
    obtain rfl := eq_of_write written (write_branch type)
    rw [disassemble_branch type, InsnLine.coded, isType, type]
    rfl
  | jal =>
    obtain rfl := (codes_of_type insn).2.2.1 type
    obtain rfl := eq_of_write written write_jal
    exact disassemble_jal _
  | lui =>
    obtain rfl := eq_of_type_upper.1 type
    obtain rfl := eq_of_write written (write_upper (.inl rfl))
    exact disassemble_upper (.inl rfl) _
  | auipc =>
    obtain rfl := eq_of_type_upper.2 type
    obtain rfl := eq_of_write written (write_upper (.inr rfl))
    exact disassemble_upper (.inr rfl) _
  | nop =>
    obtain rfl := (codes_of_type insn).2.2.2 type
    -- A no-operation is written as the empty word, which is read as one.
    obtain rfl := InsnLine.zero_of_nop rfl written
    exact show disassemble 0#32 = some .nop by decide
  | undefined =>
    cases insn
    all_goals exact absurd type (by decide)

end Registers

/-- What is read from the word of a line is what the formats keep of it. -/
theorem disassemble_of_wordOf (wordOf : WordOf line w) :
    disassemble w = line.coded ∧ line.coded.isSome := by
  obtain ⟨⟨insn, is⟩, written⟩ := wordOf
  -- The line may as well have all its registers.
  obtain ⟨rd, rs1, rs2, alike, same⟩ :=
    exists_registerLine is (line.wordLine_of_write is written).2
  rw [same]
  refine ⟨disassemble_registerLine (alike.symm.trans written), ?_⟩
  -- With its registers, a line of each type is kept.
  rw [InsnLine.coded, show (registerLine insn rd rs1 rs2 line.imm line.label
    line.lineAddr).insn.type = (insnset2insn insn).type from rfl]
  cases type : (insnset2insn insn).type with
  | regimm =>
    dsimp only
    split <;> rfl
  | undefined => exact absurd type (by cases insn <;> decide)
  | _ => rfl

/-- The words of some lines are read back, one after the other. -/
theorem disassemble_words {lines : List InsnLine} {words : List Word}
    (each : List.Forall₂ WordOf lines words) :
    words.map disassemble = lines.map InsnLine.coded ∧
      ∀ word ∈ words, (disassemble word).isSome := by
  -- By induction on the lines, each with its word.
  induction each with
  | nil => exact ⟨rfl, by simp⟩
  | cons wordOf _ ih =>
    -- The word of the first line is read, and the others are by induction.
    obtain ⟨read, kept⟩ := disassemble_of_wordOf wordOf
    refine ⟨by rw [List.map_cons, List.map_cons, read, ih.1], List.forall_mem_cons.mpr ⟨?_, ih.2⟩⟩
    rw [read, kept]

end Lines

section Sources

variable {lexems : List Lexem} {verbose : Bool}

/-- The file of an accepted program is that of the words of its lines. -/
theorem exists_words {text : CStr} (accepted : Accepted lexems)
    (linked : verbose → Resolvable (parsedLines lexems))
    (written : asmLineText (writtenLines verbose lexems) = some text) :
    ∃ words : List Word, text = fileText (words.map BitVec.binaryText) ∧
      List.Forall₂ WordOf (insnLines (writtenLines verbose lexems)) words := by
  have typed : Typed (writtenLines verbose lexems) := by
    cases verbose with
    | false => exact typed_parsedLines accepted
    | true =>
      -- Resolving the labels leaves the instructions as they are.
      rw [writtenLines, if_pos rfl, asmLineUpdateAdress_lines (linked rfl)]
      exact typed_map_resolve _ (typed_parsedLines accepted)
  obtain ⟨texts, each, rfl⟩ := asmLineText_eq_some typed written
  obtain ⟨words, rfl, ofLines⟩ := each.exists_word typed
  exact ⟨words, rfl, ofLines⟩

/--
The file of a successful run can be read back, word by word.

Each word gives the instruction of its line, the registers, and the bits of the operand that its
format holds; those of a branch or a `JAL` are in the places where they were written, which are not
all those of the offset. No word could stand for two instructions.
-/
theorem main_disassembled {fs fs' : FileSystem} {sourceFile regexpsFile binfile : CStr} {code : ℤ}
    (run : main fs (arguments sourceFile regexpsFile binfile verbose) = some (.success, fs'))
    (tokens : tokenise fs sourceFile regexpsFile = some (code, lexems)) :
    ∃ words : List Word, fs'.read binfile = some (fileText (words.map BitVec.binaryText)) ∧
      words.map disassemble = (insnLines (writtenLines verbose lexems)).map InsnLine.coded ∧
      ∀ word ∈ words, (disassemble word).isSome := by
  -- A successful run is one of an accepted program whose lines are all written.
  obtain ⟨accepted, linked, text, written, rfl⟩ := main_success run tokens
  obtain ⟨words, rfl, each⟩ := exists_words accepted linked written
  exact ⟨words, fs.read_write _ _, disassemble_words each⟩

/-- The words of `li r1,5` and of the closing jump. -/
theorem main_disassembled_li : ∃ (fs' : FileSystem) (words : List Word),
    main (filesOf "li r1,5\n")
        (arguments "prog.s".toList "database.txt".toList "prog.bin".toList false) =
      some (.success, fs') ∧
    fs'.read "prog.bin".toList = some (fileText (words.map BitVec.binaryText)) ∧
    words.map disassemble = [some (.immediate .addi 1 0 5), some (.jal 6 0)] := by
  -- The source is read and assembled by evaluation.
  have evaluated :
      (tokenise (filesOf "li r1,5\n") "prog.s".toList "database.txt".toList).map
        (fun tokens =>
          ((insnLines (writtenLines false tokens.2)).map InsnLine.coded,
            (assemble (filesOf "li r1,5\n") false tokens.2 "prog.bin".toList).map Prod.fst)) =
      some ([some (.immediate .addi 1 0 5), some (.jal 6 0)], some .success) := by
    decide +kernel
  obtain ⟨⟨code, lexems⟩, tokens, same⟩ := Option.map_eq_some_iff.mp evaluated
  obtain ⟨kept, exits⟩ := Prod.mk.inj same
  obtain ⟨⟨_, fs'⟩, assembled, rfl⟩ := Option.map_eq_some_iff.mp exits
  -- The source is read once, and the run goes on from its lexemes.
  have run : main (filesOf "li r1,5\n")
      (arguments "prog.s".toList "database.txt".toList "prog.bin".toList false) =
        some (.success, fs') := by
    rw [main_arguments, tokens, Option.bind_some]
    exact assembled
  obtain ⟨words, file, read, -⟩ := main_disassembled run tokens
  exact ⟨fs', words, run, file, read.trans kept⟩

end Sources

end MiniRiscV
