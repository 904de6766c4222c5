import Mathlib.Data.List.Forall2
import MiniRiscV.Asm.Digits

/-! The text written for the lines of a list: thirty-two binary digits for each instruction. -/

namespace MiniRiscV

/-- A text of some number of binary digits. -/
def Binary (n : ℕ) (text : CStr) : Prop := text.length = n ∧ ∀ c ∈ text, c = '0' ∨ c = '1'

instance (n : ℕ) (text : CStr) : Decidable (Binary n text) :=
  have : Decidable (∀ c ∈ text, c = '0' ∨ c = '1') := List.decidableBAll _ text
  inferInstanceAs (Decidable (_ ∧ _))

/-- The text of an instruction: a word of thirty-two binary digits and the end of its line. -/
def WordLine (text : CStr) : Prop := ∃ word, text = word ++ ['\n'] ∧ Binary 32 word

/-- A text of some shape is printed when the codes of some registers are known, and only then. -/
def Printed (regs : List Reg) (shape : CStr → Prop) (text : Option CStr) : Prop :=
  ((∀ reg ∈ regs, reg.isSome) → ∃ printed, text = some printed ∧ shape printed) ∧
    ((¬ ∀ reg ∈ regs, reg.isSome) → text = none)

section Digits

variable {n m : ℕ} {left right : CStr}

/-- Digits in front of digits are as many as both together. -/
theorem Binary.append (first : Binary n left) (second : Binary m right) :
    Binary (n + m) (left ++ right) := by
  -- The lengths add up, and each digit is in one of the parts.
  refine ⟨by rw [List.length_append, first.1, second.1], fun c mem => ?_⟩
  rcases List.mem_append.mp mem with mem | mem
  · exact first.2 c mem
  · exact second.2 c mem

/-- The digits of a bit vector are as many as its bits. -/
theorem binary_binaryText (w : BitVec n) : Binary n w.binaryText :=
  ⟨BitVec.length_binaryText w, fun _ mem => BitVec.mem_binaryText mem⟩

/-- `print_binary` writes as many digits as it is told to. -/
theorem binary_printBinary (w : BitVec 32) {size : ℕ} (fits : size ≤ 32) :
    Binary size (printBinary w size) := by
  rw [printBinary_eq w fits]
  exact binary_binaryText _

/-- A single masked bit is printed as one digit. -/
theorem binary_printDecimal (w : BitVec 32) {mask : BitVec 32} {k : ℕ} (fits : k < 31)
    (single : mask = 1#32 <<< k) : Binary 1 (printDecimal ((w &&& mask).sshiftRight k)) := by
  rw [printDecimal_bit w fits single]
  exact binary_binaryText _

end Digits

section Printing

variable {regs : List Reg} {shape : CStr → Prop}

/-- A text without a register is always printed. -/
theorem Printed.pure {text : CStr} (has : shape text) : Printed [] shape (some text) :=
  ⟨fun _ => ⟨text, rfl, has⟩, fun unknown => absurd (by simp) unknown⟩

/-- The code of a register is printed before the rest, when it is known. -/
theorem Printed.reg {reg : Reg} {k : CStr → Option CStr}
    (next : ∀ code, Binary 5 code → Printed regs shape (k code)) :
    Printed (reg :: regs) shape (reg2code reg >>= k) := by
  -- A missing register prints nothing, and another one five digits.
  cases reg with
  | none => exact ⟨fun known => by simp at known, fun _ => rfl⟩
  | some r =>
    rw [reg2code_some]
    simpa [Printed] using next (BitVec.ofNat 5 r).binaryText (binary_binaryText _)

/-- The opcode and the end of the line are printed behind the fields. -/
theorem Printed.line {fields : Option CStr} {opcode : String} (seven : Binary 7 opcode.toList)
    (printed : Printed regs (Binary 25) fields) :
    Printed regs WordLine (do return (← fields) ++ opcode.toList ++ ['\n']) := by
  -- Twenty-five digits and seven make a word.
  refine ⟨fun known => ?_, fun unknown => by rw [printed.2 unknown]; rfl⟩
  obtain ⟨text, rfl, digits⟩ := printed.1 known
  exact ⟨_, rfl, _, rfl, digits.append seven⟩

end Printing

namespace InsnLine

variable (line : InsnLine) {funct7 funct3 : String}

/-- The registers whose codes the line prints, by the type of its instruction. -/
def printedRegs : List Reg :=
  match line.insn.type with
  | .nop | .undefined => []
  | .regreg => [line.rs2, line.rs1, line.rd]
  | .regimm | .load | .jalr => [line.rs1, line.rd]
  | .branch | .store => [line.rs2, line.rs1]
  | .jal | .lui | .auipc => [line.rd]

/-- Three registers are printed with their constants in 25 digits. -/
theorem printed_regregText (seven : Binary 7 funct7.toList) (three : Binary 3 funct3.toList) :
    Printed [line.rs2, line.rs1, line.rd] (Binary 25) (line.regregText funct7 funct3) :=
  .reg fun _ rs2 => .reg fun _ rs1 => .reg fun _ rd =>
    .pure ((((seven.append rs2).append rs1).append three).append rd)

/-- Two registers and an immediate are printed in 25 digits as well. -/
theorem printed_immText (three : Binary 3 funct3.toList) :
    Printed [line.rs1, line.rd] (Binary 25) (line.immText funct3) :=
  .reg fun _ rs1 => .reg fun _ rd =>
    .pure ((((binary_printBinary _ (by decide)).append rs1).append three).append rd)

/-- A shift amount takes five digits, behind seven constant ones. -/
theorem printed_shiftText (seven : Binary 7 funct7.toList) (three : Binary 3 funct3.toList) :
    Printed [line.rs1, line.rd] (Binary 25) (line.shiftText funct7 funct3) :=
  .reg fun _ rs1 => .reg fun _ rd =>
    .pure ((((seven.append (binary_printBinary _ (by decide))).append rs1).append three).append rd)

/-- The pieces of a branch offset and two registers are 25 digits. -/
theorem printed_branchText (three : Binary 3 funct3.toList) :
    Printed [line.rs2, line.rs1] (Binary 25) (line.branchText funct3) :=
  -- The pieces have 1, 6, 5, 5, 3, 4 and 1 digits.
  .reg fun _ rs2 => .reg fun _ rs1 =>
    .pure (((((((binary_printDecimal _ (k := 12) (by decide) (by decide)).append
      (binary_printBinary _ (by decide))).append rs2).append rs1).append three).append
      (binary_printBinary _ (by decide))).append
      (binary_printDecimal _ (k := 11) (by decide) (by decide)))

/-- So are the two pieces of the immediate of a store and its registers. -/
theorem printed_storeText (three : Binary 3 funct3.toList) :
    Printed [line.rs2, line.rs1] (Binary 25) (line.storeText funct3) :=
  .reg fun _ rs2 => .reg fun _ rs1 =>
    .pure (((((binary_printBinary _ (by decide)).append rs2).append rs1).append three).append
      (binary_printBinary _ (by decide)))

/-- The pieces of a `JAL` offset are twenty digits, and its register five. -/
theorem printed_jalFields : Printed [line.rd] (Binary 25) line.jalFields := by
  -- The sign is always printed as a zero.
  have sign : Binary 1 (printDecimal ((line.imm32 &&& 0x40000#32).sshiftRight 20)) := by
    rw [printDecimal_jalSign]
    exact binary_binaryText _
  exact .reg fun _ rd =>
    .pure ((((sign.append (binary_printBinary _ (by decide))).append
      (binary_printDecimal _ (k := 11) (by decide) (by decide))).append
      (binary_printBinary _ (by decide))).append rd)

/-- An upper immediate is twenty digits, and its register five. -/
theorem printed_upperText : Printed [line.rd] (Binary 25) line.upperText :=
  .reg fun _ rd => .pure ((binary_printBinary _ (by decide)).append rd)

section Fields

variable {line} {insnSet : Insnset} (is : line.insn.insn = insnSet)

include is

/-- Each register-register instruction is printed so, whatever its constants. -/
theorem printed_regregFields (regreg : (insnset2insn insnSet).type = .regreg) :
    Printed [line.rs2, line.rs1, line.rd] (Binary 25) line.regregFields := by
  -- One case for each mnemonic, of which ten are of this type.
  rw [regregFields, is]
  cases insnSet
  all_goals first
    | exact absurd regreg (by decide)
    | exact line.printed_regregText (by decide) (by decide)

/-- Each register-immediate one is printed in one of two ways, the shifts in theirs. -/
theorem printed_regimmFields (regimm : (insnset2insn insnSet).type = .regimm) :
    Printed [line.rs1, line.rd] (Binary 25) line.regimmFields := by
  -- One case for each mnemonic; the shifts have a text of their own.
  rw [regimmFields, is]
  cases insnSet
  all_goals first
    | exact absurd regimm (by decide)
    | exact line.printed_immText (by decide)
    | exact line.printed_shiftText (by decide) (by decide)

/-- Each branch prints its two registers. -/
theorem printed_branchFields (branch : (insnset2insn insnSet).type = .branch) :
    Printed [line.rs2, line.rs1] (Binary 25) line.branchFields := by
  rw [branchFields, is]
  cases insnSet
  all_goals first
    | exact absurd branch (by decide)
    | exact line.printed_branchText (by decide)

/-- Each load is printed like a register-immediate instruction. -/
theorem printed_loadFields (load : (insnset2insn insnSet).type = .load) :
    Printed [line.rs1, line.rd] (Binary 25) line.loadFields := by
  rw [loadFields, is]
  cases insnSet
  all_goals first
    | exact absurd load (by decide)
    | exact line.printed_immText (by decide)

/-- Each store prints its two registers. -/
theorem printed_storeFields (store : (insnset2insn insnSet).type = .store) :
    Printed [line.rs2, line.rs1] (Binary 25) line.storeFields := by
  rw [storeFields, is]
  cases insnSet
  all_goals first
    | exact absurd store (by decide)
    | exact line.printed_storeText (by decide)

end Fields

/-- A line with the type of its instruction prints one word when its registers are known. -/
theorem printed_write {insnSet : Insnset} (typed : line.insn = insnset2insn insnSet) :
    Printed line.printedRegs WordLine line.write := by
  -- One case for each type of instruction, whose opcode has seven digits.
  have is : line.insn.insn = insnSet := by rw [typed]; rfl
  have kind : line.insn.type = (insnset2insn insnSet).type := by rw [typed]
  rw [write, printedRegs]
  cases type : line.insn.type with
  | nop => exact .pure ⟨_, rfl, by decide⟩
  | regreg => exact .line (by decide) (printed_regregFields is (kind.symm.trans type))
  | regimm => exact .line (by decide) (printed_regimmFields is (kind.symm.trans type))
  | branch => exact .line (by decide) (printed_branchFields is (kind.symm.trans type))
  | load => exact .line (by decide) (printed_loadFields is (kind.symm.trans type))
  | store => exact .line (by decide) (printed_storeFields is (kind.symm.trans type))
  | jal => exact .line (by decide) line.printed_jalFields
  | jalr => exact .line (by decide) (line.printed_immText (by decide))
  | lui => exact .line (by decide) line.printed_upperText
  | auipc => exact .line (by decide) line.printed_upperText
  | undefined =>
    have never : (insnset2insn insnSet).type ≠ .undefined := by cases insnSet <;> decide
    exact absurd (kind.symm.trans type) never

/-- What a line with the type of its instruction prints is one word. -/
theorem wordLine_of_write {insnSet : Insnset} (typed : line.insn = insnset2insn insnSet)
    {text : CStr} (written : line.write = some text) :
    WordLine text ∧ ∀ reg ∈ line.printedRegs, reg.isSome := by
  -- A line with a missing register is not written at all.
  have printed := line.printed_write typed
  by_cases known : ∀ reg ∈ line.printedRegs, reg.isSome
  · obtain ⟨word, same, shape⟩ := printed.1 known
    obtain rfl := Option.some.inj (written.symm.trans same)
    exact ⟨shape, known⟩
  · rw [printed.2 known] at written
    cases written

end InsnLine

/-- The instruction lines of a list, in order. -/
def insnLines (insnList : List AsmLine) : List InsnLine :=
  insnList.filterMap fun line =>
    match line with
    | .insnLine line => some line
    | .labelLine _ => none

/-- Every instruction line has the type of its instruction. -/
def Typed (insnList : List AsmLine) : Prop :=
  ∀ line ∈ insnLines insnList, ∃ insnSet, line.insn = insnset2insn insnSet

/-- One word of thirty-two binary digits for each instruction line, in the order of the list. -/
def Words (insnList : List AsmLine) (words : List CStr) : Prop :=
  List.Forall₂ (fun line word => line.write = some (word ++ ['\n']) ∧ Binary 32 word)
    (insnLines insnList) words

/-- The text of a file with a word on each line. -/
def fileText (words : List CStr) : CStr := words.flatMap (· ++ ['\n'])

section Files

variable {insnList : List AsmLine}

/-- No lines, no instruction lines. -/
@[simp] theorem insnLines_nil : insnLines [] = [] := rfl

/-- The line of an instruction is one of them. -/
@[simp] theorem insnLines_insnLine (line : InsnLine) (rest : List AsmLine) :
    insnLines (.insnLine line :: rest) = line :: insnLines rest := rfl

/-- The line of a label is not. -/
@[simp] theorem insnLines_labelLine (label : LabelLine) (rest : List AsmLine) :
    insnLines (.labelLine label :: rest) = insnLines rest := rfl

/-- Those of one list come in front of those of the other. -/
@[simp] theorem insnLines_append (left right : List AsmLine) :
    insnLines (left ++ right) = insnLines left ++ insnLines right := List.filterMap_append

/-- The instruction lines are the lines that are of instructions. -/
theorem mem_insnLines {line : InsnLine} :
    line ∈ insnLines insnList ↔ .insnLine line ∈ insnList := by
  -- Only lines of instructions are kept.
  rw [insnLines, List.mem_filterMap]
  constructor
  · rintro ⟨other, mem, same⟩
    cases other with
    | insnLine other =>
      obtain rfl := Option.some.inj same
      exact mem
    | labelLine label => cases same
  · exact fun mem => ⟨_, mem, rfl⟩

/-- With every register known the file has one word for each instruction line. -/
theorem asmLineText_known (typed : Typed insnList)
    (known : ∀ line ∈ insnLines insnList, ∀ reg ∈ line.printedRegs, reg.isSome) :
    ∃ words, Words insnList words ∧ asmLineText insnList = some (fileText words) := by
  -- By induction on the lines, of which those of labels write nothing.
  induction insnList with
  | nil => exact ⟨[], .nil, rfl⟩
  | cons line rest ih =>
    cases line with
    | labelLine label =>
      obtain ⟨words, each, text⟩ := ih typed known
      exact ⟨words, each, by simp [asmLineText, AsmLine.write, text]⟩
    | insnLine line =>
      simp only [Typed, insnLines_insnLine, List.forall_mem_cons] at typed known
      obtain ⟨words, each, text⟩ := ih typed.2 known.2
      obtain ⟨insnSet, is⟩ := typed.1
      obtain ⟨_, written, word, rfl, binary⟩ := (line.printed_write is).1 known.1
      exact ⟨word :: words, .cons ⟨written, binary⟩ each, by
        simp [asmLineText, AsmLine.write, written, text, fileText]⟩

/-- With some register unknown a null pointer is printed. -/
theorem asmLineText_unknown (typed : Typed insnList)
    (unknown : ¬ ∀ line ∈ insnLines insnList, ∀ reg ∈ line.printedRegs, reg.isSome) :
    asmLineText insnList = none := by
  -- By induction on the lines, up to the first with a missing register.
  induction insnList with
  | nil => simp at unknown
  | cons line rest ih =>
    cases line with
    | labelLine label => simp [asmLineText, AsmLine.write, ih typed unknown]
    | insnLine line =>
      simp only [Typed, insnLines_insnLine, List.forall_mem_cons] at typed unknown
      obtain ⟨insnSet, is⟩ := typed.1
      by_cases known : ∀ reg ∈ line.printedRegs, reg.isSome
      · have rest := ih typed.2 fun others => unknown ⟨known, others⟩
        cases written : line.write <;> simp [asmLineText, AsmLine.write, written, rest]
      · simp [asmLineText, AsmLine.write, (line.printed_write is).2 known]

/-- A text is written exactly when every register it needs is known, and is then one of words. -/
theorem asmLineText_eq_some (typed : Typed insnList) {text : CStr}
    (written : asmLineText insnList = some text) :
    ∃ words, Words insnList words ∧ text = fileText words := by
  -- The text exists, so no register is missing.
  by_cases known : ∀ line ∈ insnLines insnList, ∀ reg ∈ line.printedRegs, reg.isSome
  · obtain ⟨words, each, same⟩ := asmLineText_known typed known
    exact ⟨words, each, Option.some.inj (written.symm.trans same)⟩
  · rw [asmLineText_unknown typed known] at written
    cases written

end Files

end MiniRiscV
