import MiniRiscV.Asm.Concatenation
import MiniRiscV.Asm.Disassembly
import MiniRiscV.Asm.Spelling

/-! Programs as data: their source text, their lines, and that the assembler makes these of it. -/

namespace MiniRiscV

/-- The instructions of a type. -/
abbrev OfType (type : InsnType) := {insn : Insnset // (insnset2insn insn).type = type}

/-- A line of a source as it is meant. -/
inductive Statement where
  | label (name : Label)
  | regreg (insn : OfType .regreg) (rd rs1 rs2 : Fin 32)
  | regimm (insn : OfType .regimm) (rd rs1 : Fin 32) (imm : BitVec 32)
  | branch (insn : OfType .branch) (rs1 rs2 : Fin 32) (target : Label)
  | load (insn : OfType .load) (rd rs1 : Fin 32) (imm : BitVec 32)
  | store (insn : OfType .store) (rs1 rs2 : Fin 32) (imm : BitVec 32)
  | jal (rd : Fin 32) (target : Label)
  | jalr (rd rs1 : Fin 32) (target : Label)
  | lui (rd : Fin 32) (imm : BitVec 32)
  | auipc (rd : Fin 32) (imm : BitVec 32)
  | j (target : Label)
  | li (rd : Fin 32) (imm : BitVec 32)
  | mv (rd rs1 : Fin 32)

/-- The first mnemonic that `str2insn` takes for the instruction. -/
def Insnset.mnemonic (insn : Insnset) : {word // word ∈ mnemonics} :=
  match found : mnemonics.find? fun word => str2insn word.1.toList = insnset2insn insn with
  | some word => ⟨word, List.mem_of_find?_eq_some found⟩
  | none => ⟨("insn::NOP", "nop"), by decide⟩

namespace Statement

/-- The operands behind a mnemonic, with what separates them. -/
def operands : Statement → List Token
  | label _ => []
  | regreg _ rd rs1 rs2 => [.register rd, .comma, .register rs1, .comma, .register rs2]
  | regimm _ rd rs1 imm => [.register rd, .comma, .register rs1, .comma, .integer imm]
  | branch _ rs1 rs2 target => [.register rs1, .comma, .register rs2, .comma, .reference target]
  | load _ rd rs1 imm => [.register rd, .comma, .integer imm, .left, .register rs1, .right]
  | store _ rs1 rs2 imm => [.register rs2, .comma, .integer imm, .left, .register rs1, .right]
  | jal rd target => [.register rd, .comma, .reference target]
  | jalr rd rs1 target => [.register rd, .comma, .register rs1, .comma, .reference target]
  | lui rd imm | auipc rd imm | li rd imm => [.register rd, .comma, .integer imm]
  | j target => [.reference target]
  | mv rd rs1 => [.register rd, .comma, .register rs1]

/-- The first token of the line. -/
def head : Statement → Token
  | label name => .definition name
  | regreg insn _ _ _ | regimm insn _ _ _ | branch insn _ _ _ | load insn _ _ _
  | store insn _ _ _ => .mnemonic insn.1.mnemonic
  | jal _ _ => .mnemonic Insnset.jal.mnemonic
  | jalr _ _ _ => .mnemonic Insnset.jalr.mnemonic
  | lui _ _ => .mnemonic Insnset.lui.mnemonic
  | auipc _ _ => .mnemonic Insnset.auipc.mnemonic
  | j _ => .mnemonic ⟨("unsinsn::J", "j"), by decide⟩
  | li _ _ => .mnemonic ⟨("unsinsn::LI", "li"), by decide⟩
  | mv _ _ => .mnemonic ⟨("unsinsn::MV", "mv"), by decide⟩

/-- The lexemes of the line. -/
def tokens (s : Statement) : List Token :=
  match s with
  | label _ => [s.head, .newline]
  | _ => s.head :: .blank :: (s.operands ++ [.newline])

/-- The lines that it stands for at an address. -/
def lines (s : Statement) (addr : ℤ) : List AsmLine :=
  match s with
  | label name => asmLineLabelAdd [] (name.text ++ [':']) addr
  | regreg insn rd rs1 rs2 =>
    asmLineRegregAdd [] (insnset2insn insn) (some rd) (some rs1) (some rs2) addr
  | regimm insn rd rs1 imm =>
    asmLineImmAdd [] (insnset2insn insn) (some rd) (some rs1) imm.toInt addr
  -- Two no-operations, should the branch be taken.
  | branch insn rs1 rs2 target =>
    asmLineNopAdd (asmLineNopAdd (asmLineBranchAdd [] (insnset2insn insn) (some rs1) (some rs2)
      target.text addr) (addr + 4)) (addr + 4 + 4)
  | load insn rd rs1 imm =>
    asmLineLoadAdd [] (insnset2insn insn) (some rd) (some rs1) imm.toInt addr
  | store insn rs1 rs2 imm =>
    asmLineStoreAdd [] (insnset2insn insn) (some rs1) (some rs2) imm.toInt addr
  | jal rd target => asmLineJalAdd [] (insnset2insn .jal) (some rd) target.text addr
  | jalr rd rs1 target =>
    asmLineJalrAdd [] (insnset2insn .jalr) (some rd) (some rs1) target.text addr
  | lui rd imm => asmLineUpperAdd [] (insnset2insn .lui) (some rd) imm.toInt addr
  | auipc rd imm => asmLineUpperAdd [] (insnset2insn .auipc) (some rd) imm.toInt addr
  | j target => asmLineJalAdd [] (insnset2insn .jal) r6 target.text addr
  | li rd imm => asmLineImmAdd [] (insnset2insn .addi) (some rd) r0 imm.toInt addr
  | mv rd rs1 => asmLineRegregAdd [] (insnset2insn .add) (some rd) (some rs1) r0 addr

/-- The address behind it. -/
def next (s : Statement) (addr : ℤ) : ℤ :=
  match s with
  | label _ => addr
  | branch _ _ _ _ => addr + 12
  | _ => addr + 4

end Statement

/-- The source of a program, a line for each statement. -/
def sourceText (program : List Statement) : CStr := spelled (program.flatMap Statement.tokens)

/-- The lexemes of a program, without their places. -/
def programLexems (program : List Statement) : List Lexem :=
  (program.flatMap Statement.tokens).map Token.lexem

/-- The lines of the statements from an address on. -/
def statementLines : List Statement → ℤ → List AsmLine
  | [], _ => []
  | s :: program, addr => s.lines addr ++ statementLines program (s.next addr)

/-- The name that the assembler gives to the beginning of a program. -/
def startLabel : Label where
  text := "PROG_START".toList
  identifier := ⟨'P', "ROG_START".toList, rfl, by decide, List.all_eq_true.mp (by decide)⟩
  reads := by
    refine ⟨by decide, by decide, ?_, by decide⟩
    intro c d start begins
    obtain ⟨rfl, rfl⟩ : c = 'P' ∧ d = 'R' := by simpa using begins
    simp [IsRegisterStart] at start

/-- A program with its label, and a jump that leads back to it. -/
def wrapped (program : List Statement) : List Statement :=
  .label startLabel :: (program ++ [.j startLabel])

section Integers

/-- An integer is read back from its digits, if 64 bits hold it. -/
theorem strtol_integerText {n : ℤ} (least : -2 ^ 63 ≤ n) (most : n < 2 ^ 63) :
    strtol (integerText n) = n := by
  have isNumber := isNumber_toDigits n.natAbs
  -- The core library gives the digits their value back.
  have value : decimalValue (Nat.toDigits 10 n.natAbs) = n.natAbs := Nat.ofDigitChars_ten_toDigits
  have digits : (Nat.toDigits 10 n.natAbs).takeWhile isDecimalDigit = Nat.toDigits 10 n.natAbs :=
    List.takeWhile_eq_self_iff.mpr isNumber.2
  rw [integerText]
  split
  case isTrue negative =>
    -- The sign is no space, and makes the value negative.
    have noSpace : ('-' :: Nat.toDigits 10 n.natAbs).dropWhile isSpace =
        '-' :: Nat.toDigits 10 n.natAbs := by
      rw [List.dropWhile_cons_of_neg (by decide)]
    simp only [strtol, noSpace, digits, value, if_true]
    omega
  case isFalse noSign =>
    have nonneg : 0 ≤ n := by omega
    -- The first digit is neither a space nor a sign.
    obtain ⟨d, rest, shape⟩ := List.exists_cons_of_ne_nil isNumber.1
    have each : "0123456789".toList.all fun d => isSpace d = false ∧ d ≠ '-' ∧ d ≠ '+' := by
      decide
    have digit := isNumber.2 d (by simp [shape])
    obtain ⟨noSpace, noMinus, noPlus⟩ := of_decide_eq_true (all_digits each digit)
    rw [shape] at value digits ⊢
    have dropped : (d :: rest).dropWhile isSpace = d :: rest := by
      rw [List.dropWhile_cons_of_neg (by simp [noSpace])]
    -- The bounds at which `strtol` saturates are not reached.
    simp [strtol, dropped, noMinus, noPlus, digits, value, abs_of_nonneg nonneg]
    omega

/-- `atoi` reads back the digits of every number of 32 bits. -/
theorem atoi_integerText (n : BitVec 32) : atoi (integerText n.toInt) = n.toInt := by
  -- Cutting to 32 bits changes nothing.
  have least := BitVec.le_toInt n
  have most := @BitVec.toInt_lt _ n
  rw [atoi, strtol_integerText (by omega) (by omega), BitVec.ofInt_toInt]

end Integers

section Statements

variable {s : Statement} {insn : Insnset} {program : List Statement} {tokens : List Token}

/-- The productions of the instructions of each type. -/
def productionsOfTypes : List (InsnType × Production) :=
  [(.regreg, insnRegreg), (.regimm, insnImm), (.branch, insnBranch), (.load, insnLoad),
    (.store, insnStore), (.jal, insnJal), (.jalr, insnJalr), (.lui, insnUpper),
    (.auipc, insnUpper)]

/-- The mnemonic of an instruction is read as the instruction, by the production of its type. -/
theorem mnemonic_read : ∀ insn ∈ insnsets,
    str2insn (Token.mnemonic insn.mnemonic).lexem.type = insnset2insn insn ∧
      ∀ entry ∈ productionsOfTypes, (insnset2insn insn).type = entry.1 →
        ∀ types ∈ entry.2.terms.head?, types.any
          fun type => type.toList.isPrefixOf (Token.mnemonic insn.mnemonic).lexem.type := by
  -- A check of all instructions.
  decide +kernel

/-- The number of a register is read as the register. -/
theorem str2reg_register : ∀ r : Fin 32, str2reg (Token.register r).lexem.value = some r := by
  -- A check of all registers.
  decide

/-- The value of an integer token is read as the integer. -/
theorem atoi_integer (n : BitVec 32) : atoi (Token.integer n).lexem.value = n.toInt :=
  atoi_integerText n

/-- Operands that fit behind the mnemonic of an instruction are read with it. -/
theorem fits_of_type {type : InsnType} {prod : Production}
    (entry : (type, prod) ∈ productionsOfTypes) (mem : insn ∈ insnsets)
    (is : (insnset2insn insn).type = type)
    (fitting : fits ((tokens.map Token.lexem).map Lexem.type) prod.terms.tail) :
    fits (((.mnemonic insn.mnemonic :: tokens).map Token.lexem).map Lexem.type) prod.terms := by
  have first := (mnemonic_read insn mem).2 _ entry is
  -- The first term of the production is the mnemonic, and the others are the operands.
  cases shape : prod.terms with
  | nil =>
    have each : ∀ entry ∈ productionsOfTypes, entry.2.terms ≠ [] := by
      simp [productionsOfTypes, insnRegreg, insnImm, insnBranch, insnLoad, insnStore, insnJal,
        insnJalr, insnUpper]
    exact absurd shape (each _ entry)
  | cons types terms =>
    rw [shape] at first fitting
    rw [List.map_cons, List.map_cons, fits, first types rfl]
    exact fitting

/-- The production of its type reads an instruction, with the operands that fit it. -/
theorem exists_of_type (type : InsnType) (prod : Production) {addr : ℤ} {lines : List AsmLine}
    (entry : (type, prod) ∈ productionsOfTypes) (mem : insn ∈ insnsets)
    (is : (insnset2insn insn).type = type)
    (fitting : fits ((tokens.map Token.lexem).map Lexem.type) prod.terms.tail)
    (emits : str2insn (Token.mnemonic insn.mnemonic).lexem.type = insnset2insn insn →
      prod.emit ((Token.mnemonic insn.mnemonic :: tokens).map Token.lexem) addr = lines) :
    ∃ prod ∈ productions,
      fits (((Token.mnemonic insn.mnemonic :: tokens).map Token.lexem).map Lexem.type)
        prod.terms ∧
      prod.emit ((Token.mnemonic insn.mnemonic :: tokens).map Token.lexem) addr = lines := by
  -- Each of these is one of the productions of `parse_insn`.
  have known : ∀ entry ∈ productionsOfTypes, entry.2 ∈ productions := by
    simp [productionsOfTypes, productions]
  exact ⟨prod, known _ entry, fits_of_type entry mem is fitting, emits (mnemonic_read insn mem).1⟩

/-- An instruction is read by a production, which stands for its lines. -/
theorem Statement.exists_production (addr : ℤ) (noLabel : ∀ name, s ≠ .label name) :
    ∃ prod ∈ productions,
      fits (((s.head :: .blank :: s.operands).map Token.lexem).map Lexem.type) prod.terms ∧
      prod.emit ((s.head :: .blank :: s.operands).map Token.lexem) addr = s.lines addr := by
  -- Only an instruction that is not known has no mnemonic.
  have known {type : InsnType} (insn : OfType type) (other : type ≠ .jalr) : insn.1 ∈ insnsets :=
    mem_insnsets (by rw [insn.2]; exact other)
  cases s with
  | label name => exact absurd rfl (noLabel name)
  | regreg insn rd rs1 rs2 =>
    refine exists_of_type .regreg insnRegreg (by simp [productionsOfTypes]) (known insn (by decide))
      insn.2 rfl fun read => ?_
    simp only [insnRegreg, List.map_cons, List.map_nil, operands, lines, str2reg_register, read]
  | regimm insn rd rs1 imm =>
    refine exists_of_type .regimm insnImm (by simp [productionsOfTypes]) (known insn (by decide))
      insn.2 rfl fun read => ?_
    simp only [insnImm, List.map_cons, List.map_nil, operands, lines, str2reg_register,
      atoi_integer, read]
  | branch insn rs1 rs2 target =>
    refine exists_of_type .branch insnBranch (by simp [productionsOfTypes]) (known insn (by decide))
      insn.2 rfl fun read => ?_
    simp only [insnBranch, List.map_cons, List.map_nil, operands, lines, str2reg_register, read]
    rfl
  | load insn rd rs1 imm =>
    refine exists_of_type .load insnLoad (by simp [productionsOfTypes]) (known insn (by decide))
      insn.2 rfl fun read => ?_
    simp only [insnLoad, List.map_cons, List.map_nil, operands, lines, str2reg_register,
      atoi_integer, read]
  | store insn rs1 rs2 imm =>
    refine exists_of_type .store insnStore (by simp [productionsOfTypes]) (known insn (by decide))
      insn.2 rfl fun read => ?_
    simp only [insnStore, List.map_cons, List.map_nil, operands, lines, str2reg_register,
      atoi_integer, read]
  | jal rd target =>
    -- The instruction of a jump is fixed by the form.
    refine @exists_of_type .jal _ .jal insnJal _ _ (by simp [productionsOfTypes]) (by decide)
      rfl rfl fun read => ?_
    simp only [insnJal, List.map_cons, List.map_nil, operands, lines, str2reg_register, read]
    rfl
  | jalr rd rs1 target =>
    refine @exists_of_type .jalr _ .jalr insnJalr _ _ (by simp [productionsOfTypes]) (by decide)
      rfl rfl fun read => ?_
    simp only [insnJalr, List.map_cons, List.map_nil, operands, lines, str2reg_register, read]
    rfl
  | lui rd imm =>
    refine @exists_of_type .lui _ .lui insnUpper _ _ (by simp [productionsOfTypes]) (by decide)
      rfl rfl fun read => ?_
    simp only [insnUpper, List.map_cons, List.map_nil, operands, lines, str2reg_register,
      atoi_integer, read]
  | auipc rd imm =>
    refine @exists_of_type .auipc _ .auipc insnUpper _ _ (by simp [productionsOfTypes]) (by decide)
      rfl rfl fun read => ?_
    simp only [insnUpper, List.map_cons, List.map_nil, operands, lines, str2reg_register,
      atoi_integer, read]
  | j target =>
    -- The pseudo-instructions have productions of their own.
    refine ⟨unsninsnJ, by simp [productions], rfl, ?_⟩
    simp only [unsninsnJ, List.map_cons, List.map_nil, head, operands, lines]
    rfl
  | li rd imm =>
    refine ⟨unsninsnLi, by simp [productions], rfl, ?_⟩
    simp only [unsninsnLi, List.map_cons, List.map_nil, head, operands, lines, str2reg_register,
      atoi_integer]
  | mv rd rs1 =>
    refine ⟨unsninsnMv, by simp [productions], rfl, ?_⟩
    simp only [unsninsnMv, List.map_cons, List.map_nil, head, operands, lines, str2reg_register]

/-- A statement begins like a label, and with nothing that ends a line. -/
theorem Statement.head_begins (s : Statement) :
    (∀ type ∈ endTypes, lexemType s.head.lexem type = false) ∧
      ∀ after, ∀ c ∈ (s.head.text ++ after).head?, isLabelChar c := by
  -- A name begins with a character of a label.
  have identifier {name : CStr} (identifier : IsIdentifier name) (after : CStr) :
      ∀ c ∈ (name ++ after).head?, isLabelChar c := by
    obtain ⟨c, rest, rfl, first, -⟩ := identifier
    intro d mem
    obtain rfl := Option.some.inj mem
    exact isLabelChar_of_isLabelStart first
  -- A mnemonic has the form of a name as well.
  have mnemonic (word : {word // word ∈ mnemonics}) :
      (∀ type ∈ endTypes, lexemType (Token.mnemonic word).lexem type = false) ∧
        ∀ after, ∀ c ∈ ((Token.mnemonic word).text ++ after).head?, isLabelChar c := by
    have noEnd : ∀ word ∈ mnemonics, ∀ type ∈ endTypes,
        type.toList.isPrefixOf (cString word.1.toList) = false := by
      decide
    exact ⟨noEnd _ word.2, identifier (identifier_mnemonic word.2)⟩
  cases s with
  | label name =>
    have noEnd : ∀ type ∈ endTypes,
        type.toList.isPrefixOf (cString labelDefinition.name) = false := by
      decide
    refine ⟨noEnd, fun after => ?_⟩
    -- The colon of a definition stands behind its name.
    rw [head, Token.text, List.append_assoc]
    exact identifier name.identifier _
  | _ => exact mnemonic _

/-- A program begins with nothing that ends a line. -/
theorem startsWith_statements (program : List Statement) {type : String}
    (isEnd : type ∈ endTypes) :
    startsWith [type] (programLexems program) = false := by
  -- The first lexeme of the program is that of its first statement.
  cases program with
  | nil => rfl
  | cons s program =>
    have other := s.head_begins.1 type isEnd
    cases s <;> simpa [startsWith, programLexems, Statement.tokens] using other

/-- The lines of a statement take the places up to the next one. -/
theorem Statement.next_eq (addr : ℤ) (noLabel : ∀ name, s ≠ .label name) :
    s.next addr = addr + 4 * (s.lines addr).length := by
  -- A branch has three lines, and any other instruction one.
  cases s with
  | label name => exact absurd rfl (noLabel name)
  | _ => rfl

/-- The lexemes of a program are the items of its statements. -/
theorem items_statements (program : List Statement) (addr : ℤ) :
    Items (programLexems program) addr (statementLines program addr)
      (program.foldl (fun addr s => s.next addr) addr) := by
  -- By induction on the program, with an end of line behind each statement.
  induction program generalizing addr with
  | nil => exact .nil
  | cons s program ih =>
    have noBlank := startsWith_statements program (show "blank" ∈ endTypes by decide)
    have ends : readEnd (Token.newline.lexem :: programLexems program) =
        some (programLexems program) := readEnd_newline rfl noBlank
    have behind := Items.eol ends (ih (s.next addr))
    -- The statement is a label, or an instruction that some production reads.
    by_cases isLabel : ∃ name, s = .label name
    · obtain ⟨name, rfl⟩ := isLabel
      exact .label rfl behind
    · have noLabel := not_exists.mp isLabel
      obtain ⟨prod, mem, fitting, emit⟩ := Statement.exists_production addr noLabel
      have matched := @matchTerms_of_fits _ _
        (Token.newline.lexem :: programLexems program) fitting
      -- Between the instruction and the next statement stands the newline.
      have shape : programLexems (s :: program) =
          (s.head :: .blank :: s.operands).map Token.lexem ++
            Token.newline.lexem :: programLexems program := by
        cases s with
        | label name => exact absurd rfl (noLabel name)
        | _ => simp [programLexems, Statement.tokens]
      rw [s.next_eq addr noLabel, ← emit] at behind
      rw [shape, statementLines, ← emit, List.foldl_cons, s.next_eq addr noLabel, ← emit]
      exact .insn mem matched behind

/-- The text of the first token stands in front. -/
theorem spelled_cons (token : Token) (tokens : List Token) :
    spelled (token :: tokens) = token.text ++ spelled tokens := List.flatMap_cons

/-- The tokens of a statement are apart in front of what begins like a label. -/
theorem Statement.spaced (s : Statement) (spaced : Spaced tokens)
    (begins : ∀ c ∈ (spelled tokens).head?, isLabelChar c) : Spaced (s.tokens ++ tokens) := by
  -- What begins like a label is no newline.
  have newline : Token.newline.Apart (spelled tokens) := by
    cases shape : spelled tokens with
    | nil => rfl
    | cons c rest => exact begins c (by rw [shape]; rfl)
  -- A name goes on at the blank with a character of a label.
  have blank (target : Label) (after : List Token) :
      Token.blank.Apart (spelled (.reference target :: after)) := by
    obtain ⟨c, rest, shape, first, -⟩ := target.identifier
    rw [spelled_cons, Token.text, shape]
    exact isLabelChar_of_isLabelStart first
  -- Anything may stand behind a comma.
  have comma (token : Token) (after : List Token) :
      Token.comma.Apart (spelled (token :: after)) := by
    obtain ⟨c, rest, shape⟩ := List.exists_cons_of_ne_nil token.text_ne_nil
    rw [spelled_cons, shape]
    rfl
  -- One case for each form, token by token.
  cases s with
  | label name => exact ⟨rfl, newline, spaced⟩
  | regreg insn rd rs1 rs2 => exact ⟨rfl, rfl, rfl, rfl, rfl, rfl, rfl, newline, spaced⟩
  | regimm insn rd rs1 imm =>
    exact ⟨rfl, rfl, rfl, rfl, rfl, comma _ _, rfl, newline, spaced⟩
  | branch insn rs1 rs2 target =>
    exact ⟨rfl, rfl, rfl, rfl, rfl, comma _ _, rfl, newline, spaced⟩
  | load insn rd rs1 imm | store insn rd rs1 imm =>
    exact ⟨rfl, rfl, rfl, comma _ _, rfl, rfl, rfl, rfl, newline, spaced⟩
  | jal rd target => exact ⟨rfl, rfl, rfl, comma _ _, rfl, newline, spaced⟩
  | jalr rd rs1 target => exact ⟨rfl, rfl, rfl, rfl, rfl, comma _ _, rfl, newline, spaced⟩
  | lui rd imm | auipc rd imm | li rd imm =>
    exact ⟨rfl, rfl, rfl, comma _ _, rfl, newline, spaced⟩
  | j target => exact ⟨rfl, blank target _, rfl, newline, spaced⟩
  | mv rd rs1 => exact ⟨rfl, rfl, rfl, rfl, rfl, newline, spaced⟩

/-- The tokens of a program are apart. -/
theorem spaced_program (program : List Statement) :
    Spaced (program.flatMap Statement.tokens) ∧
      ∀ c ∈ (sourceText program).head?, isLabelChar c := by
  -- By induction on the program, each statement in front of the next one.
  induction program with
  | nil => simp [Spaced, sourceText, spelled]
  | cons s program ih =>
    -- The first token of the text is that of the first statement.
    refine ⟨s.spaced ih.1 ih.2, ?_⟩
    have begins : ∃ after, sourceText (s :: program) = s.head.text ++ after := by
      cases s <;> exact ⟨_, rfl⟩
    obtain ⟨after, shape⟩ := begins
    rw [shape]
    exact s.head_begins.2 after

/-- The source of a program is read to its end, as the lexemes of its statements. -/
theorem lexemRead_sourceText (program : List Statement) :
    ∃ lexems, lexemRead (sourceText program) database = some (0, lexems) ∧
      lexems.map Lexem.unplaced = programLexems program := by
  -- Every token is apart from what follows, so the lexer reads one after the other.
  obtain ⟨lexems, lexes, same⟩ := lexes_spelled (spaced_program program).1 []
  exact ⟨lexems, lexemRead_of_lexes lexes, same⟩

/-- The lines of a second program begin at the address behind the first. -/
theorem statementLines_append (program program' : List Statement) (addr : ℤ) :
    statementLines (program ++ program') addr = statementLines program addr ++
      statementLines program' (program.foldl (fun addr s => s.next addr) addr) := by
  -- By induction on the first program, at the end of which the address is the one folded up.
  induction program generalizing addr with
  | nil => rfl
  | cons s program ih =>
    rw [List.cons_append, statementLines, ih, statementLines, List.append_assoc, List.foldl_cons]

/-- The lexemes of a program are accepted as its lines, with one in front and one behind. -/
theorem parsed_statements (program : List Statement) :
    Accepted (programLexems program) ∧
      parsedLines (programLexems program) =
        statementLines (wrapped program) 0 := by
  have items := items_statements program 0
  -- A program begins with no comment, so nothing is skipped in front of it.
  have noComment := startsWith_statements program (show "comment" ∈ endTypes by decide)
  rw [← show skip "comment" _ = _ from if_neg (Bool.eq_false_iff.mp noComment)] at items
  obtain ⟨accepted, parsed⟩ := items.parsed
  refine ⟨accepted, ?_⟩
  -- The label in front and the jump behind are statements, too.
  rw [parsed, wrapped, statementLines, statementLines_append]
  rfl

end Statements

end MiniRiscV
