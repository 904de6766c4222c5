import MiniRiscV.Asm.Renaming
import MiniRiscV.Asm.SourceText

/-! What the assembler should make of a program, and that it makes this of its source text. -/

namespace MiniRiscV

/-- The address that the statement gives to a name. -/
def Statement.address (name : CStr) (addr : ℤ) : Statement → Option ℤ
  | label other => if other.text = name then some addr else none
  | _ => none

/-- The address of the last label of a name, from an address on. -/
def labelAddress (name : CStr) : List Statement → ℤ → Option ℤ
  | [], _ => none
  | s :: program, addr =>
    (labelAddress name program (s.next addr)).or (s.address name addr)

/-- The bits of the distance to a label. -/
def offsetTo (address : CStr → Option ℤ) (target : CStr) (addr : ℤ) : Option (BitVec 32) := do
  return BitVec.ofInt 32 ((← address target) - addr)

/-- The instructions that a statement stands for, none when its target is no label. -/
def Statement.coded (address : CStr → Option ℤ) (addr : ℤ) : Statement → Option (List Coded)
  | label _ => some []
  | regreg insn rd rs1 rs2 => some [.register insn (regBits rd) (regBits rs1) (regBits rs2)]
  | regimm insn rd rs1 imm =>
    if insn.1.isShift then some [.shift insn (regBits rd) (regBits rs1) (imm.setWidth 5)]
    else some [.immediate insn (regBits rd) (regBits rs1) (imm.setWidth 12)]
  | branch insn rs1 rs2 target => do
    let offset ← offsetTo address target.text addr
    return [.branch insn (regBits rs1) (regBits rs2) (branchOffset offset), .nop, .nop]
  | load insn rd rs1 imm => some [.immediate insn (regBits rd) (regBits rs1) (imm.setWidth 12)]
  | store insn rs1 rs2 imm => some [.store insn (regBits rs1) (regBits rs2) (imm.setWidth 12)]
  | jal rd target => do
    return [.jal (regBits rd) (jalOffset (← offsetTo address target.text addr))]
  | jalr rd rs1 target => do
    let offset ← offsetTo address target.text addr
    return [.immediate .jalr (regBits rd) (regBits rs1) (offset.setWidth 12)]
  | lui rd imm => some [.upper .lui (regBits rd) (imm.extractLsb' 12 20)]
  | auipc rd imm => some [.upper .auipc (regBits rd) (imm.extractLsb' 12 20)]
  | j target => do return [.jal 6 (jalOffset (← offsetTo address target.text addr))]
  | li rd imm => some [.immediate .addi (regBits rd) 0 (imm.setWidth 12)]
  | mv rd rs1 => some [.register .add (regBits rd) (regBits rs1) 0]

/-- The instructions of the statements from an address on. -/
def statementsCoded (address : CStr → Option ℤ) : List Statement → ℤ → Option (List Coded)
  | [], _ => some []
  | s :: program, addr => do
    return (← s.coded address addr) ++ (← statementsCoded address program (s.next addr))

/-- The instructions of a program, the last of which leads back to the first. -/
def programCoded (program : List Statement) : Option (List Coded) :=
  statementsCoded (fun name => labelAddress name (wrapped program) 0) (wrapped program) 0

section Addresses

variable {program : List Statement} {addr : ℤ}

/-- The name in front of the colon is compared with another name. -/
theorem same_stringConvert (name other : CStr) :
    (stringConvert (name ++ [':'])).dropLast.Same (stringConvert other) ↔ name = other := by
  -- Both have natural lengths, as the colon is more than none.
  have nonneg : 0 ≤ (stringConvert (name ++ [':'])).dropLast.length := by
    simp [stringConvert, StringT.dropLast]
  have nonneg' : 0 ≤ (stringConvert other).length := by simp [stringConvert]
  rw [StringT.same_iff nonneg nonneg']
  simp

/-- The line of a label defines its name at its address. -/
theorem definitions_label (first name : CStr) (addr : ℤ) :
    ((definitions (asmLineLabelAdd [] (first ++ [':']) addr) (stringConvert name)).getLast?).map
      LabelLine.lineAddr = if first = name then some addr else none := by
  -- The one line defines the name, or it does not.
  by_cases same : first = name <;>
    simp [definitions, asmLineLabelAdd, same_stringConvert, same]

/-- The lines of a program define a name at the address that it has. -/
theorem definitions_statementLines (program : List Statement) (addr : ℤ) (name : CStr) :
    ((definitions (statementLines program addr) (stringConvert name)).getLast?).map
      LabelLine.lineAddr = labelAddress name program addr := by
  -- By induction on the program, the last of whose labels counts.
  induction program generalizing addr with
  | nil => rfl
  | cons s program ih =>
    -- A statement defines a name only as its label.
    have here : ((definitions (s.lines addr) (stringConvert name)).getLast?).map
        LabelLine.lineAddr = s.address name addr := by
      cases s with
      | label other => exact definitions_label other.text name addr
      | _ => rfl
    -- A later definition counts, if there is one.
    rw [statementLines, definitions_append, List.getLast?_append, labelAddress, ← ih, ← here]
    cases (definitions (statementLines program (s.next addr)) (stringConvert name)).getLast? <;> rfl

end Addresses

section Linking

variable {all : List AsmLine} {address : CStr → Option ℤ} {s : Statement} {addr : ℤ}

/-- What is written of a line once its label is resolved, none when that is not defined. -/
def InsnLine.codedIn (all : List AsmLine) (line : InsnLine) : Option (Option Coded) :=
  if line.isControl ∧ definitions all line.label = [] then none else some (line.linked all).coded

/-- The addresses of the names are those at which the lines define them. -/
def Defines (all : List AsmLine) (address : CStr → Option ℤ) : Prop :=
  ∀ name, ((definitions all (stringConvert name)).getLast?).map LabelLine.lineAddr = address name

/-- A branch or jump is written with the distance to its label. -/
theorem InsnLine.codedIn_of_control {line : InsnLine} (defines : Defines all address)
    (name : CStr) (label : line.label = stringConvert name) (control : line.isControl) :
    line.codedIn all =
      (address name).map fun target => ({ line with imm := target - line.lineAddr }).coded := by
  rw [← defines name, codedIn, linked, resolve, label]
  -- The name is defined nowhere, or its last definition gives the distance.
  cases found : (definitions all (stringConvert name)).getLast? with
  | none => simp [control, List.getLast?_eq_none_iff.mp found]
  | some last =>
    have some_label : definitions all (stringConvert name) ≠ [] := by
      intro none_label
      simp [none_label] at found
    simp [control, some_label]

/-- Every other line is written as it is. -/
theorem InsnLine.codedIn_of_not_control {line : InsnLine} (other : line.isControl = false) :
    line.codedIn all = some line.coded := by
  -- Its label, if it has one, is not looked up.
  simp [codedIn, linked, other]

/-- The lines of a statement are written as its instructions. -/
theorem Statement.codedIn_lines (defines : Defines all address) (s : Statement) (addr : ℤ) :
    (insnLines (s.lines addr)).mapM (InsnLine.codedIn all) =
      (s.coded address addr).map (List.map some) := by
  -- A statement of one line is written as what that line is.
  have single (line : InsnLine) : (insnLines [.insnLine line]).mapM (InsnLine.codedIn all) =
      (line.codedIn all).map ([·]) := by
    cases coded : line.codedIn all <;> simp [insnLines, coded]
  cases s with
  | label name => rfl
  | regreg insn rd rs1 rs2 =>
    rw [lines, asmLineRegregAdd, List.nil_append, single, InsnLine.codedIn_of_not_control]
    · simp [coded, InsnLine.coded, insn.2]
    · simp [InsnLine.isControl, insn.2]
  | regimm insn rd rs1 imm =>
    rw [lines, asmLineImmAdd, List.nil_append, single, InsnLine.codedIn_of_not_control]
    · -- The immediate of a shift has five bits, and that of the others twelve.
      by_cases shift : insn.1.isShift <;>
        simp [coded, InsnLine.coded, InsnLine.imm32, insn.2, shift]
    · simp [InsnLine.isControl, insn.2]
  | load insn rd rs1 imm =>
    rw [lines, asmLineLoadAdd, List.nil_append, single, InsnLine.codedIn_of_not_control]
    · simp [coded, InsnLine.coded, InsnLine.imm32, insn.2]
    · simp [InsnLine.isControl, insn.2]
  | store insn rs1 rs2 imm =>
    rw [lines, asmLineStoreAdd, List.nil_append, single, InsnLine.codedIn_of_not_control]
    · simp [coded, InsnLine.coded, InsnLine.imm32, insn.2]
    · simp [InsnLine.isControl, insn.2]
  | lui rd imm =>
    rw [lines, asmLineUpperAdd, List.nil_append, single, InsnLine.codedIn_of_not_control rfl]
    -- The integer of the statement is the 32 bits that the line has.
    change some [some (Coded.upper .lui (regBits rd)
      ((BitVec.ofInt 32 imm.toInt).extractLsb' 12 20))] = _
    rw [BitVec.ofInt_toInt]
    rfl
  | auipc rd imm =>
    rw [lines, asmLineUpperAdd, List.nil_append, single, InsnLine.codedIn_of_not_control rfl]
    change some [some (Coded.upper .auipc (regBits rd)
      ((BitVec.ofInt 32 imm.toInt).extractLsb' 12 20))] = _
    rw [BitVec.ofInt_toInt]
    rfl
  | li rd imm =>
    rw [lines, asmLineImmAdd, List.nil_append, single, InsnLine.codedIn_of_not_control rfl]
    change some [some (Coded.immediate .addi (regBits rd) (regBits 0)
      ((BitVec.ofInt 32 imm.toInt).setWidth 12))] = _
    rw [BitVec.ofInt_toInt]
    rfl
  | mv rd rs1 =>
    rw [lines, asmLineRegregAdd, List.nil_append, single, InsnLine.codedIn_of_not_control rfl]
    rfl
  | branch insn rs1 rs2 target =>
    -- The two no-operations behind the branch use no label.
    have split : (branch insn rs1 rs2 target).lines addr =
        asmLineBranchAdd [] (insnset2insn insn) (some rs1) (some rs2) target.text addr ++
          [nopLine (addr + 4), nopLine (addr + 4 + 4)] := rfl
    have nops : (insnLines [nopLine (addr + 4), nopLine (addr + 4 + 4)]).mapM
        (InsnLine.codedIn all) = some [some .nop, some .nop] := rfl
    rw [split, insnLines_append, List.mapM_append, nops, asmLineBranchAdd, List.nil_append, single,
      InsnLine.codedIn_of_control defines target.text rfl (by simp [InsnLine.isControl, insn.2]),
      coded, offsetTo]
    -- Without an address of the target, nothing is written.
    cases address target.text with
    | none => rfl
    | some place => simp [InsnLine.coded, InsnLine.imm32, insn.2]
  | jal rd target =>
    rw [lines, asmLineJalAdd, List.nil_append, single,
      InsnLine.codedIn_of_control defines target.text rfl rfl, coded, offsetTo]
    cases address target.text <;> rfl
  | jalr rd rs1 target =>
    rw [lines, asmLineJalrAdd, List.nil_append, single,
      InsnLine.codedIn_of_control defines target.text rfl rfl, coded, offsetTo]
    cases address target.text <;> rfl
  | j target =>
    rw [lines, asmLineJalAdd, List.nil_append, single,
      InsnLine.codedIn_of_control defines target.text rfl rfl, coded, offsetTo]
    cases address target.text <;> rfl

/-- The lines of the statements are written as the instructions of all of them. -/
theorem codedIn_statementLines (defines : Defines all address) (program : List Statement)
    (addr : ℤ) : (insnLines (statementLines program addr)).mapM (InsnLine.codedIn all) =
      (statementsCoded address program addr).map (List.map some) := by
  -- By induction on the program, one statement behind the other.
  induction program generalizing addr with
  | nil => rfl
  | cons s program ih =>
    rw [statementLines, insnLines_append, List.mapM_append, s.codedIn_lines defines, ih,
      statementsCoded]
    -- A target that is missing here or further down is missing in the whole.
    cases s.coded address addr with
    | none => rfl
    | some here =>
      cases statementsCoded address program (s.next addr) with
      | none => rfl
      | some behind => simp

/-- The lines have instructions when their labels are defined. -/
theorem mapM_codedIn (lines : List InsnLine) : lines.mapM (InsnLine.codedIn all) =
    if ∀ line ∈ lines, line.isControl → definitions all line.label ≠ [] then
      some (lines.map fun line => (line.linked all).coded)
    else none := by
  -- By induction on the lines, up to the first label that is not defined.
  induction lines with
  | nil => rfl
  | cons line lines ih =>
    rw [List.mapM_cons, ih, InsnLine.codedIn]
    -- This line is the first whose label is not defined, or it is written.
    by_cases undefined : line.isControl ∧ definitions all line.label = []
    · have vain : ¬ ∀ other ∈ line :: lines, other.isControl → definitions all other.label ≠ [] :=
        fun each => each line List.mem_cons_self undefined.1 undefined.2
      rw [if_pos undefined, if_neg vain]
      rfl
    · have here : line.isControl → definitions all line.label ≠ [] :=
        fun control none_label => undefined ⟨control, none_label⟩
      rw [if_neg undefined]
      -- The others are written, or one of them is not.
      by_cases behind : ∀ line ∈ lines, line.isControl → definitions all line.label ≠ []
      · rw [if_pos behind, if_pos (List.forall_mem_cons.mpr ⟨here, behind⟩)]
        rfl
      · rw [if_neg behind, if_neg fun each => behind (List.forall_mem_cons.mp each).2]
        rfl

/-- The registers of every statement are known. -/
theorem knownLines_statementLines (program : List Statement) (addr : ℤ) :
    KnownLines (statementLines program addr) := by
  -- The registers that a line does not use are given, too.
  have each (s : Statement) (addr : ℤ) : ∀ line ∈ insnLines (s.lines addr),
      line.rd.isSome ∧ line.rs1.isSome ∧ line.rs2.isSome := by
    cases s <;> simp [Statement.lines, insnLines, asmLineLabelAdd, asmLineRegregAdd,
      asmLineImmAdd, asmLineBranchAdd, asmLineNopAdd, asmLineLoadAdd, asmLineStoreAdd,
      asmLineJalAdd, asmLineJalrAdd, asmLineUpperAdd, asmLineNew, r0, r6]
  -- No other registers are printed.
  have printed (line : InsnLine) : line.printedRegs ⊆ [line.rd, line.rs1, line.rs2] := by
    rw [InsnLine.printedRegs]
    split <;> simp
  -- By induction on the program.
  induction program generalizing addr with
  | nil => simp [KnownLines, statementLines, insnLines]
  | cons s program ih =>
    rw [KnownLines, statementLines, insnLines_append, List.forall_mem_append]
    refine ⟨fun line mem reg isPrinted => ?_, ih _⟩
    obtain ⟨rd, rs1, rs2⟩ := each s addr line mem
    have all : ∀ reg ∈ [line.rd, line.rs1, line.rs2], reg.isSome := by
      simp [rd, rs1, rs2]
    exact all reg (printed line isPrinted)

end Linking

/-- The instructions of a program are those of its lines, if all its labels are defined. -/
theorem programCoded_eq (program : List Statement) {lines : List AsmLine}
    (shape : statementLines (wrapped program) 0 = lines) :
    (Resolvable lines → ∃ coded, programCoded program = some coded ∧
        (insnLines (lines.map (AsmLine.resolve lines))).map InsnLine.coded = coded.map some) ∧
      (¬ Resolvable lines → programCoded program = none) := by
  -- The reference assembler has the addresses that the lines define.
  have defines : Defines lines fun name => labelAddress name (wrapped program) 0 := by
    rw [← shape]
    exact definitions_statementLines (wrapped program) 0
  have each := codedIn_statementLines defines (wrapped program) 0
  rw [shape, mapM_codedIn, ← programCoded] at each
  rw [resolvable_iff]
  constructor
  · intro defined
    rw [if_pos defined] at each
    -- Then every line is written as one of the instructions.
    obtain ⟨coded, found, same⟩ := Option.map_eq_some_iff.mp each.symm
    refine ⟨coded, found, ?_⟩
    rw [insnLines_map_resolve, List.map_map, same]
    rfl
  · intro undefined
    rw [if_neg undefined] at each
    exact Option.map_eq_none_iff.mp each.symm

/--
The assembler makes of the text of a program what it should make of the program.

It refuses the program when a target is not defined, and otherwise its file has one word for each
instruction, with that instruction's registers and those bits of its immediate or offset that its
format keeps. `branchOffset` and `jalOffset` move or lose some of them.
-/
theorem main_printed {fs : FileSystem} {sourceFile regexpsFile binfile : CStr}
    (program : List Statement) (table : fs.read regexpsFile = some databaseText)
    (content : fs.read sourceFile = some (sourceText program)) (writable : fs.writable binfile) :
    match programCoded program with
    | none => main fs (arguments sourceFile regexpsFile binfile true) = some (.failure, fs)
    | some coded => ∃ words : List Word, words.map disassemble = coded.map some ∧
        main fs (arguments sourceFile regexpsFile binfile true) =
          some (.success, fs.write binfile (fileText (words.map BitVec.binaryText))) := by
  -- The source is read as the lexemes of the program, in some places.
  obtain ⟨lexems, read, same⟩ := lexemRead_sourceText program
  have tokens : tokenise fs sourceFile regexpsFile = some (0, lexems) := by
    simp [tokenise, content, table, regexpRead_databaseText, read]
  -- These are accepted, as the lines of the program.
  obtain ⟨accepted, parsed⟩ := parsed_statements program
  rw [main_arguments, tokens, Option.bind_some, ← assemble_unplaced, same]
  generalize programLexems program = bare at accepted parsed
  obtain ⟨defined, undefined⟩ := programCoded_eq program parsed.symm
  -- All labels are defined, or one of them is not.
  by_cases linked : Resolvable (parsedLines bare)
  · obtain ⟨coded, found, instructions⟩ := defined linked
    have known : KnownLines (parsedLines bare) := by
      rw [parsed]
      exact knownLines_statementLines _ _
    have typed := typed_parsedLines accepted
    -- The lines have all their registers, so they are written.
    have wellFormed := (wellFormed_map_resolve (parsedLines bare) typed).mpr
      ((wellFormed_iff_known typed).mpr known)
    obtain ⟨texts, written, -⟩ := wellFormed
    have lines : writtenLines true bare =
        (parsedLines bare).map (AsmLine.resolve (parsedLines bare)) := by
      rw [writtenLines, if_pos rfl, asmLineUpdateAdress_lines linked]
    rw [← lines] at written instructions
    obtain ⟨words, texts_eq, each⟩ := exists_words accepted (fun _ => linked) written
    -- The words of the file are those of the resolved lines, and are read back as these.
    rw [found]
    refine ⟨words, (disassemble_words each).1.trans instructions, ?_⟩
    rw [assemble_of_accepted accepted fun _ => linked, if_pos writable, written, texts_eq]
    rfl
  · rw [undefined linked]
    exact assemble_of_refused fun both => linked (both.2 rfl)

/-- A loop that counts `r1` down from five. -/
def countdown : List Statement :=
  [.li (1#5).toFin 5, .regimm ⟨.addi, rfl⟩ (1#5).toFin (1#5).toFin (-1),
    .branch ⟨.bne, rfl⟩ (1#5).toFin (0#5).toFin startLabel]

/-- Its text is assembled as it should be, with two no-operations behind the branch. -/
theorem main_printed_countdown : ∃ words : List Word,
    words.map disassemble = [some (.immediate .addi 1 0 5), some (.immediate .addi 1 1 (-1)),
      some (.branch .bne 1 0 0x1FF0), some .nop, some .nop, some (.jal 6 0x7FFEC)] ∧
    main (filesOf "li r1,5\naddi r1,r1,-1\nbne r1,r0,PROG_START\n")
        (arguments "prog.s".toList "database.txt".toList "prog.bin".toList true) =
      some (.success, (filesOf "li r1,5\naddi r1,r1,-1\nbne r1,r0,PROG_START\n").write
        "prog.bin".toList (fileText (words.map BitVec.binaryText))) := by
  -- What the reference assembler makes of the loop is evaluated.
  have evaluated : programCoded countdown = some [.immediate .addi 1 0 5,
      .immediate .addi 1 1 (-1), .branch .bne 1 0 0x1FF0, .nop, .nop, .jal 6 0x7FFEC] := by
    decide +kernel
  have assembled := @main_printed (filesOf "li r1,5\naddi r1,r1,-1\nbne r1,r0,PROG_START\n")
    "prog.s".toList "database.txt".toList "prog.bin".toList countdown rfl (by decide) rfl
  rw [evaluated] at assembled
  exact assembled

end MiniRiscV
