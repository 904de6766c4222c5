import MiniRiscV.Asm.Main

/-! The files of programs made with `database.txt`, and the registers that spoil them. -/

namespace MiniRiscV

/--
The registers of a source whose codes are printed.

These are all but the last operand of a register-immediate mnemonic, six lexemes behind it, where
the parser takes a register for the immediate.
-/
def printedRegisters : ℕ → List Lexem → List Lexem
  | _, [] => []
  | countdown, lex :: rest =>
    if (str2insn lex.type).type = .regimm then printedRegisters 6 rest
    else if lexemType lex "symbole::register" ∧ countdown ≠ 1 then
      lex :: printedRegisters (countdown - 1) rest
    else printedRegisters (countdown - 1) rest

/-- Some registers whose spellings `str2reg` knows. -/
def Known (registers : List Lexem) : Prop := ∀ lex ∈ registers, (str2reg lex.value).isSome

instance (registers : List Lexem) : Decidable (Known registers) :=
  inferInstanceAs (Decidable (∀ lex ∈ registers, (str2reg lex.value).isSome))

/-- The file has one line for each instruction line, in order, of thirty-two binary digits. -/
def WellFormed (insnList : List AsmLine) : Prop :=
  ∃ words, asmLineText insnList = some (fileText words) ∧ Words insnList words

/-- The types of the lexemes that are no mnemonics. -/
def otherTypes : List String :=
  ["blank", "comma", "symbole::register", "integer::dec", "symbole::label", "paren::left",
    "paren::right", "label", "comment", "newline"]

/-- The printed registers among operands of given terminals. -/
def operandRegisters : ℕ → List (List String) → List Lexem → List Lexem
  | countdown, types :: terms, lex :: operands =>
    if types = ["symbole::register"] ∧ countdown ≠ 1 then
      lex :: operandRegisters (countdown - 1) terms operands
    else operandRegisters (countdown - 1) terms operands
  | _, _, _ => []

section Types

variable {lex : Lexem} {types : List String}

/-- What holds of every type name that begins with some name holds of such a lexeme. -/
theorem of_named (is : CStr → Prop) (named : ∃ name ∈ typeNames, lex.type = name)
    (isType : types.any (lexemType lex))
    (names : ∀ name ∈ typeNames, types.any (·.toList.isPrefixOf name.toList) → is name.toList) :
    is lex.type := by
  -- The type is one of finitely many names.
  obtain ⟨name, mem, same⟩ := named
  change types.any (·.toList.isPrefixOf lex.type) at isType
  rw [same] at isType ⊢
  exact names name mem isType

/-- Such a lexeme names no instruction, and is a register when its terminal is. -/
theorem operand_named (named : ∃ name ∈ typeNames, lex.type = name)
    (operand : ∃ type ∈ otherTypes, types = [type]) (isType : types.any (lexemType lex)) :
    (str2insn lex.type).type ≠ .regimm ∧
      (lexemType lex "symbole::register" ↔ types = ["symbole::register"]) := by
  obtain ⟨type, mem, rfl⟩ := operand
  refine of_named (fun name => (str2insn name).type ≠ .regimm ∧
    ("symbole::register".toList.isPrefixOf name ↔ [type] = ["symbole::register"])) named isType ?_
  clear isType
  -- A check of every name with every operand type.
  revert type
  decide +kernel

end Types

section Scan

variable {countdown : ℕ} {lex : Lexem} {terms : List (List String)} {taken rest : List Lexem}

/-- Behind operands the scan goes on with what is left of the countdown. -/
theorem printedRegisters_operands (fit : Fit terms taken) (named : Named taken)
    (operands : ∀ types ∈ terms, ∃ type ∈ otherTypes, types = [type]) :
    printedRegisters countdown (taken ++ rest) =
      operandRegisters countdown terms taken ++
        printedRegisters (countdown - taken.length) rest := by
  -- By induction on the operands, none of which sets the countdown again.
  induction fit generalizing countdown with
  | nil => rfl
  | cons isType fit ih =>
    rw [Named, List.forall_mem_cons] at named
    rw [List.forall_mem_cons] at operands
    obtain ⟨noRegimm, register⟩ := operand_named named.1 operands.1 isType
    simp only [List.cons_append, printedRegisters, operandRegisters, if_neg noRegimm, register,
      ih named.2 operands.2, List.length_cons, Nat.sub_sub, Nat.add_comm 1]
    split <;> rfl

end Scan

/-- The registers of two lists are known when those of each are. -/
@[simp] theorem known_append {left right : List Lexem} :
    Known (left ++ right) ↔ Known left ∧ Known right := List.forall_mem_append

/-- The registers that the lines print are known. -/
def KnownLines (insnList : List AsmLine) : Prop :=
  ∀ line ∈ insnLines insnList, ∀ reg ∈ line.printedRegs, reg.isSome

section Items

variable {prod : Production} {lexems taken rest : List Lexem} {addr addr' : ℤ}
  {lines : List AsmLine}

/-- Behind the mnemonic, which is no register, stand operands, and six if it is an immediate one. -/
theorem operands_of_mem (mem : prod ∈ productions) :
    (∀ types ∈ prod.terms.tail, ∃ type ∈ otherTypes, types = [type]) ∧
      ∀ types ∈ prod.terms.head?, ∀ type ∈ types, apart type "symbole::register" ∧
        ∀ name ∈ insnNames, (insnset2insn name.2).type = .regimm →
          type.toList.isPrefixOf name.1.toList → prod.terms.tail.length = 6 := by
  -- A check of the productions.
  revert prod
  decide +kernel

/-- Over an instruction the scan gives registers of its operands, and is then where it was. -/
theorem printedRegisters_insn {types : List String} {terms : List (List String)} {lex : Lexem}
    {operands : List Lexem} (mem : prod ∈ productions) (split : prod.terms = types :: terms)
    (isType : types.any (lexemType lex)) (fit : Fit terms operands)
    (named : Named (lex :: operands)) :
    printedRegisters 0 (lex :: operands ++ rest) =
      operandRegisters (if (str2insn lex.type).type = .regimm then 6 else 0) terms operands ++
        printedRegisters 0 rest := by
  -- The mnemonic sets the countdown for a register-immediate instruction only, to its length.
  obtain ⟨areOperands, mnemonics⟩ := operands_of_mem mem
  rw [split] at areOperands mnemonics
  rw [Named, List.forall_mem_cons] at named
  have passed := fun countdown => @printedRegisters_operands countdown terms operands rest fit
    named.2 areOperands
  have noRegister : ¬ lexemType lex "symbole::register" := by
    obtain ⟨type, mem, begins⟩ := List.any_eq_true.mp isType
    simp [lexemType_of_apart (mnemonics types rfl type mem).1 begins]
  have six : (str2insn lex.type).type = .regimm → terms.length = 6 :=
    str2insn_type (fun type => type = .regimm → terms.length = 6) isType
      (fun type mem name mem' begins regimm =>
        (mnemonics types rfl type mem).2 name mem' regimm begins)
      (fun regimm => absurd regimm (by decide))
  rw [List.cons_append, printedRegisters]
  by_cases regimm : (str2insn lex.type).type = .regimm
  · rw [if_pos regimm, if_pos regimm, passed, ← fit.length_eq, six regimm]
  · rw [if_neg regimm, if_neg regimm, if_neg fun register => noRegister register.1, passed,
      Nat.zero_sub, Nat.zero_sub]

/-- Of no registers, none is unknown. -/
@[simp] theorem known_nil : Known [] := by simp [Known]

/-- The first register is known, and so are the others. -/
@[simp] theorem known_cons {lex : Lexem} {registers : List Lexem} :
    Known (lex :: registers) ↔ (str2reg lex.value).isSome ∧ Known registers :=
  List.forall_mem_cons

/-- Of one line. -/
theorem knownLines_singleton {line : InsnLine} :
    KnownLines [.insnLine line] ↔ ∀ reg ∈ line.printedRegs, reg.isSome := by
  simp [KnownLines]

/-- The mnemonics that `database.txt` names are those that `str2insn` knows. -/
theorem insnNames_of_named {lex : Lexem} (named : ∃ name ∈ typeNames, lex.type = name)
    (insn : lexemType lex "insn::") :
    ∃ name ∈ insnNames, lex.type = name.1.toList ∧ str2insn lex.type = insnset2insn name.2 := by
  -- A check of the names that begin like an instruction.
  have found : (insnNames.find? (fun name => name.1.toList = lex.type)).isSome :=
    @of_named lex ["insn::"]
      (fun type => (insnNames.find? (fun name => name.1.toList = type)).isSome) named
      (by simpa using insn) (by decide +kernel)
  obtain ⟨name, first⟩ := Option.isSome_iff_exists.mp found
  have same := List.find?_some first
  rw [decide_eq_true_eq] at same
  exact ⟨name, List.mem_of_find?_eq_some first, same.symm, by rw [str2insn, first]⟩

/-- The types of the instructions that the mnemonics of a production name. -/
theorem kind_of_named {types : List String} {lex : Lexem} (prod : Production)
    (kinds : List InsnType) (mem : (prod, kinds) ∈ mnemonicKinds)
    (head : prod.terms.head? = some types)
    (named : ∃ name ∈ typeNames, lex.type = name) (isType : types.any (lexemType lex)) :
    (str2insn lex.type).type ∈ kinds := by
  -- The name of the lexeme begins like its type, and the type like an instruction.
  obtain ⟨type, mem', begins⟩ := List.any_eq_true.mp isType
  obtain ⟨insn, names⟩ := mnemonicKinds_spec _ mem types head type mem'
  have isInsn : lexemType lex "insn::" := lexemType_of_begins insn begins
  obtain ⟨name, mem'', same, is⟩ := insnNames_of_named named isInsn
  rw [is]
  apply names name mem''
  rw [← same]
  exact begins

/-- The registers printed of an instruction are those that its lines print. -/
theorem known_insn (mem : prod ∈ productions) (fit : Fit prod.terms taken)
    (named : Named taken) : Known (printedRegisters 0 (taken ++ rest)) ↔
      KnownLines (prod.emit taken addr) ∧ Known (printedRegisters 0 rest) := by
  have members := mem
  simp only [productions, List.mem_cons, List.not_mem_nil, or_false] at members
  rcases members with rfl | rfl | rfl | rfl | rfl | rfl | rfl | rfl | rfl | rfl | rfl
  all_goals
    obtain ⟨lex, operands, isType, behind, rfl⟩ := List.forall₂_cons_left_iff.mp fit
    have isNamed := (List.forall_mem_cons.mp named).1
    rw [printedRegisters_insn mem rfl isType behind named, known_append]
    refine and_congr_left fun _ => ?_
    -- One lexeme for each terminal, and none behind the last.
    repeat
      obtain ⟨_, _, -, later, rfl⟩ := List.forall₂_cons_left_iff.mp behind
      clear behind
      rename' later => behind
    obtain rfl := List.forall₂_nil_left_iff.mp behind
  -- The terminals of the first production take the other register-immediate form as well.
  · have kind := kind_of_named insnRegreg [.regreg, .regimm] (by simp [mnemonicKinds]) rfl isNamed
      isType
    rw [List.mem_cons, List.mem_singleton] at kind
    rcases kind with regreg | regimm
    · simp [insnRegreg, asmLineRegregAdd, knownLines_singleton, InsnLine.printedRegs, regreg,
        operand, operandRegisters, withRegister]
      constructor
      · rintro ⟨rd, rs1, rs2⟩
        exact ⟨rs2, rs1, rd⟩
      · rintro ⟨rs2, rs1, rd⟩
        exact ⟨rd, rs1, rs2⟩
    · simp [insnRegreg, asmLineRegregAdd, knownLines_singleton, InsnLine.printedRegs, regimm,
        operand, operandRegisters, withRegister]
      exact and_comm
  · have kind := List.mem_singleton.mp
      (kind_of_named insnImm [.regimm] (by simp [mnemonicKinds]) rfl isNamed isType)
    simp [insnImm, asmLineImmAdd, knownLines_singleton, InsnLine.printedRegs, kind, operand,
      operandRegisters, withRegister]
    exact and_comm
  · have kind := List.mem_singleton.mp
      (kind_of_named insnBranch [.branch] (by simp [mnemonicKinds]) rfl isNamed isType)
    simp [insnBranch, asmLineBranchAdd, asmLineNopAdd, KnownLines, InsnLine.printedRegs, kind,
      operand, operandRegisters, withRegister]
    exact and_comm
  · have kind := List.mem_singleton.mp
      (kind_of_named insnLoad [.load] (by simp [mnemonicKinds]) rfl isNamed isType)
    simp [insnLoad, asmLineLoadAdd, knownLines_singleton, InsnLine.printedRegs, kind, operand,
      displacement, operandRegisters, withRegister]
    exact and_comm
  · have kind := List.mem_singleton.mp
      (kind_of_named insnStore [.store] (by simp [mnemonicKinds]) rfl isNamed isType)
    simp [insnStore, asmLineStoreAdd, knownLines_singleton, InsnLine.printedRegs, kind, operand,
      displacement, operandRegisters, withRegister]
  -- The name of `JALR` begins with that of `JAL`.
  · have kind := kind_of_named insnJal [.jal, .jalr] (by simp [mnemonicKinds]) rfl isNamed isType
    rw [List.mem_cons, List.mem_singleton] at kind
    rcases kind with jal | jalr
    · simp [insnJal, asmLineJalAdd, knownLines_singleton, InsnLine.printedRegs, jal, operand,
        operandRegisters, withRegister]
    · simp [insnJal, asmLineJalAdd, knownLines_singleton, InsnLine.printedRegs, jalr, operand,
        operandRegisters, withRegister, asmLineNew, r0]
  · have kind := List.mem_singleton.mp
      (kind_of_named insnJalr [.jalr] (by simp [mnemonicKinds]) rfl isNamed isType)
    simp [insnJalr, asmLineJalrAdd, knownLines_singleton, InsnLine.printedRegs, kind, operand,
      operandRegisters, withRegister]
    exact and_comm
  · have kind := kind_of_named insnUpper [.lui, .auipc] (by simp [mnemonicKinds]) rfl isNamed isType
    rw [List.mem_cons, List.mem_singleton] at kind
    rcases kind with lui | auipc
    · simp [insnUpper, asmLineUpperAdd, knownLines_singleton, InsnLine.printedRegs, lui, operand,
        operandRegisters, withRegister]
    · simp [insnUpper, asmLineUpperAdd, knownLines_singleton, InsnLine.printedRegs, auipc,
        operand, operandRegisters, withRegister]
  -- The pseudo-instructions stand for fixed ones, with fixed registers besides their own.
  · have jal : (insnset2insn .jal).type = .jal := rfl
    split <;> simp [unsninsnJ, asmLineJalAdd, knownLines_singleton, InsnLine.printedRegs, jal,
      operandRegisters, r6]
  · have addi : (insnset2insn .addi).type = .regimm := rfl
    split <;> simp [unsninsnLi, asmLineImmAdd, knownLines_singleton, InsnLine.printedRegs, addi,
      operand, operandRegisters, withRegister, r0]
  · have add : (insnset2insn .add).type = .regreg := rfl
    split <;> simp [unsninsnMv, asmLineRegregAdd, knownLines_singleton, InsnLine.printedRegs,
      add, operand, operandRegisters, withRegister, r0, and_comm]

/-- Lexemes of a type that may begin an end of line, or that is a label's, are passed. -/
theorem printedRegisters_cons {type : String} {lex : Lexem}
    (named : ∃ name ∈ typeNames, lex.type = name) (isType : lexemType lex type)
    (other : type ∈ "label" :: endTypes) :
    printedRegisters 0 (lex :: rest) = printedRegisters 0 rest := by
  -- Neither a label nor a part of an end of line is a register or sets the countdown.
  have mem : type ∈ otherTypes := by
    simp only [endTypes, List.mem_cons, List.not_mem_nil, or_false] at other
    rcases other with rfl | rfl | rfl | rfl <;> simp [otherTypes]
  have noRegister : [type] ≠ ["symbole::register"] := by
    rintro ⟨⟩
    simp [endTypes] at other
  obtain ⟨noRegimm, register⟩ :=
    operand_named named ⟨type, mem, rfl⟩ (show [type].any (lexemType lex) by simpa using isType)
  rw [printedRegisters, if_neg noRegimm, if_neg fun found => noRegister (register.mp found.1)]

/-- Lexemes of an end of line are passed. -/
theorem printedRegisters_append {before : List Lexem} (named : Named (before ++ rest))
    (each : ∀ lex ∈ before, ∃ type ∈ endTypes, lexemType lex type) :
    printedRegisters 0 (before ++ rest) = printedRegisters 0 rest := by
  -- By induction on the lexemes in front.
  induction before with
  | nil => rfl
  | cons lex before ih =>
    rw [List.cons_append, Named, List.forall_mem_cons] at named
    rw [List.forall_mem_cons] at each
    obtain ⟨type, mem, isType⟩ := each.1
    rw [List.cons_append, printedRegisters_cons named.1 isType (List.mem_cons_of_mem _ mem),
      ih named.2 each.2]

/-- What is skipped at the end of a line is no register. -/
theorem printedRegisters_skip {type : String} (named : Named lexems) (other : type ∈ endTypes) :
    printedRegisters 0 (skip type lexems) = printedRegisters 0 lexems := by
  obtain ⟨before, split, each⟩ := skip_split type lexems
  have passed := printedRegisters_append (split ▸ named) fun lex mem => ⟨type, other, each lex mem⟩
  rw [← passed, ← split]

/-- An end of line is passed. -/
theorem printedRegisters_readEnd (named : Named lexems) (ends : readEnd lexems = some rest) :
    printedRegisters 0 lexems = printedRegisters 0 rest := by
  obtain ⟨before, rfl, -, each⟩ := readEnd_split ends
  exact printedRegisters_append named each

/-- The registers printed of a program are those that its lines print. -/
theorem Items.known (items : Items lexems addr lines addr') (named : Named lexems) :
    Known (printedRegisters 0 lexems) ↔ KnownLines lines := by
  -- By induction on the items, of which only instructions name registers.
  induction items with
  | nil => simp [printedRegisters, KnownLines]
  | label isLabel _ ih =>
    rw [Named, List.forall_mem_cons] at named
    rw [printedRegisters_cons named.1 isLabel (by decide), ih named.2]
    rfl
  | insn mem matched _ ih =>
    obtain ⟨rfl, fit⟩ := matchTerms_eq_some.mp matched
    rw [Named, List.forall_mem_append] at named
    rw [known_insn mem fit named.1, ih named.2, KnownLines, KnownLines, KnownLines,
      insnLines_append, List.forall_mem_append]
  | eol ends _ ih =>
    rw [printedRegisters_readEnd named ends]
    exact ih fun lex mem => named lex ((readEnd_suffix ends).subset mem)

end Items

section Output

variable {lexems : List Lexem} {insnList : List AsmLine}

/-- A file is well formed exactly when every register that it needs is known. -/
theorem wellFormed_iff_known (typed : Typed insnList) :
    WellFormed insnList ↔ KnownLines insnList := by
  -- The text of the file exists exactly when no register is missing.
  constructor
  · rintro ⟨words, written, -⟩
    by_contra unknown
    rw [asmLineText_unknown typed unknown] at written
    cases written
  · intro known
    obtain ⟨words, each, written⟩ := asmLineText_known typed known
    exact ⟨words, written, each⟩

/-- Resolving the labels does not change which registers are printed. -/
theorem wellFormed_map_resolve (all : List AsmLine) (typed : Typed insnList) :
    WellFormed (insnList.map (AsmLine.resolve all)) ↔ WellFormed insnList := by
  -- Resolving leaves the registers of a line what they are.
  have printedRegs : ∀ line : InsnLine,
      (if line.isControl then line.resolve all else line).printedRegs = line.printedRegs := by
    intro line
    split <;> rfl
  rw [wellFormed_iff_known (typed_map_resolve all typed), wellFormed_iff_known typed, KnownLines,
    KnownLines, insnLines_map_resolve]
  simp only [List.forall_mem_map, printedRegs]

/-- The registers printed of the lexemes are those printed of the lines parsed from them. -/
theorem knownLines_parsedLines (named : Named lexems) (accepted : Accepted lexems) :
    KnownLines (parsedLines lexems) ↔ Known (printedRegisters 0 lexems) := by
  obtain ⟨lines, addr, items, left⟩ := parseCode_lines [] false (parseStart lexems) accepted
  change Items (skip "comment" lexems) 0 lines addr at items
  rw [parsedLines, left, show (parseStart lexems).instructions = [] from rfl, List.nil_append,
    ← printedRegisters_skip named (show "comment" ∈ endTypes by decide),
    items.known (named.skip "comment")]
  -- The closing jump names a register of its own.
  have loop : KnownLines (progLoop addr) := by
    rw [progLoop, asmLineJalAdd, List.nil_append, knownLines_singleton]
    simp [InsnLine.printedRegs, show (insnset2insn .jal).type = .jal from rfl, r6]
  simp only [KnownLines, insnLines_append, List.forall_mem_append]
  constructor
  · exact fun known => known.1.2
  · exact fun known => ⟨⟨fun line mem => (by cases mem), known⟩, loop⟩

end Output

/--
A source that is tokenised, parsed and linked gives a well-formed file exactly when every register
whose code is printed has one.

The expressions of `database.txt` let more spellings through than `str2reg` knows.
-/
theorem wellFormed_iff {content : CStr} {lexems : List Lexem}
    (whole : lexemRead content database = some (0, lexems)) (accepted : Accepted lexems)
    (resolvable : Resolvable (parsedLines lexems)) (verbose : Bool) :
    WellFormed (writtenLines verbose lexems) ↔ Known (printedRegisters 0 lexems) := by
  obtain ⟨code, lexems', read, named⟩ := lexemRead_database content
  obtain ⟨rfl, rfl⟩ : 0 = code ∧ lexems = lexems' := by simpa [whole] using read
  have typed := typed_parsedLines accepted
  have parsed : WellFormed (parsedLines lexems) ↔ Known (printedRegisters 0 lexems) := by
    rw [wellFormed_iff_known typed, knownLines_parsedLines named accepted]
  -- Without traces the labels are left as they are.
  cases verbose with
  | false => exact parsed
  | true =>
    rw [writtenLines, if_pos rfl, asmLineUpdateAdress_lines resolvable,
      wellFormed_map_resolve _ typed, parsed]

/-- What `mv pc,r1` and `li r1,5` give, each with and without the offset of its jump. -/
private theorem sampleRuns :
    (lexemRead "mv pc,r1\n".toList database).map (fun read =>
        (read.1, decide (Accepted read.2), (asmLineUpdateAdress (parsedLines read.2)).1,
          (asmLineText (writtenLines false read.2)).isNone &&
            (asmLineText (writtenLines true read.2)).isNone)) = some (0, true, 0, true) ∧
      (lexemRead "li r1,5\n".toList database).map (fun read =>
        (read.1, decide (Accepted read.2), (asmLineUpdateAdress (parsedLines read.2)).1,
          decide (Known (printedRegisters 0 read.2)))) = some (0, true, 0, true) := by
  -- Both programs are read, parsed and written.
  decide +kernel

/-- `pc` is a register of `database.txt` for which no code is known. -/
theorem wellFormed_mv_pc : ∃ lexems, lexemRead "mv pc,r1\n".toList database = some (0, lexems) ∧
    Accepted lexems ∧ Resolvable (parsedLines lexems) ∧
      ∀ verbose, ¬ WellFormed (writtenLines verbose lexems) := by
  obtain ⟨⟨code, lexems⟩, read, same⟩ := Option.map_eq_some_iff.mp sampleRuns.1
  simp only [Prod.mk.injEq, decide_eq_true_eq, Bool.and_eq_true, Option.isNone_iff_eq_none] at same
  obtain ⟨rfl, accepted, updated, silent, traced⟩ := same
  refine ⟨lexems, read, accepted, (asmLineUpdateAdress_code _).mp updated, ?_⟩
  rintro (_ | _) ⟨words, written, -⟩
  · rw [silent] at written
    cases written
  · rw [traced] at written
    cases written

/-- The file of `li r1,5`, with the offset of its jump, is well formed. -/
theorem wellFormed_li : ∃ lexems, lexemRead "li r1,5\n".toList database = some (0, lexems) ∧
    WellFormed (writtenLines true lexems) := by
  obtain ⟨⟨code, lexems⟩, read, same⟩ := Option.map_eq_some_iff.mp sampleRuns.2
  simp only [Prod.mk.injEq, decide_eq_true_eq] at same
  obtain ⟨rfl, accepted, updated, known⟩ := same
  exact ⟨lexems, read,
    (wellFormed_iff read accepted ((asmLineUpdateAdress_code _).mp updated) true).mpr known⟩

end MiniRiscV
