import MiniRiscV.Asm.AsmLine

/-! `parser.c`: one function for each nonterminal, with its backtracking and its trace. -/

namespace MiniRiscV

/-- A `lexem_t`. -/
structure Lexem where
  type : CStr
  value : CStr
  line : ℤ
  column : ℤ
  deriving DecidableEq

/-- A lexeme of a type with a value, at the beginning of a text. -/
def lexemOf (type value : String) : Lexem := ⟨type, value, 1, 1⟩

/-- `lexem_type`, which holds as soon as the type begins with the one asked for. -/
def lexemType (lex : Lexem) (type : String) : Bool := type.toList.isPrefixOf lex.type

/-- What the parser functions share: the lists behind their pointers, and the two consoles. -/
structure ParseState where
  lexems : List Lexem
  instructions : List AsmLine
  lineAddr : ℤ
  stdout : CStr
  stderr : CStr

/-- A parser function: it returns 0 with a value, or -1 with whatever it has already changed. -/
abbrev ParseM := OptionT (StateM ParseState)

def printf (text : CStr) : ParseM Unit := modify fun s => { s with stdout := s.stdout ++ text }

def fprintfStderr (text : CStr) : ParseM Unit :=
  modify fun s => { s with stderr := s.stderr ++ text }

def printInt (n : ℤ) : CStr := (toString n).toList

def styleRegular : CStr := ['\x1b', '[', '0', ';', '3']
def styleBold : CStr := ['\x1b', '[', '1', ';', '3']
def styleHighIntensityText : CStr := ['\x1b', '[', '0', ';', '9']
def colorRed : ℤ := 1
def colorGreen : ℤ := 2
def colorWhite : ℤ := 7

/-- `STYLE(stderr, color, style)`. -/
def style (color : ℤ) (style : CStr) : ParseM Unit :=
  fprintfStderr (style ++ printInt color ++ ['m'])

/-- `STYLE_RESET(stderr)`. -/
def styleReset : ParseM Unit := fprintfStderr ['\x1b', '[', '0', 'm']

/-- `lexem_print`. -/
def lexemPrint (lex : Lexem) : CStr :=
  ['['] ++ printInt lex.line ++ [':'] ++ printInt lex.column ++ [':'] ++ lex.type ++ [']', ' '] ++
    lex.value

/-- `print_parse_error`. -/
def printParseError (msg : CStr) : ParseM Unit := do
  style colorRed styleRegular
  match (← get).lexems with
  | lex :: _ =>
    fprintfStderr ("Error:".toList ++ printInt lex.line ++ [':'] ++ printInt lex.column ++
      " : ".toList)
  | [] => fprintfStderr "Error:EOF : ".toList
  style colorWhite styleBold
  printf (msg ++ ['\n'])
  styleReset

/-- `next_lexem_is`. -/
def nextLexemIs (type : String) : ParseM Bool := do
  match (← get).lexems with
  | [] => return false
  | lex :: _ => return lexemType lex type

/-- `lexem_advance`, called on a list that is not empty. -/
def lexemAdvance : ParseM Unit := modify fun s => { s with lexems := s.lexems.tail }

/-- A head `if (next_lexem_is(..) || ..)` and the reading of the lexeme it found. -/
def nextOfTypes (types : List String) : ParseM (Option Lexem) := do
  match (← get).lexems with
  | [] => return none
  | lex :: _ =>
    if types.any (lexemType lex) then
      lexemAdvance
      return some lex
    else return none

/-- `upd_depth`: the path of the function, printed with the next lexeme when tracing. -/
def updDepth (name : String) (depth : CStr) (verbose : Bool) : ParseM CStr := do
  let currDepth := depth ++ '\\' :: name.toList
  if verbose then
    printf (currDepth ++ ['\t'])
    match (← get).lexems with
    | lex :: _ => printf (lexemPrint lex)
    | [] => pure ()
    printf ['\n']
  return currDepth

/-- The trace that `ret` prints before it returns. -/
def retTrace (currDepth : CStr) (verbose : Bool) (code : ℤ) : ParseM Unit := do
  if verbose then
    printf currDepth
    style (if code = 0 then colorGreen else colorRed) styleHighIntensityText
    printf ("\treturn\t".toList ++ printInt code ++ ['\n'])
    styleReset

/-- `ret(0)`. -/
def retOk (currDepth : CStr) (verbose : Bool) : ParseM Unit := retTrace currDepth verbose 0

/-- `ret(-1)`. -/
def retFail {α : Type} (currDepth : CStr) (verbose : Bool) : ParseM α := do
  retTrace currDepth verbose (-1)
  failure

/-- `chk_term`: the lexeme read, for the assignments made before it is passed. -/
def chkTerm (term : String) (currDepth : CStr) (verbose : Bool) : ParseM Lexem := do
  match ← nextOfTypes [term] with
  | some lex => return lex
  | none =>
    if verbose then
      printParseError (term.toList ++ " attendu".toList)
    retFail currDepth verbose

/-- `chk_opt_non_term`: whether `func` succeeded, the lexemes being restored otherwise. -/
def chkOptNonTerm (func : ParseM Unit) : ParseM Bool := fun s =>
  match func s with
  | (some (), s') => (some true, s')
  | (none, s') => (some false, { s' with lexems := s.lexems })

/-- The end of a production: lines are added at the current address, which moves behind them. -/
def addLine (add : List AsmLine → ℤ → List AsmLine) : ParseM Unit :=
  modify fun s =>
    { s with instructions := add s.instructions s.lineAddr, lineAddr := s.lineAddr + 4 }

/-- A register-register instruction. -/
def parseInsnRegreg (depth : CStr) (verbose : Bool) : ParseM Unit := do
  let currDepth ← updDepth "insn-regreg" depth verbose
  match ← nextOfTypes ["insn::ADD", "insn::AND", "insn::SLL", "insn::SRL", "insn::OR",
    "insn::XOR", "insn::SLT", "insn::SLTU", "insn::SRA", "insn::SUB"] with
  | some lex =>
    let insn := str2insn lex.type
    let _ ← chkTerm "blank" currDepth verbose
    let rd := str2reg (← chkTerm "symbole::register" currDepth verbose).value
    let _ ← chkTerm "comma" currDepth verbose
    let rs1 := str2reg (← chkTerm "symbole::register" currDepth verbose).value
    let _ ← chkTerm "comma" currDepth verbose
    let rs2 := str2reg (← chkTerm "symbole::register" currDepth verbose).value
    addLine fun instructions => asmLineRegregAdd instructions insn rd rs1 rs2
    retOk currDepth verbose
  | none => retFail currDepth verbose

/-- A register-immediate instruction. -/
def parseInsnImm (depth : CStr) (verbose : Bool) : ParseM Unit := do
  let currDepth ← updDepth "insn-imm" depth verbose
  match ← nextOfTypes ["insn::ADDI", "insn::ANDI", "insn::SLLI", "insn::SRLI", "insn::ORI",
    "insn::XORI", "insn::SLTI", "insn::SLTIU", "insn::SRAI"] with
  | some lex =>
    let insn := str2insn lex.type
    let _ ← chkTerm "blank" currDepth verbose
    let rd := str2reg (← chkTerm "symbole::register" currDepth verbose).value
    let _ ← chkTerm "comma" currDepth verbose
    let rs1 := str2reg (← chkTerm "symbole::register" currDepth verbose).value
    let _ ← chkTerm "comma" currDepth verbose
    let imm := atoi (← chkTerm "integer::dec" currDepth verbose).value
    addLine fun instructions => asmLineImmAdd instructions insn rd rs1 imm
    retOk currDepth verbose
  | none => retFail currDepth verbose

/-- A branch, which two no-operations follow. -/
def parseInsnBranch (depth : CStr) (verbose : Bool) : ParseM Unit := do
  let currDepth ← updDepth "insn-branch" depth verbose
  match ← nextOfTypes ["insn::BEQ", "insn::BNE", "insn::BLT", "insn::BGE", "insn::BLTU",
    "insn::BGEU"] with
  | some lex =>
    let insn := str2insn lex.type
    let _ ← chkTerm "blank" currDepth verbose
    let rs1 := str2reg (← chkTerm "symbole::register" currDepth verbose).value
    let _ ← chkTerm "comma" currDepth verbose
    let rs2 := str2reg (← chkTerm "symbole::register" currDepth verbose).value
    let _ ← chkTerm "comma" currDepth verbose
    let label := (← chkTerm "symbole::label" currDepth verbose).value
    addLine fun instructions => asmLineBranchAdd instructions insn rs1 rs2 label
    -- Two no-operations, should the branch be taken.
    addLine asmLineNopAdd
    addLine asmLineNopAdd
    retOk currDepth verbose
  | none => retFail currDepth verbose

/-- A load. -/
def parseInsnLoad (depth : CStr) (verbose : Bool) : ParseM Unit := do
  let currDepth ← updDepth "insn-load" depth verbose
  match ← nextOfTypes ["insn::LB", "insn::LH", "insn::LW", "insn::LBU", "insn::LHU"] with
  | some lex =>
    let insn := str2insn lex.type
    let _ ← chkTerm "blank" currDepth verbose
    let rd := str2reg (← chkTerm "symbole::register" currDepth verbose).value
    let _ ← chkTerm "comma" currDepth verbose
    let imm := atoi (← chkTerm "integer::dec" currDepth verbose).value
    let _ ← chkTerm "paren::left" currDepth verbose
    let rs1 := str2reg (← chkTerm "symbole::register" currDepth verbose).value
    let _ ← chkTerm "paren::right" currDepth verbose
    addLine fun instructions => asmLineLoadAdd instructions insn rd rs1 imm
    retOk currDepth verbose
  | none => retFail currDepth verbose

/-- A store. -/
def parseInsnStore (depth : CStr) (verbose : Bool) : ParseM Unit := do
  let currDepth ← updDepth "insn-store" depth verbose
  match ← nextOfTypes ["insn::SB", "insn::SH", "insn::SW"] with
  | some lex =>
    let insn := str2insn lex.type
    let _ ← chkTerm "blank" currDepth verbose
    let rs2 := str2reg (← chkTerm "symbole::register" currDepth verbose).value
    let _ ← chkTerm "comma" currDepth verbose
    let imm := atoi (← chkTerm "integer::dec" currDepth verbose).value
    let _ ← chkTerm "paren::left" currDepth verbose
    let rs1 := str2reg (← chkTerm "symbole::register" currDepth verbose).value
    let _ ← chkTerm "paren::right" currDepth verbose
    addLine fun instructions => asmLineStoreAdd instructions insn rs1 rs2 imm
    retOk currDepth verbose
  | none => retFail currDepth verbose

/-- A jump and link. -/
def parseInsnJal (depth : CStr) (verbose : Bool) : ParseM Unit := do
  let currDepth ← updDepth "insn-jal" depth verbose
  let insn := str2insn (← chkTerm "insn::JAL" currDepth verbose).type
  let _ ← chkTerm "blank" currDepth verbose
  let rd := str2reg (← chkTerm "symbole::register" currDepth verbose).value
  let _ ← chkTerm "comma" currDepth verbose
  let label := (← chkTerm "symbole::label" currDepth verbose).value
  addLine fun instructions => asmLineJalAdd instructions insn rd label
  retOk currDepth verbose

/-- A jump and link to a register. -/
def parseInsnJalr (depth : CStr) (verbose : Bool) : ParseM Unit := do
  let currDepth ← updDepth "insn-jalr" depth verbose
  let insn := str2insn (← chkTerm "insn::JALR" currDepth verbose).type
  let _ ← chkTerm "blank" currDepth verbose
  let rd := str2reg (← chkTerm "symbole::register" currDepth verbose).value
  let _ ← chkTerm "comma" currDepth verbose
  let rs1 := str2reg (← chkTerm "symbole::register" currDepth verbose).value
  let _ ← chkTerm "comma" currDepth verbose
  let label := (← chkTerm "symbole::label" currDepth verbose).value
  addLine fun instructions => asmLineJalrAdd instructions insn rd rs1 label
  retOk currDepth verbose

/-- An instruction with an upper immediate. -/
def parseInsnUpper (depth : CStr) (verbose : Bool) : ParseM Unit := do
  let currDepth ← updDepth "insn-upper" depth verbose
  match ← nextOfTypes ["insn::LUI", "insn::AUIPC"] with
  | some lex =>
    let insn := str2insn lex.type
    let _ ← chkTerm "blank" currDepth verbose
    let rd := str2reg (← chkTerm "symbole::register" currDepth verbose).value
    let _ ← chkTerm "comma" currDepth verbose
    let imm := atoi (← chkTerm "integer::dec" currDepth verbose).value
    addLine fun instructions => asmLineUpperAdd instructions insn rd imm
    retOk currDepth verbose
  | none => retFail currDepth verbose

/-- `j`, replaced by a `JAL` that links in `r6`. -/
def parseUnsninsnJ (depth : CStr) (verbose : Bool) : ParseM Unit := do
  let currDepth ← updDepth "unsinsn-j" depth verbose
  let _ ← chkTerm "unsinsn::J" currDepth verbose
  let _ ← chkTerm "blank" currDepth verbose
  let label := (← chkTerm "symbole::label" currDepth verbose).value
  addLine fun instructions => asmLineJalAdd instructions (insnset2insn .jal) r6 label
  retOk currDepth verbose

/-- `li`, replaced by an `ADDI` of `r0`. -/
def parseUnsninsnLi (depth : CStr) (verbose : Bool) : ParseM Unit := do
  let currDepth ← updDepth "unsinsn-li" depth verbose
  let _ ← chkTerm "unsinsn::LI" currDepth verbose
  let _ ← chkTerm "blank" currDepth verbose
  let rd := str2reg (← chkTerm "symbole::register" currDepth verbose).value
  let _ ← chkTerm "comma" currDepth verbose
  let imm := atoi (← chkTerm "integer::dec" currDepth verbose).value
  addLine fun instructions => asmLineImmAdd instructions (insnset2insn .addi) rd r0 imm
  retOk currDepth verbose

/-- `mv`, replaced by an `ADD` of `r0`. -/
def parseUnsninsnMv (depth : CStr) (verbose : Bool) : ParseM Unit := do
  let currDepth ← updDepth "unsinsn-mv" depth verbose
  let _ ← chkTerm "unsinsn::MV" currDepth verbose
  let _ ← chkTerm "blank" currDepth verbose
  let rd := str2reg (← chkTerm "symbole::register" currDepth verbose).value
  let _ ← chkTerm "comma" currDepth verbose
  let rs1 := str2reg (← chkTerm "symbole::register" currDepth verbose).value
  addLine fun instructions =>
    asmLineRegregAdd instructions (insnset2insn .add) rd rs1 r0
  retOk currDepth verbose

/-- `ble`, recognised and refused. -/
def parseUnsninsnBle (depth : CStr) (verbose : Bool) : ParseM Unit := do
  let currDepth ← updDepth "unsinsn-ble" depth verbose
  style colorRed styleHighIntensityText
  let _ ← chkTerm "unsinsn::BLE" currDepth verbose
  printf "Instruction BLE non support\xc3\xa9e par le compilateur\n".toList
  styleReset
  retFail currDepth verbose

/-- The ordered alternatives of a nonterminal, tried from the same lexeme. -/
def firstOf (alternatives : List (CStr → Bool → ParseM Unit)) (currDepth : CStr)
    (verbose : Bool) : ParseM Unit :=
  match alternatives with
  | [] => retFail currDepth verbose
  | func :: rest => do
    if ← chkOptNonTerm (func currDepth verbose) then retOk currDepth verbose
    else firstOf rest currDepth verbose

/-- A pseudo-instruction. -/
def parseUnsninsn (depth : CStr) (verbose : Bool) : ParseM Unit := do
  let currDepth ← updDepth "unsninsn" depth verbose
  firstOf [parseUnsninsnJ, parseUnsninsnLi, parseUnsninsnMv, parseUnsninsnBle] currDepth verbose

/-- An instruction. -/
def parseInsn (depth : CStr) (verbose : Bool) : ParseM Unit := do
  let currDepth ← updDepth "insn" depth verbose
  firstOf [parseInsnRegreg, parseInsnImm, parseInsnBranch, parseInsnLoad, parseInsnStore,
    parseInsnJal, parseInsnJalr, parseInsnUpper, parseUnsninsn] currDepth verbose

/-- `func(args) == 0`, with the lexemes as `func` leaves them. -/
def succeeds (func : ParseM Unit) : ParseM Bool := fun s =>
  match func s with
  | (some (), s') => (some true, s')
  | (none, s') => (some false, s')

/-- A label, or an instruction and the label right behind it. -/
def parseCodeLine (depth : CStr) (verbose : Bool) : ParseM Unit := do
  let currDepth ← updDepth "code-line" depth verbose
  let found ← do
    if ← nextLexemIs "label" then pure true else succeeds (parseInsn currDepth verbose)
  if found then
    match ← nextOfTypes ["label"] with
    | some lex =>
      modify fun s =>
        { s with instructions := asmLineLabelAdd s.instructions lex.value s.lineAddr }
    | none => pure ()
    retOk currDepth verbose
  else retFail currDepth verbose

/-- The loop of `parse_eol`, for at most as many ends of line as there are lexemes. -/
def eolLoop (currDepth : CStr) (verbose : Bool) : ℕ → ParseM Unit
  | 0 => pure ()
  | fuel + 1 => do
    if (← nextLexemIs "blank") || (← nextLexemIs "comment") || (← nextLexemIs "newline") then
      let _ ← nextOfTypes ["blank"]
      let _ ← nextOfTypes ["comment"]
      let _ ← chkTerm "newline" currDepth verbose
      let _ ← nextOfTypes ["blank"]
      eolLoop currDepth verbose fuel

/-- Any number of ends of line. -/
def parseEol (depth : CStr) (verbose : Bool) : ParseM Unit := do
  let currDepth ← updDepth "eol" depth verbose
  eolLoop currDepth verbose (← get).lexems.length
  retOk currDepth verbose

/-- `chk_non_term`. -/
def chkNonTerm (func : ParseM Unit) (currDepth : CStr) (verbose : Bool) : ParseM Unit := do
  if ← succeeds func then pure () else retFail currDepth verbose

/-- The loop of `parse_code`, each turn of which reads at least one lexeme. -/
def codeLoop (currDepth : CStr) (verbose : Bool) : ℕ → ParseM Unit
  | 0 => pure ()
  | fuel + 1 => do
    if ← succeeds (parseCodeLine currDepth verbose) then
      chkNonTerm (parseEol currDepth verbose) currDepth verbose
      codeLoop currDepth verbose fuel

/-- The whole program, with a label before it and a jump back to that label behind it. -/
def parseCode (depth : CStr) (verbose : Bool) : ParseM Unit := do
  let currDepth ← updDepth "code" depth verbose
  modify fun s =>
    { s with instructions := asmLineLabelAdd s.instructions "PROG_START:" s.lineAddr }
  let _ ← nextOfTypes ["comment"]
  let _ ← chkOptNonTerm (parseCodeLine currDepth verbose)
  chkNonTerm (parseEol currDepth verbose) currDepth verbose
  codeLoop currDepth verbose ((← get).lexems.length + 1)
  modify fun s =>
    { s with
      instructions :=
        asmLineJalAdd s.instructions (insnset2insn .jal) r6 "PROG_START" s.lineAddr }
  if (← get).lexems.isEmpty then retOk currDepth verbose else retFail currDepth verbose

/-- The state in which `main` calls `parse_code`, with nothing printed yet. -/
def parseStart (lexems : List Lexem) : ParseState where
  lexems := lexems
  instructions := []
  lineAddr := 0
  stdout := []
  stderr := []

end MiniRiscV
