import MiniRiscV.Asm.Parser

/-! What each parser function recognises and emits, whatever it prints. -/

namespace MiniRiscV

/-- The terminals of a production, each a choice of types, and the lines it stands for. -/
structure Production where
  terms : List (List String)
  emit : List Lexem → ℤ → List AsmLine

/-- The lexemes that a sequence of terminals takes off a list, and those it leaves. -/
def matchTerms : List (List String) → List Lexem → Option (List Lexem × List Lexem)
  | [], lexems => some ([], lexems)
  | _ :: _, [] => none
  | types :: terms, lex :: lexems =>
    if types.any (lexemType lex) then
      (matchTerms terms lexems).map fun (taken, rest) => (lex :: taken, rest)
    else none

/-- The first of the productions that the lexemes begin with. -/
def firstMatch (prods : List Production) (lexems : List Lexem) :
    Option (Production × List Lexem × List Lexem) :=
  prods.findSome? fun prod =>
    (matchTerms prod.terms lexems).map fun (taken, rest) => (prod, taken, rest)

/-- The state after lines have been added at the current address. -/
def ParseState.emitted (s : ParseState) (lines : List AsmLine) : ParseState :=
  { s with
    instructions := s.instructions ++ lines
    lineAddr := s.lineAddr + 4 * lines.length }

/-- Two states that differ on the consoles only. -/
def SameBut (s s' : ParseState) : Prop :=
  s'.lexems = s.lexems ∧ s'.instructions = s.instructions ∧ s'.lineAddr = s.lineAddr

/-- A computation that only prints, and succeeds. -/
def Silent {α : Type} (p : ParseM α) : Prop :=
  ∀ s, ∃ a s', p s = (some a, s') ∧ SameBut s s'

/-- A computation that only prints, and fails. -/
def Fails {α : Type} (p : ParseM α) : Prop := ∀ s, ∃ s', p s = (none, s') ∧ SameBut s s'

/-- The computation reads a sequence of terminals and emits lines, or fails and emits none. -/
def Runs (p : ParseM Unit) (terms : List (List String))
    (emit : List Lexem → ℤ → List AsmLine) : Prop :=
  ∀ s, match matchTerms terms s.lexems with
    | some (taken, rest) => ∃ s', p s = (some (), s') ∧
        SameBut (ParseState.emitted { s with lexems := rest } (emit taken s.lineAddr)) s'
    | none => ∃ rest s', p s = (none, s') ∧ SameBut { s with lexems := rest } s'

/-- The computation is the ordered choice of some productions. -/
def Chooses (p : ParseM Unit) (prods : List Production) : Prop :=
  ∀ s, match firstMatch prods s.lexems with
    | some (prod, taken, rest) => ∃ s', p s = (some (), s') ∧
        SameBut (ParseState.emitted { s with lexems := rest } (prod.emit taken s.lineAddr)) s'
    | none => ∃ rest s', p s = (none, s') ∧ SameBut { s with lexems := rest } s'

/-- The computation is the ordered choice of some productions, and gives lexemes back. -/
def Selects (p : ParseM Unit) (prods : List Production) : Prop :=
  ∀ s, match firstMatch prods s.lexems with
    | some (prod, taken, rest) => ∃ s', p s = (some (), s') ∧
        SameBut (ParseState.emitted { s with lexems := rest } (prod.emit taken s.lineAddr)) s'
    | none => ∃ s', p s = (none, s') ∧ SameBut s s'

/-- Running a sequence stops at the first failure. -/
theorem bind_apply {α β : Type} (p : ParseM α) (k : α → ParseM β) (s : ParseState) :
    (p >>= k) s = match p s with
      | (some a, s') => k a s'
      | (none, s') => (none, s') := by
  -- The first parser fails, or its value is passed on.
  change (match (p s).1 with | some a => k a | none => pure none : StateM ParseState _) (p s).2 = _
  rcases p s with ⟨_ | a, s'⟩ <;> rfl

/-- A state differs from itself in nothing. -/
theorem SameBut.refl (s : ParseState) : SameBut s s := ⟨rfl, rfl, rfl⟩

/-- Two steps that only print are one such step. -/
theorem SameBut.trans {s s' s'' : ParseState} (first : SameBut s s') (second : SameBut s' s'') :
    SameBut s s'' :=
  ⟨second.1.trans first.1, second.2.1.trans first.2.1, second.2.2.trans first.2.2⟩

section Silence

variable {α β : Type}

/-- To return a value is silent. -/
theorem Silent.pure (a : α) : Silent (Pure.pure a : ParseM α) := fun s => ⟨a, s, rfl, .refl s⟩

/-- One silent step behind another is silent. -/
theorem Silent.bind {p : ParseM α} {k : α → ParseM β} (first : Silent p)
    (next : ∀ a, Silent (k a)) : Silent (p >>= k) := by
  -- What the first leaves as it is, the second leaves as well.
  intro s
  obtain ⟨a, s', run, same⟩ := first s
  obtain ⟨b, s'', run', same'⟩ := next a s'
  exact ⟨b, s'', by rw [bind_apply, run]; exact run', same.trans same'⟩

/-- What fails behind a silent step fails. -/
theorem Fails.bind {p : ParseM α} {k : α → ParseM β} (first : Silent p)
    (next : ∀ a, Fails (k a)) : Fails (p >>= k) := by
  -- The first is silent, so the failure is that of the second.
  intro s
  obtain ⟨a, s', run, same⟩ := first s
  obtain ⟨s'', run', same'⟩ := next a s'
  exact ⟨s'', by rw [bind_apply, run]; exact run', same.trans same'⟩

/-- What fails at once has no next step. -/
theorem Fails.bind_left {p : ParseM α} {k : α → ParseM β} (first : Fails p) :
    Fails (p >>= k) := by
  intro s
  obtain ⟨s', run, same⟩ := first s
  exact ⟨s', by rw [bind_apply, run], same⟩

/-- Printing changes the output only. -/
theorem silent_printf (text : CStr) : Silent (printf text) := fun _ => ⟨(), _, rfl, rfl, rfl, rfl⟩

/-- So does printing an error. -/
theorem silent_fprintfStderr (text : CStr) : Silent (fprintfStderr text) :=
  fun _ => ⟨(), _, rfl, rfl, rfl, rfl⟩

/-- To look at the state changes nothing. -/
theorem silent_get : Silent (get : ParseM ParseState) := fun s => ⟨s, s, rfl, .refl s⟩

/-- A style is an escape sequence that is printed. -/
theorem silent_style (color : ℤ) (look : CStr) : Silent (style color look) :=
  silent_fprintfStderr _

/-- So is the end of a style. -/
theorem silent_styleReset : Silent styleReset := silent_fprintfStderr _

/-- `UPD_DEPTH` prints the name of the production in a trace. -/
theorem silent_updDepth (name : String) (depth : CStr) (verbose : Bool) :
    Silent (updDepth name depth verbose) := by
  unfold updDepth
  cases verbose
  · exact .pure _
  · refine .bind (silent_printf _) fun _ => .bind silent_get fun s => ?_
    -- With or without a next lexeme, a line is printed and the path returned.
    split
    · exact .bind (silent_printf _) fun _ => .bind (silent_printf _) fun _ => .pure _
    · exact .bind (silent_printf _) fun _ => .pure _

/-- The trace of a return is only printed. -/
theorem silent_retTrace (currDepth : CStr) (verbose : Bool) (code : ℤ) :
    Silent (retTrace currDepth verbose code) := by
  -- Without traces nothing is done; with them, only texts are printed.
  unfold retTrace
  cases verbose
  · exact .pure _
  · exact .bind (silent_printf _) fun _ => .bind (silent_style _ _) fun _ =>
      .bind (silent_printf _) fun _ => silent_styleReset

/-- A return with success is a trace of it. -/
theorem silent_retOk (currDepth : CStr) (verbose : Bool) : Silent (retOk currDepth verbose) :=
  silent_retTrace currDepth verbose 0

/-- A parse error is only printed. -/
theorem silent_printParseError (msg : CStr) : Silent (printParseError msg) := by
  -- The error is printed with a line number when there is a lexeme to blame.
  unfold printParseError
  refine .bind (silent_style _ _) fun _ => .bind silent_get fun s => ?_
  split <;>
    exact .bind (silent_fprintfStderr _) fun _ => .bind (silent_style _ _) fun _ =>
      .bind (silent_printf _) fun _ => silent_styleReset

/-- A return with failure is a trace of it, and fails. -/
theorem fails_retFail (currDepth : CStr) (verbose : Bool) :
    Fails (retFail currDepth verbose : ParseM α) :=
  .bind (silent_retTrace currDepth verbose (-1)) fun _ s => ⟨s, rfl, .refl s⟩

/-- The part of `chk_term` for a lexeme of another type. -/
theorem fails_missing (msg currDepth : CStr) (verbose : Bool) :
    Fails (do
      if verbose then printParseError msg
      retFail currDepth verbose : ParseM α) := by
  -- The error is only printed with traces, and the failure is the same.
  cases verbose
  · exact fails_retFail _ _
  · exact .bind (silent_printParseError _) fun _ => fails_retFail _ _

end Silence

/-- Reading a lexeme of one of some types, or none. -/
theorem nextOfTypes_apply (types : List String) (s : ParseState) :
    nextOfTypes types s =
      match s.lexems with
      | lex :: rest =>
        if types.any (lexemType lex) then (some (some lex), { s with lexems := rest })
        else (some none, s)
      | [] => (some none, s) := by
  -- The list is empty, or its head has one of the types or not.
  rcases s with ⟨_ | ⟨lex, rest⟩, _, _, _, _⟩
  · rfl
  · change (if types.any (lexemType lex) then _ else _ : ParseM _) _ = _
    dsimp only
    split <;> rfl

section Rules

variable {p : ParseM Unit} {terms : List (List String)} {types : List String}
  {emit : List Lexem → ℤ → List AsmLine}

/-- Printing before a production changes nothing. -/
theorem Runs.silent {α : Type} {p : ParseM α} {k : α → ParseM Unit} (first : Silent p)
    (next : ∀ a, Runs (k a) terms emit) : Runs (p >>= k) terms emit := by
  -- The terminals are matched in the state behind the first, which has the same lexemes.
  intro s
  obtain ⟨a, s', run, lexems, instructions, lineAddr⟩ := first s
  have after := next a s'
  rw [bind_apply, run, ← lexems]
  split at after <;> simpa only [ParseState.emitted, SameBut, lexems, instructions, lineAddr]
    using after

/-- Behind a choice of types comes the rest of the production, or else a failure. -/
theorem Runs.head {k : Option Lexem → ParseM Unit} (missing : Fails (k none))
    (next : ∀ lex, Runs (k (some lex)) terms fun taken => emit (lex :: taken)) :
    Runs (nextOfTypes types >>= k) (types :: terms) emit := by
  intro s
  rw [bind_apply, nextOfTypes_apply]
  rcases s with ⟨_ | ⟨lex, rest⟩, instructions, lineAddr, stdout, stderr⟩
  · -- At the end of the lexemes the choice is missing.
    obtain ⟨s', run, same⟩ := missing ⟨[], instructions, lineAddr, stdout, stderr⟩
    exact ⟨[], s', run, same⟩
  · by_cases found : types.any (lexemType lex)
    · simp only [matchTerms, found, if_true]
      have after := next lex ⟨rest, instructions, lineAddr, stdout, stderr⟩
      cases matched : matchTerms terms rest with
      | none => simpa only [matched, Option.map_none] using after
      | some pair => simpa only [matched, Option.map_some] using after
    · simp only [matchTerms, found, if_false, Bool.false_eq_true]
      obtain ⟨s', run, same⟩ := missing ⟨lex :: rest, instructions, lineAddr, stdout, stderr⟩
      exact ⟨lex :: rest, s', run, same⟩

/-- A terminal and what follows it. -/
theorem Runs.term {term : String} {currDepth : CStr} {verbose : Bool} {k : Lexem → ParseM Unit}
    (next : ∀ lex, Runs (k lex) terms fun taken => emit (lex :: taken)) :
    Runs (chkTerm term currDepth verbose >>= k) ([term] :: terms) emit := by
  -- A missing terminal fails, and a matched one is handed to the rest.
  rw [chkTerm, bind_assoc]
  refine .head (fails_missing _ _ _).bind_left fun lex => ?_
  rw [pure_bind]
  exact next lex

/-- The end of a production that stands for one line. -/
theorem Runs.line {add : List AsmLine → ℤ → List AsmLine} {currDepth : CStr} {verbose : Bool}
    {line : ℤ → AsmLine} (emits : emit [] = fun addr => [line addr])
    (adds : ∀ lines addr, add lines addr = lines ++ [line addr]) :
    Runs (addLine add >>= fun _ => retOk currDepth verbose) [] emit := by
  -- The line is added at the address, and the trace behind it adds nothing.
  intro s
  obtain ⟨_, s', run, same⟩ := silent_retOk currDepth verbose
    { s with instructions := add s.instructions s.lineAddr, lineAddr := s.lineAddr + 4 }
  refine ⟨s', run, ?_⟩
  simpa [emits, ParseState.emitted, adds] using same

/-- The end of a branch, which stands for three lines. -/
theorem Runs.branch {add : List AsmLine → ℤ → List AsmLine} {currDepth : CStr} {verbose : Bool}
    (emits : emit [] = fun addr => asmLineNopAdd (asmLineNopAdd (add [] addr) (addr + 4))
      (addr + 4 + 4))
    (adds : ∀ lines addr, add lines addr = lines ++ add [] addr)
    (one : ∀ addr, (add [] addr).length = 1) :
    Runs (do
      addLine add
      addLine asmLineNopAdd
      addLine asmLineNopAdd
      retOk currDepth verbose) [] emit := by
  -- Three lines are added, at three addresses.
  intro s
  obtain ⟨_, s', run, lexems, instructions, lineAddr⟩ := silent_retOk currDepth verbose
    { s with
      instructions := asmLineNopAdd (asmLineNopAdd (add s.instructions s.lineAddr)
        (s.lineAddr + 4)) (s.lineAddr + 4 + 4)
      lineAddr := s.lineAddr + 4 + 4 + 4 }
  refine ⟨s', run, lexems, ?_, ?_⟩
  · rw [instructions, adds]
    simp [emits, ParseState.emitted, asmLineNopAdd]
  · rw [lineAddr]
    simp only [emits, ParseState.emitted, asmLineNopAdd, List.length_append, one,
      List.length_singleton]
    omega

end Rules

/-- A blank and a register in front of the other operands. -/
def withRegister (terms : List (List String)) : List (List String) :=
  ["blank"] :: ["symbole::register"] :: terms

/-- One more operand. -/
def operand (type : String) (terms : List (List String)) : List (List String) :=
  ["comma"] :: [type] :: terms

/-- A displacement and the register it is added to. -/
def displacement : List (List String) :=
  operand "integer::dec" [["paren::left"], ["symbole::register"], ["paren::right"]]

def insnRegreg : Production where
  terms := ["insn::ADD", "insn::AND", "insn::SLL", "insn::SRL", "insn::OR", "insn::XOR",
    "insn::SLT", "insn::SLTU", "insn::SRA", "insn::SUB"] ::
      withRegister (operand "symbole::register" (operand "symbole::register" []))
  emit
    | [insn, _, rd, _, rs1, _, rs2] => asmLineRegregAdd [] (str2insn insn.type)
        (str2reg rd.value) (str2reg rs1.value) (str2reg rs2.value)
    | _ => fun _ => []

def insnImm : Production where
  terms := ["insn::ADDI", "insn::ANDI", "insn::SLLI", "insn::SRLI", "insn::ORI", "insn::XORI",
    "insn::SLTI", "insn::SLTIU", "insn::SRAI"] ::
      withRegister (operand "symbole::register" (operand "integer::dec" []))
  emit
    | [insn, _, rd, _, rs1, _, imm] => asmLineImmAdd [] (str2insn insn.type)
        (str2reg rd.value) (str2reg rs1.value) (atoi imm.value)
    | _ => fun _ => []

def insnBranch : Production where
  terms := ["insn::BEQ", "insn::BNE", "insn::BLT", "insn::BGE", "insn::BLTU", "insn::BGEU"] ::
      withRegister (operand "symbole::register" (operand "symbole::label" []))
  emit
    | [insn, _, rs1, _, rs2, _, label] => fun addr =>
        asmLineNopAdd (asmLineNopAdd (asmLineBranchAdd [] (str2insn insn.type)
          (str2reg rs1.value) (str2reg rs2.value) label.value addr) (addr + 4)) (addr + 4 + 4)
    | _ => fun _ => []

def insnLoad : Production where
  terms := ["insn::LB", "insn::LH", "insn::LW", "insn::LBU", "insn::LHU"] ::
      withRegister displacement
  emit
    | [insn, _, rd, _, imm, _, rs1, _] => asmLineLoadAdd [] (str2insn insn.type)
        (str2reg rd.value) (str2reg rs1.value) (atoi imm.value)
    | _ => fun _ => []

def insnStore : Production where
  terms := ["insn::SB", "insn::SH", "insn::SW"] :: withRegister displacement
  emit
    | [insn, _, rs2, _, imm, _, rs1, _] => asmLineStoreAdd [] (str2insn insn.type)
        (str2reg rs1.value) (str2reg rs2.value) (atoi imm.value)
    | _ => fun _ => []

def insnJal : Production where
  terms := ["insn::JAL"] :: withRegister (operand "symbole::label" [])
  emit
    | [insn, _, rd, _, label] => asmLineJalAdd [] (str2insn insn.type) (str2reg rd.value)
        label.value
    | _ => fun _ => []

def insnJalr : Production where
  terms := ["insn::JALR"] ::
      withRegister (operand "symbole::register" (operand "symbole::label" []))
  emit
    | [insn, _, rd, _, rs1, _, label] => asmLineJalrAdd [] (str2insn insn.type)
        (str2reg rd.value) (str2reg rs1.value) label.value
    | _ => fun _ => []

def insnUpper : Production where
  terms := ["insn::LUI", "insn::AUIPC"] :: withRegister (operand "integer::dec" [])
  emit
    | [insn, _, rd, _, imm] => asmLineUpperAdd [] (str2insn insn.type) (str2reg rd.value)
        (atoi imm.value)
    | _ => fun _ => []

def unsninsnJ : Production where
  terms := [["unsinsn::J"], ["blank"], ["symbole::label"]]
  emit
    | [_, _, label] => asmLineJalAdd [] (insnset2insn .jal) r6 label.value
    | _ => fun _ => []

def unsninsnLi : Production where
  terms := ["unsinsn::LI"] :: withRegister (operand "integer::dec" [])
  emit
    | [_, _, rd, _, imm] => asmLineImmAdd [] (insnset2insn .addi) (str2reg rd.value) r0
        (atoi imm.value)
    | _ => fun _ => []

def unsninsnMv : Production where
  terms := ["unsinsn::MV"] :: withRegister (operand "symbole::register" [])
  emit
    | [_, _, rd, _, rs1] => asmLineRegregAdd [] (insnset2insn .add) (str2reg rd.value)
        (str2reg rs1.value) r0
    | _ => fun _ => []

section Functions

variable (depth : CStr) (verbose : Bool)

/-- `parse_insn_regreg` reads the terms of its production and adds its line. -/
theorem runs_parseInsnRegreg :
    Runs (parseInsnRegreg depth verbose) insnRegreg.terms insnRegreg.emit :=
  .silent (silent_updDepth _ _ _) fun _ => .head (fails_retFail _ _) fun _ =>
    .term fun _ => .term fun _ => .term fun _ => .term fun _ => .term fun _ => .term fun _ =>
    .line rfl fun _ _ => rfl

/-- `parse_insn_imm` reads a register, a register and an integer. -/
theorem runs_parseInsnImm : Runs (parseInsnImm depth verbose) insnImm.terms insnImm.emit :=
  .silent (silent_updDepth _ _ _) fun _ => .head (fails_retFail _ _) fun _ =>
    .term fun _ => .term fun _ => .term fun _ => .term fun _ => .term fun _ => .term fun _ =>
    .line rfl fun _ _ => rfl

/-- `parse_insn_branch` adds two no-operations behind its line. -/
theorem runs_parseInsnBranch :
    Runs (parseInsnBranch depth verbose) insnBranch.terms insnBranch.emit :=
  .silent (silent_updDepth _ _ _) fun _ => .head (fails_retFail _ _) fun _ =>
    .term fun _ => .term fun _ => .term fun _ => .term fun _ => .term fun _ => .term fun _ =>
    .branch rfl (fun _ _ => rfl) fun _ => rfl

/-- `parse_insn_load` reads the address in its parentheses. -/
theorem runs_parseInsnLoad : Runs (parseInsnLoad depth verbose) insnLoad.terms insnLoad.emit :=
  .silent (silent_updDepth _ _ _) fun _ => .head (fails_retFail _ _) fun _ =>
    .term fun _ => .term fun _ => .term fun _ => .term fun _ => .term fun _ => .term fun _ =>
    .term fun _ => .line rfl fun _ _ => rfl

/-- `parse_insn_store` does so too, behind the register that is stored. -/
theorem runs_parseInsnStore :
    Runs (parseInsnStore depth verbose) insnStore.terms insnStore.emit :=
  .silent (silent_updDepth _ _ _) fun _ => .head (fails_retFail _ _) fun _ =>
    .term fun _ => .term fun _ => .term fun _ => .term fun _ => .term fun _ => .term fun _ =>
    .term fun _ => .line rfl fun _ _ => rfl

/-- `parse_insn_jal` reads a register and a label. -/
theorem runs_parseInsnJal : Runs (parseInsnJal depth verbose) insnJal.terms insnJal.emit :=
  .silent (silent_updDepth _ _ _) fun _ =>
    .term fun _ => .term fun _ => .term fun _ => .term fun _ => .term fun _ =>
    .line rfl fun _ _ => rfl

/-- `parse_insn_jalr` reads two registers and a label. -/
theorem runs_parseInsnJalr : Runs (parseInsnJalr depth verbose) insnJalr.terms insnJalr.emit :=
  .silent (silent_updDepth _ _ _) fun _ =>
    .term fun _ => .term fun _ => .term fun _ => .term fun _ => .term fun _ => .term fun _ =>
    .term fun _ => .line rfl fun _ _ => rfl

/-- `parse_insn_upper` reads a register and an integer. -/
theorem runs_parseInsnUpper :
    Runs (parseInsnUpper depth verbose) insnUpper.terms insnUpper.emit :=
  .silent (silent_updDepth _ _ _) fun _ => .head (fails_retFail _ _) fun _ =>
    .term fun _ => .term fun _ => .term fun _ => .term fun _ => .line rfl fun _ _ => rfl

/-- `parse_unsninsn_j` adds a `JAL` with the link in `R6`. -/
theorem runs_parseUnsninsnJ :
    Runs (parseUnsninsnJ depth verbose) unsninsnJ.terms unsninsnJ.emit :=
  .silent (silent_updDepth _ _ _) fun _ =>
    .term fun _ => .term fun _ => .term fun _ => .line rfl fun _ _ => rfl

/-- `parse_unsninsn_li` adds an `ADDI` to `R0`. -/
theorem runs_parseUnsninsnLi :
    Runs (parseUnsninsnLi depth verbose) unsninsnLi.terms unsninsnLi.emit :=
  .silent (silent_updDepth _ _ _) fun _ =>
    .term fun _ => .term fun _ => .term fun _ => .term fun _ => .term fun _ =>
    .line rfl fun _ _ => rfl

/-- `parse_unsninsn_mv` adds an `ADD` with `R0`. -/
theorem runs_parseUnsninsnMv :
    Runs (parseUnsninsnMv depth verbose) unsninsnMv.terms unsninsnMv.emit :=
  .silent (silent_updDepth _ _ _) fun _ =>
    .term fun _ => .term fun _ => .term fun _ => .term fun _ => .term fun _ =>
    .line rfl fun _ _ => rfl

/-- A production alone is a choice with one alternative. -/
theorem Runs.chooses {p : ParseM Unit} {prod : Production} (runs : Runs p prod.terms prod.emit) :
    Chooses p [prod] := by
  -- A list of one production is searched in one step.
  intro s
  have result := runs s
  simp only [firstMatch, List.findSome?_cons, List.findSome?_nil]
  cases matched : matchTerms prod.terms s.lexems with
  | none => simpa only [matched, Option.map_none] using result
  | some pair => simpa only [matched, Option.map_some] using result

/-- Printing before a choice changes nothing. -/
theorem Chooses.silent {α : Type} {p : ParseM α} {k : α → ParseM Unit} {prods : List Production}
    (first : Silent p) (next : ∀ a, Chooses (k a) prods) : Chooses (p >>= k) prods := by
  -- The productions are tried in the state behind the first.
  intro s
  obtain ⟨a, s', run, lexems, instructions, lineAddr⟩ := first s
  have after := next a s'
  rw [bind_apply, run, ← lexems]
  split at after <;> simpa only [ParseState.emitted, SameBut, lexems, instructions, lineAddr]
    using after

/-- A terminal before a failure, which may be read or not. -/
theorem fails_chkTerm {term : String} {currDepth : CStr} {k : Lexem → ParseM Unit}
    (next : ∀ lex, Fails (k lex)) (s : ParseState) :
    ∃ rest s', (chkTerm term currDepth verbose >>= k) s = (none, s') ∧
      SameBut { s with lexems := rest } s' := by
  -- The lexeme is missing, is of the type, or is of another one; all three end in failure.
  rw [chkTerm, bind_assoc, bind_apply, nextOfTypes_apply]
  rcases s with ⟨_ | ⟨lex, rest⟩, instructions, lineAddr, stdout, stderr⟩
  · obtain ⟨s', run, same⟩ := (fails_missing _ currDepth verbose).bind_left (k := k)
      ⟨[], instructions, lineAddr, stdout, stderr⟩
    exact ⟨[], s', run, same⟩
  · by_cases found : [term].any (lexemType lex)
    · obtain ⟨s', run, same⟩ := next lex ⟨rest, instructions, lineAddr, stdout, stderr⟩
      simp only [found, if_true]
      exact ⟨rest, s', run, same⟩
    · obtain ⟨s', run, same⟩ := (fails_missing _ currDepth verbose).bind_left (k := k)
        ⟨lex :: rest, instructions, lineAddr, stdout, stderr⟩
      simp only [found, if_false, Bool.false_eq_true]
      exact ⟨lex :: rest, s', run, same⟩

/-- The refused instruction is the choice without alternatives. -/
theorem chooses_parseUnsninsnBle : Chooses (parseUnsninsnBle depth verbose) [] := by
  refine .silent (silent_updDepth _ _ _) fun currDepth => .silent (silent_style _ _) fun _ => ?_
  exact fails_chkTerm verbose fun _ => .bind (silent_printf _) fun _ =>
    .bind silent_styleReset fun _ => fails_retFail _ _

/-- Two choices one after the other. -/
theorem firstMatch_append (prods prods' : List Production) (lexems : List Lexem) :
    firstMatch (prods ++ prods') lexems =
      (firstMatch prods lexems).or (firstMatch prods' lexems) :=
  List.findSome?_append

/-- Printing before a selection changes nothing. -/
theorem Selects.silent {α : Type} {p : ParseM α} {k : α → ParseM Unit} {prods : List Production}
    (first : Silent p) (next : ∀ a, Selects (k a) prods) : Selects (p >>= k) prods := by
  -- The productions are tried in the state behind the first.
  intro s
  obtain ⟨a, s', run, lexems, instructions, lineAddr⟩ := first s
  have after := next a s'
  rw [bind_apply, run, ← lexems]
  split at after <;> simpa only [ParseState.emitted, SameBut, lexems, instructions, lineAddr]
    using after

/-- A parser that selects by the first lexeme chooses the production that fits. -/
theorem Selects.chooses {p : ParseM Unit} {prods : List Production} (selects : Selects p prods) :
    Chooses p prods := by
  -- A parser that keeps the lexemes on failure leaves some lexemes.
  intro s
  have result := selects s
  split at result
  · exact result
  · exact ⟨s.lexems, result⟩

/-- Alternatives tried in order select among all their productions, in that order. -/
theorem selects_firstOf (alternatives : List ((CStr → Bool → ParseM Unit) × List Production))
    (each : ∀ alternative ∈ alternatives, Chooses (alternative.1 depth verbose) alternative.2) :
    Selects (firstOf (alternatives.map Prod.fst) depth verbose)
      (alternatives.flatMap Prod.snd) := by
  -- Induction on the alternatives; a failed one gives its lexemes back to the next.
  induction alternatives with
  | nil => exact fails_retFail depth verbose
  | cons alternative rest ih =>
    intro s
    have tried := each alternative List.mem_cons_self s
    simp only [List.flatMap_cons, firstMatch_append, List.map_cons, firstOf]
    rw [bind_apply]
    cases matched : firstMatch alternative.2 s.lexems with
    | some found =>
      rw [matched] at tried
      obtain ⟨s', run, same⟩ := tried
      obtain ⟨_, s'', run', same'⟩ := silent_retOk depth verbose s'
      refine ⟨s'', ?_, same.trans same'⟩
      simp only [chkOptNonTerm, run]
      exact run'
    | none =>
      rw [matched] at tried
      obtain ⟨rest', s', run, -, instructions, lineAddr⟩ := tried
      have after := ih (fun other mem => each other (List.mem_cons_of_mem _ mem))
        { s' with lexems := s.lexems }
      simp only [Option.none_or, chkOptNonTerm, run, Bool.false_eq_true, if_false]
      cases matched' : firstMatch (rest.flatMap Prod.snd) s.lexems <;>
        simpa only [matched', ParseState.emitted, SameBut, instructions, lineAddr] using after

/-- The productions of `parse_insn`, in the order in which it tries them. -/
def productions : List Production :=
  [insnRegreg, insnImm, insnBranch, insnLoad, insnStore, insnJal, insnJalr, insnUpper, unsninsnJ,
    unsninsnLi, unsninsnMv]

/-- `parse_unsninsn` selects among the three pseudo-instructions. -/
theorem selects_parseUnsninsn :
    Selects (parseUnsninsn depth verbose) [unsninsnJ, unsninsnLi, unsninsnMv] := by
  -- The four parsers in their order, of which the last one has no production.
  refine .silent (silent_updDepth _ _ _) fun currDepth => selects_firstOf currDepth verbose
    [(parseUnsninsnJ, [unsninsnJ]), (parseUnsninsnLi, [unsninsnLi]),
      (parseUnsninsnMv, [unsninsnMv]), (parseUnsninsnBle, [])] ?_
  simp only [List.forall_mem_cons]
  exact ⟨(runs_parseUnsninsnJ _ _).chooses, (runs_parseUnsninsnLi _ _).chooses,
    (runs_parseUnsninsnMv _ _).chooses, chooses_parseUnsninsnBle _ _, by simp⟩

/-- `parse_insn` selects among all productions, in their order. -/
theorem selects_parseInsn : Selects (parseInsn depth verbose) productions := by
  -- The nine parsers in their order, the last one standing for the pseudo-instructions.
  refine .silent (silent_updDepth _ _ _) fun currDepth => selects_firstOf currDepth verbose
    [(parseInsnRegreg, [insnRegreg]), (parseInsnImm, [insnImm]), (parseInsnBranch, [insnBranch]),
      (parseInsnLoad, [insnLoad]), (parseInsnStore, [insnStore]), (parseInsnJal, [insnJal]),
      (parseInsnJalr, [insnJalr]), (parseInsnUpper, [insnUpper]),
      (parseUnsninsn, [unsninsnJ, unsninsnLi, unsninsnMv])] ?_
  simp only [List.forall_mem_cons]
  exact ⟨(runs_parseInsnRegreg _ _).chooses, (runs_parseInsnImm _ _).chooses,
    (runs_parseInsnBranch _ _).chooses, (runs_parseInsnLoad _ _).chooses,
    (runs_parseInsnStore _ _).chooses, (runs_parseInsnJal _ _).chooses,
    (runs_parseInsnJalr _ _).chooses, (runs_parseInsnUpper _ _).chooses,
    (selects_parseUnsninsn _ _).chooses, by simp⟩

end Functions

end MiniRiscV
