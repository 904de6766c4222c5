import MiniRiscV.Asm.Productions

/-! The parser without its state: which lines it adds, and where it stops reading. -/

namespace MiniRiscV

/-- The lines that the reading of some lexemes adds, the address behind them, and what is left. -/
abbrev Reading := Option (List AsmLine × ℤ × List Lexem)

/-- One reading after another. -/
def Reading.andThen (first : Reading) (next : List Lexem → ℤ → Reading) : Reading := do
  let (lines, addr, rest) ← first
  let (lines', addr', rest') ← next rest addr
  return (lines ++ lines', addr', rest')

/-- Nothing is read behind a failure. -/
@[simp] theorem Reading.none_andThen (next : List Lexem → ℤ → Reading) :
    Reading.andThen none next = none := rfl

/-- Behind lines already read come those of the next reading. -/
@[simp] theorem Reading.some_andThen (lines : List AsmLine) (addr : ℤ) (rest : List Lexem)
    (next : List Lexem → ℤ → Reading) :
    Reading.andThen (some (lines, addr, rest)) next =
      (next rest addr).map fun read => (lines ++ read.1, read.2) := by
  cases read : next rest addr <;> simp [Reading.andThen, read]

/-- Three readings one behind the other, in either grouping. -/
theorem Reading.andThen_assoc (first : Reading) (next next' : List Lexem → ℤ → Reading) :
    (first.andThen next).andThen next' =
      first.andThen fun rest addr => (next rest addr).andThen next' := by
  -- Each of the three may fail, and the lines are joined in order.
  rcases first with _ | ⟨lines, addr, rest⟩
  · rfl
  · rw [some_andThen, some_andThen]
    rcases next rest addr with _ | ⟨lines', addr', rest'⟩
    · rfl
    · rw [Option.map_some, some_andThen, some_andThen, Option.map_map]
      congr
      funext read
      simp

/-- The list begins with a lexeme of one of some types. -/
def startsWith (types : List String) : List Lexem → Bool
  | lex :: _ => types.any (lexemType lex)
  | [] => false

/-- A lexeme of a type is passed when it comes next. -/
def skip (type : String) (lexems : List Lexem) : List Lexem :=
  if startsWith [type] lexems then lexems.tail else lexems

/-- A label is read when it comes next. -/
def readLabel (lexems : List Lexem) (addr : ℤ) : Reading :=
  match lexems with
  | lex :: rest =>
    if lexemType lex "label" then some (asmLineLabelAdd [] lex.value addr, addr, rest)
    else some ([], addr, lexems)
  | [] => some ([], addr, [])

/-- An instruction is read, by the first production that fits. -/
def readInsn (lexems : List Lexem) (addr : ℤ) : Reading :=
  (firstMatch productions lexems).map fun (prod, taken, rest) =>
    (prod.emit taken addr, addr + 4 * (prod.emit taken addr).length, rest)

/-- What `parse_code_line` reads. -/
def readCodeLine (lexems : List Lexem) (addr : ℤ) : Reading :=
  if startsWith ["label"] lexems then readLabel lexems addr
  else (readInsn lexems addr).andThen readLabel

/-- One turn of the loop of `parse_eol`. -/
def readEnd (lexems : List Lexem) : Option (List Lexem) :=
  match skip "comment" (skip "blank" lexems) with
  | lex :: rest => if lexemType lex "newline" then some (skip "blank" rest) else none
  | [] => none

/-- What the loop of `parse_eol` leaves. -/
def readEol : ℕ → List Lexem → Option (List Lexem)
  | 0, lexems => some lexems
  | fuel + 1, lexems =>
    if startsWith ["blank", "comment", "newline"] lexems then
      (readEnd lexems).bind (readEol fuel)
    else some lexems

/-- What `parse_eol` reads, which adds no line. -/
def readEols (lexems : List Lexem) (addr : ℤ) : Reading :=
  (readEol lexems.length lexems).map fun rest => ([], addr, rest)

/-- What the loop of `parse_code` reads. -/
def readLines : ℕ → List Lexem → ℤ → Reading
  | 0, lexems, addr => some ([], addr, lexems)
  | fuel + 1, lexems, addr =>
    match readCodeLine lexems addr with
    | none => some ([], addr, lexems)
    | some line => Reading.andThen (some line) fun rest addr =>
        Reading.andThen (readEols rest addr) (readLines fuel)

/-- What `parse_code` reads between the label and the jump that it adds. -/
def readBody (lexems : List Lexem) (addr : ℤ) : Reading :=
  let lexems := skip "comment" lexems
  Reading.andThen (some ((readCodeLine lexems addr).getD ([], addr, lexems))) fun rest addr =>
    Reading.andThen (readEols rest addr) fun rest addr => readLines (rest.length + 1) rest addr

/-- The label that `parse_code` puts before the program. -/
def progStart (addr : ℤ) : List AsmLine := asmLineLabelAdd [] "PROG_START:" addr

/-- The jump that `parse_code` puts behind the program. -/
def progLoop (addr : ℤ) : List AsmLine :=
  asmLineJalAdd [] (insnset2insn .jal) r6 "PROG_START" addr

/-- The end of `parse_code`: the jump is added, and nothing may be left. -/
def closeProgram (lexems : List Lexem) (addr : ℤ) : Reading :=
  if lexems.isEmpty then some (progLoop addr, addr, lexems) else none

/-- What `parse_code` reads. -/
def readProgram (lexems : List Lexem) (addr : ℤ) : Reading :=
  Reading.andThen (some (progStart addr, addr, lexems)) fun lexems addr =>
    (readBody lexems addr).andThen closeProgram

/-- The computation has the effect of a reading, and fails where there is none. -/
def Reads (p : ParseM Unit) (reading : List Lexem → ℤ → Reading) : Prop :=
  ∀ s, match reading s.lexems s.lineAddr with
    | some (lines, addr, rest) => ∃ s', p s = (some (), s') ∧
        SameBut { s with
          lexems := rest, instructions := s.instructions ++ lines, lineAddr := addr } s'
    | none => ∃ s', p s = (none, s')

/-- The computation reads as long as there is a reading, and changes nothing otherwise. -/
def ReadsOr (p : ParseM Unit) (reading : List Lexem → ℤ → Reading) : Prop :=
  ∀ s, match reading s.lexems s.lineAddr with
    | some (lines, addr, rest) => ∃ s', p s = (some (), s') ∧
        SameBut { s with
          lexems := rest, instructions := s.instructions ++ lines, lineAddr := addr } s'
    | none => ∃ s', p s = (none, s') ∧ SameBut s s'

section Rules

variable {α : Type} {p q : ParseM Unit} {reading reading' : List Lexem → ℤ → Reading}

/-- A computation that reads, or else changes nothing, reads. -/
theorem ReadsOr.reads (readsOr : ReadsOr p reading) : Reads p reading := by
  -- What is kept on failure is forgotten.
  intro s
  have result := readsOr s
  split at result
  · exact result
  · exact ⟨_, result.choose_spec.1⟩

/-- Printing before a reading changes nothing. -/
theorem Reads.silent {p : ParseM α} {k : α → ParseM Unit} (first : Silent p)
    (next : ∀ a, Reads (k a) reading) : Reads (p >>= k) reading := by
  -- The reading depends on the lexemes and the address, which the first parser keeps.
  intro s
  obtain ⟨a, s', run, lexems, instructions, lineAddr⟩ := first s
  have after := next a s'
  rw [bind_apply, run, ← lexems, ← lineAddr]
  split at after <;> simpa only [SameBut, instructions] using after

/-- What is printed first does not matter. -/
theorem ReadsOr.silent {p : ParseM α} {k : α → ParseM Unit} (first : Silent p)
    (next : ∀ a, ReadsOr (k a) reading) : ReadsOr (p >>= k) reading := by
  -- The reading depends on the lexemes and the address, which the first parser keeps.
  intro s
  obtain ⟨a, s', run, lexems, instructions, lineAddr⟩ := first s
  have after := next a s'
  rw [bind_apply, run, ← lexems, ← lineAddr]
  split at after <;> simpa only [SameBut, lexems, instructions, lineAddr] using after

/-- Two computations one after the other. -/
theorem Reads.bind (first : Reads p reading) (next : Reads q reading') :
    Reads (p >>= fun _ => q) fun lexems addr => (reading lexems addr).andThen reading' := by
  -- Either reading may fail; otherwise the second starts where the first ended.
  intro s
  have result := first s
  rw [bind_apply]
  dsimp only
  cases read : reading s.lexems s.lineAddr with
  | none =>
    rw [read] at result
    obtain ⟨s', run⟩ := result
    exact ⟨s', by rw [run]⟩
  | some found =>
    obtain ⟨lines, addr, rest⟩ := found
    rw [read] at result
    obtain ⟨s', run, lexems, instructions, lineAddr⟩ := result
    have after := next s'
    rw [run, Reading.some_andThen]
    simp only [lexems, lineAddr] at after
    cases read' : reading' rest addr with
    | none => simpa only [read', Option.map_none] using after
    | some found' => simpa [read', SameBut, instructions] using after

/-- Printing behind a reading changes nothing. -/
theorem Reads.thenSilent {q : ParseM Unit} (first : Reads p reading) (last : Silent q) :
    Reads (p >>= fun _ => q) reading := by
  -- The last parser changes nothing behind a reading, and is not run behind a failure.
  intro s
  have result := first s
  rw [bind_apply]
  cases read : reading s.lexems s.lineAddr with
  | none =>
    rw [read] at result
    obtain ⟨s', run⟩ := result
    exact ⟨s', by rw [run]⟩
  | some found =>
    rw [read] at result
    obtain ⟨s', run, same⟩ := result
    obtain ⟨_, s'', run', same'⟩ := last s'
    exact ⟨s'', by rw [run]; exact run', same.trans same'⟩

/-- Reading an optional lexeme and dropping it. -/
theorem reads_skip (type : String) (next : Reads q reading) :
    Reads (nextOfTypes [type] >>= fun _ => q)
      fun lexems addr => reading (skip type lexems) addr := by
  -- The lexeme is taken if it is of the type, and kept otherwise.
  intro s
  rw [bind_apply, nextOfTypes_apply]
  rcases s with ⟨_ | ⟨lex, rest⟩, instructions, lineAddr, stdout, stderr⟩
  · exact next ⟨[], instructions, lineAddr, stdout, stderr⟩
  · by_cases found : [type].any (lexemType lex)
    · simpa only [found, if_true, skip, startsWith, List.tail_cons] using
        next ⟨rest, instructions, lineAddr, stdout, stderr⟩
    · simpa only [found, if_false, Bool.false_eq_true, skip, startsWith] using
        next ⟨lex :: rest, instructions, lineAddr, stdout, stderr⟩

/-- Reading a terminal and dropping it. -/
theorem reads_chkTerm (term : String) (currDepth : CStr) (verbose : Bool)
    (next : Reads q reading) :
    Reads (chkTerm term currDepth verbose >>= fun _ => q) fun lexems addr =>
      match lexems with
      | lex :: rest => if lexemType lex term then reading rest addr else none
      | [] => none := by
  -- The lexeme is missing, is of the type, or is of another one.
  intro s
  rw [chkTerm, bind_assoc, bind_apply, nextOfTypes_apply]
  rcases s with ⟨_ | ⟨lex, rest⟩, instructions, lineAddr, stdout, stderr⟩
  · obtain ⟨s', run, -⟩ := (fails_missing _ currDepth verbose).bind_left (k := fun _ : Lexem => q)
      ⟨[], instructions, lineAddr, stdout, stderr⟩
    exact ⟨s', run⟩
  · by_cases found : lexemType lex term
    · have head : [term].any (lexemType lex) = true := by simpa using found
      simpa only [head, found, if_true, pure_bind] using
        next ⟨rest, instructions, lineAddr, stdout, stderr⟩
    · have other : [term].any (lexemType lex) = false := by simpa using found
      obtain ⟨s', run, -⟩ := (fails_missing _ currDepth verbose).bind_left (k := fun _ : Lexem => q)
        ⟨lex :: rest, instructions, lineAddr, stdout, stderr⟩
      simp only [other, found, if_false, Bool.false_eq_true]
      exact ⟨s', run⟩

end Rules

section Functions

variable (depth currDepth : CStr) (verbose : Bool)

/-- `parse_insn` reads one instruction, or fails. -/
theorem readsOr_parseInsn : ReadsOr (parseInsn depth verbose) readInsn := by
  -- The reading is the first production that matches.
  intro s
  have selected := selects_parseInsn depth verbose s
  simp only [readInsn]
  cases matched : firstMatch productions s.lexems with
  | none => simpa only [matched, Option.map_none] using selected
  | some found => simpa only [matched, Option.map_some, ParseState.emitted] using selected

/-- The end of `parse_code_line`: the label that comes next is read. -/
theorem reads_readLabel {p : ParseM Unit} (last : Silent p) :
    Reads (nextOfTypes ["label"] >>= fun found => do
      match found with
      | some lex =>
        modify fun s =>
          { s with instructions := asmLineLabelAdd s.instructions lex.value s.lineAddr }
      | none => pure ()
      p) readLabel := by
  -- With a label one line is added, and none without it.
  intro s
  rw [bind_apply, nextOfTypes_apply]
  rcases s with ⟨_ | ⟨lex, rest⟩, instructions, lineAddr, stdout, stderr⟩
  · obtain ⟨_, s', run, same⟩ := last ⟨[], instructions, lineAddr, stdout, stderr⟩
    exact ⟨s', run, by simpa using same⟩
  · by_cases found : lexemType lex "label"
    · have head : ["label"].any (lexemType lex) = true := by simpa using found
      obtain ⟨_, s', run, same⟩ := last
        ⟨rest, asmLineLabelAdd instructions lex.value lineAddr, lineAddr, stdout, stderr⟩
      simp only [readLabel, head, found, if_true]
      exact ⟨s', run, same⟩
    · have other : ["label"].any (lexemType lex) = false := by simpa using found
      obtain ⟨_, s', run, same⟩ := last ⟨lex :: rest, instructions, lineAddr, stdout, stderr⟩
      simp only [readLabel, other, found, if_false, Bool.false_eq_true]
      exact ⟨s', run, by simpa using same⟩

/-- A label is always read, if only none. -/
theorem readLabel_isSome (lexems : List Lexem) (addr : ℤ) : (readLabel lexems addr).isSome := by
  unfold readLabel
  split
  · split <;> rfl
  · rfl

/-- To ask for the type of the next lexeme changes nothing. -/
theorem nextLexemIs_apply (type : String) (s : ParseState) :
    nextLexemIs type s = (some (startsWith [type] s.lexems), s) := by
  -- The test reads the head of the list and changes nothing.
  rcases s with ⟨_ | ⟨lex, rest⟩, _, _, _, _⟩
  · rfl
  · simp only [startsWith, List.any_cons, List.any_nil, Bool.or_false]
    rfl

/-- `parse_code_line` reads a label, or an instruction that a label may follow, or fails. -/
theorem readsOr_parseCodeLine : ReadsOr (parseCodeLine depth verbose) readCodeLine := by
  refine .silent (silent_updDepth _ _ _) fun currDepth s => ?_
  have label := reads_readLabel (silent_retOk currDepth verbose)
  rw [bind_apply, nextLexemIs_apply]
  simp only [readCodeLine]
  by_cases head : startsWith ["label"] s.lexems
  · -- A label comes first.
    have result := label s
    obtain ⟨found, read⟩ := Option.isSome_iff_exists.mp (readLabel_isSome s.lexems s.lineAddr)
    simp only [head, if_true]
    rw [read] at result ⊢
    exact result
  · -- An instruction comes first, and the label behind it is read as well.
    simp only [head, if_false, Bool.false_eq_true]
    rw [bind_apply]
    have insn := readsOr_parseInsn currDepth verbose s
    cases read : readInsn s.lexems s.lineAddr with
    | none =>
      rw [read] at insn
      obtain ⟨s', run, same⟩ := insn
      obtain ⟨s'', run', same'⟩ := fails_retFail (α := Unit) currDepth verbose s'
      refine ⟨s'', ?_, same.trans same'⟩
      simp only [succeeds, run]
      exact run'
    | some found =>
      obtain ⟨lines, addr, rest⟩ := found
      rw [read] at insn
      obtain ⟨s', run, lexems, instructions, lineAddr⟩ := insn
      have result := label s'
      simp only [lexems, lineAddr] at result
      obtain ⟨found', read'⟩ := Option.isSome_iff_exists.mp (readLabel_isSome rest addr)
      rw [read'] at result
      obtain ⟨s'', run', same⟩ := result
      rw [Reading.some_andThen, read', Option.map_some]
      refine ⟨s'', ?_, ?_⟩
      · simp only [succeeds, run]
        exact run'
      · simpa [SameBut, instructions] using same

/-- The conditions of the three tests on the next lexeme. -/
theorem startsWith_three (a b c : String) (lexems : List Lexem) :
    (startsWith [a] lexems || startsWith [b] lexems || startsWith [c] lexems) =
      startsWith [a, b, c] lexems := by
  cases lexems <;> simp [startsWith, Bool.or_assoc]

/-- The loop of `parse_eol` goes on for as long as there are ends of lines. -/
theorem reads_eolLoop (fuel : ℕ) :
    Reads (eolLoop currDepth verbose fuel) fun lexems addr =>
      (readEol fuel lexems).map fun rest => ([], addr, rest) := by
  -- Each turn reads one end of line.
  induction fuel with
  | zero =>
    intro s
    exact ⟨s, rfl, by simp [SameBut]⟩
  | succ fuel ih =>
    intro s
    have turn := reads_skip "blank" (reads_skip "comment" (reads_chkTerm "newline" currDepth verbose
      (reads_skip "blank" ih))) s
    rw [eolLoop, bind_apply, nextLexemIs_apply]
    dsimp only
    rw [bind_apply, nextLexemIs_apply]
    dsimp only
    rw [bind_apply, nextLexemIs_apply]
    dsimp only
    rw [startsWith_three]
    by_cases head : startsWith ["blank", "comment", "newline"] s.lexems
    · simp only [readEol, head, if_true, readEnd]
      cases behind : skip "comment" (skip "blank" s.lexems) with
      | nil => simpa only [behind, Option.bind_none, Option.map_none] using turn
      | cons lex rest =>
        by_cases newline : lexemType lex "newline"
        · simpa only [behind, newline, if_true, Option.bind_some] using turn
        · simpa only [behind, newline, if_false, Bool.false_eq_true, Option.bind_none,
            Option.map_none] using turn
    · simp only [readEol, head, if_false, Bool.false_eq_true]
      exact ⟨s, rfl, by simp [SameBut]⟩

/-- `parse_eol` reads all ends of lines that come next. -/
theorem reads_parseEol : Reads (parseEol depth verbose) readEols := by
  refine .silent (silent_updDepth _ _ _) fun currDepth s => ?_
  exact (reads_eolLoop currDepth verbose s.lexems.length).thenSilent
    (silent_retOk currDepth verbose) s

/-- `CHK_NON_TERM` hands the result of the production on. -/
theorem Reads.chkNonTerm {func : ParseM Unit} {reading : List Lexem → ℤ → Reading}
    (reads : Reads func reading) : Reads (chkNonTerm func currDepth verbose) reading := by
  -- The parser that is called fails or not, and so does this one.
  intro s
  have result := reads s
  cases read : reading s.lexems s.lineAddr with
  | none =>
    rw [read] at result
    obtain ⟨s', run⟩ := result
    obtain ⟨s'', run', -⟩ := fails_retFail (α := Unit) currDepth verbose s'
    refine ⟨s'', ?_⟩
    simp only [MiniRiscV.chkNonTerm, bind_apply, succeeds, run]
    exact run'
  | some found =>
    rw [read] at result
    obtain ⟨s', run, same⟩ := result
    refine ⟨s', ?_, same⟩
    simp only [MiniRiscV.chkNonTerm, bind_apply, succeeds, run]
    rfl

/-- The loop of `parse_code` reads lines up to the last lexeme. -/
theorem reads_codeLoop (fuel : ℕ) : Reads (codeLoop currDepth verbose fuel) (readLines fuel) := by
  -- By induction on the fuel, which the reading of lines has as well.
  induction fuel with
  | zero =>
    intro s
    exact ⟨s, rfl, by simp [SameBut]⟩
  | succ fuel ih =>
    intro s
    have line := readsOr_parseCodeLine currDepth verbose s
    rw [codeLoop, bind_apply, readLines]
    cases read : readCodeLine s.lexems s.lineAddr with
    | none =>
      rw [read] at line
      obtain ⟨s', run, same⟩ := line
      -- No line is read, and the loop ends without failure.
      refine ⟨s', by simp only [succeeds, run]; rfl, ?_⟩
      simpa [SameBut] using same
    | some found =>
      obtain ⟨lines, addr, rest⟩ := found
      rw [read] at line
      obtain ⟨s', run, lexems, instructions, lineAddr⟩ := line
      -- A line is read, and then the ends of line and the loop again.
      have after := ((reads_parseEol currDepth verbose).chkNonTerm currDepth verbose).bind ih s'
      simp only [succeeds, run, if_true]
      rw [Reading.some_andThen]
      simp only [lexems, lineAddr] at after
      cases read' : Reading.andThen (readEols rest addr) (readLines fuel) with
      | none => simpa only [read', Option.map_none] using after
      | some found' => simpa [read', SameBut, instructions] using after

/-- An optional nonterminal, its own reading being left out when it fails. -/
theorem reads_chkOptNonTerm {func q : ParseM Unit} {reading reading' : List Lexem → ℤ → Reading}
    (line : ReadsOr func reading) (next : Reads q reading') :
    Reads (chkOptNonTerm func >>= fun _ => q) fun lexems addr =>
      Reading.andThen (some ((reading lexems addr).getD ([], addr, lexems))) reading' := by
  intro s
  have result := line s
  rw [bind_apply]
  dsimp only
  cases read : reading s.lexems s.lineAddr with
  | none =>
    rw [read] at result
    obtain ⟨s', run, lexems, instructions, lineAddr⟩ := result
    -- The optional part fails, and its lexemes are given back.
    have after := next { s' with lexems := s.lexems }
    rw [Option.getD_none, Reading.some_andThen]
    simp only [chkOptNonTerm, run]
    dsimp only at after
    rw [lineAddr] at after
    cases read' : reading' s.lexems s.lineAddr with
    | none => simpa only [read', Option.map_none, lineAddr] using after
    | some found' => simpa [read', SameBut, instructions, lineAddr] using after
  | some found =>
    obtain ⟨lines, addr, rest⟩ := found
    rw [read] at result
    obtain ⟨s', run, lexems, instructions, lineAddr⟩ := result
    -- The optional part is read, and the rest starts behind it.
    have after := next s'
    simp only [lexems, lineAddr] at after
    rw [Option.getD_some, Reading.some_andThen]
    simp only [chkOptNonTerm, run]
    cases read' : reading' rest addr with
    | none => simpa only [read', Option.map_none] using after
    | some found' => simpa [read', SameBut, instructions] using after

/-- `parse_code` has the effect of its reading, whatever it prints. -/
theorem reads_parseCode : Reads (parseCode depth verbose) readProgram := by
  refine .silent (silent_updDepth _ _ _) fun currDepth => ?_
  -- The label of the start, the body, and the jump behind it, one after the other.
  have opened : Reads (modify fun s =>
      { s with instructions := asmLineLabelAdd s.instructions "PROG_START:" s.lineAddr })
      fun lexems addr => some (progStart addr, addr, lexems) :=
    fun s => ⟨_, rfl, rfl, rfl, rfl⟩
  have closed : Reads (do
      modify fun s =>
        { s with
          instructions :=
            asmLineJalAdd s.instructions (insnset2insn .jal) r6 "PROG_START" s.lineAddr }
      if (← get).lexems.isEmpty then retOk currDepth verbose else retFail currDepth verbose)
      closeProgram := by
    intro s
    rw [bind_apply]
    -- The program is accepted only when no lexeme is left.
    by_cases done : s.lexems.isEmpty
    · obtain ⟨_, s', run, same⟩ := silent_retOk currDepth verbose
        { s with instructions := s.instructions ++ progLoop s.lineAddr }
      simp only [closeProgram, done, if_true]
      refine ⟨s', ?_, same⟩
      rw [← run]
      change (if s.lexems.isEmpty then _ else _ : ParseM Unit) _ = _
      rw [if_pos done]
      rfl
    · obtain ⟨s', run, -⟩ := fails_retFail (α := Unit) currDepth verbose
        { s with instructions := s.instructions ++ progLoop s.lineAddr }
      simp only [closeProgram, done, if_false, Bool.false_eq_true]
      refine ⟨s', ?_⟩
      rw [← run]
      change (if s.lexems.isEmpty then _ else _ : ParseM Unit) _ = _
      rw [if_neg done]
      rfl
  have lines : Reads (do
      codeLoop currDepth verbose ((← get).lexems.length + 1)
      modify fun s =>
        { s with
          instructions :=
            asmLineJalAdd s.instructions (insnset2insn .jal) r6 "PROG_START" s.lineAddr }
      if (← get).lexems.isEmpty then retOk currDepth verbose else retFail currDepth verbose)
      fun lexems addr => (readLines (lexems.length + 1) lexems addr).andThen closeProgram :=
    fun s => (reads_codeLoop currDepth verbose (s.lexems.length + 1)).bind closed s
  have whole := opened.bind (reads_skip "comment" (reads_chkOptNonTerm
    (readsOr_parseCodeLine currDepth verbose)
    (((reads_parseEol currDepth verbose).chkNonTerm currDepth verbose).bind lines)))
  intro s
  have result := whole s
  simp only [readProgram, readBody, Reading.andThen_assoc]
  exact result

end Functions

section Backtracking

variable {p : ParseM Unit}

/-- A failure leaves the lexemes, the lines and the address as they were before the call. -/
def Backtracks (p : ParseM Unit) : Prop :=
  ∀ s, (p s).1 = none → (p s).2.lexems = s.lexems ∧
    (p s).2.instructions = s.instructions ∧ (p s).2.lineAddr = s.lineAddr

/-- A choice that gives its lexemes back has added no line, as each line comes at its end. -/
theorem Selects.backtracks {prods : List Production} (selects : Selects p prods) :
    Backtracks p := by
  intro s fails
  have result := selects s
  cases matched : firstMatch prods s.lexems with
  | none =>
    rw [matched] at result
    obtain ⟨s', run, same⟩ := result
    rw [run]
    exact same
  | some found =>
    -- A production that matches does not fail.
    rw [matched] at result
    obtain ⟨s', run, -⟩ := result
    rw [run] at fails
    cases fails

/-- A parser that fails leaves the lexemes, the lines and the address as they were. -/
theorem ReadsOr.backtracks {reading : List Lexem → ℤ → Reading} (readsOr : ReadsOr p reading) :
    Backtracks p := by
  intro s fails
  have result := readsOr s
  cases read : reading s.lexems s.lineAddr with
  | none =>
    rw [read] at result
    obtain ⟨s', run, same⟩ := result
    rw [run]
    exact same
  | some found =>
    -- What can be read does not fail.
    rw [read] at result
    obtain ⟨s', run, -⟩ := result
    rw [run] at fails
    cases fails

/-- A code line, an instruction or a pseudo-instruction that is refused leaves no trace. -/
theorem parse_backtracks (depth : CStr) (verbose : Bool) :
    Backtracks (parseCodeLine depth verbose) ∧ Backtracks (parseInsn depth verbose) ∧
      Backtracks (parseUnsninsn depth verbose) :=
  ⟨(readsOr_parseCodeLine depth verbose).backtracks, (selects_parseInsn depth verbose).backtracks,
    (selects_parseUnsninsn depth verbose).backtracks⟩

/-- A branch whose label is missing, behind another line. -/
theorem parse_backtracks_branch :
    let s : ParseState := { parseStart [lexemOf "insn::BEQ" "beq", lexemOf "blank" " ",
        lexemOf "symbole::register" "r1", lexemOf "comma" ",", lexemOf "symbole::register" "r2",
        lexemOf "newline" "\n"] with
      instructions := asmLineNopAdd [] 0, lineAddr := 4 }
    (parseCodeLine [] false s).1 = none ∧ (parseCodeLine [] false s).2.lexems = s.lexems := by
  intro s
  have fails : (parseCodeLine [] false s).1 = none := by decide +kernel
  exact ⟨fails, ((parse_backtracks [] false).1 s fails).1⟩

end Backtracking

end MiniRiscV
