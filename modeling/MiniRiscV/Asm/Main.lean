import MiniRiscV.Asm.Database
import MiniRiscV.Asm.Labels
import MiniRiscV.Asm.Layout

/-! `rv32icomp.c`: the stages of the assembler, their error codes, and what is left on disk. -/

namespace MiniRiscV

/-- The files that a run sees: the contents of those it can read, and the names it can write. -/
structure FileSystem where
  read : CStr → Option CStr
  writable : CStr → Bool

/-- The files after one of them is written. -/
def FileSystem.write (fs : FileSystem) (filename text : CStr) : FileSystem :=
  { fs with read := fun name => if name = filename then some text else fs.read name }

/-- A file that was written is read back. -/
@[simp] theorem FileSystem.read_write (fs : FileSystem) (filename text : CStr) :
    (fs.write filename text).read filename = some text := by
  simp [FileSystem.write]

/-- What `main` returns, or passes to `exit`. -/
inductive ExitCode where
  | success | failure
  deriving DecidableEq

/-- `asm_line_write` with its file, none when a null pointer is printed. -/
def asmLineWrite (fs : FileSystem) (insnList : List AsmLine) (filename : CStr) :
    Option (ℤ × FileSystem) :=
  if fs.writable filename then do
    return (0, fs.write filename (← asmLineText insnList))
  else some (-1, fs)

/-- The option `-v` is recognised by its first two characters. -/
def isVerbose (options : List CStr) : Bool :=
  match options with
  | [option] => "-v".toList.isPrefixOf option
  | _ => false

/-- The code and the lexemes that `lexem_read` gives for two files, none when a reading crashes. -/
def tokenise (fs : FileSystem) (sourceFile regexpsFile : CStr) : Option (ℤ × List Lexem) := do
  lexemRead (← fs.read sourceFile) (← regexpRead (← fs.read regexpsFile))

/-- The stages of `main` behind `lexem_read`. -/
def assemble (fs : FileSystem) (verbose : Bool) (lexems : List Lexem) (binfile : CStr) :
    Option (ExitCode × FileSystem) :=
  match parseCode [] verbose (parseStart lexems) with
  | (none, _) => some (.failure, fs)
  | (some (), s) => do
    -- The addresses are updated inside `if (verbose)`.
    let (code, instructions) :=
      if verbose then asmLineUpdateAdress s.instructions else (0, s.instructions)
    if code ≠ 0 then return (.failure, fs)
    let (code, fs) ← asmLineWrite fs instructions binfile
    if code ≠ 0 then return (.failure, fs)
    return (.success, fs)

/-- `main`: its exit code and the files it leaves, none when the run crashes or does not end. -/
def main (fs : FileSystem) (argv : List CStr) : Option (ExitCode × FileSystem) :=
  match argv with
  | _ :: sourceFile :: regexpsFile :: binfile :: options => do
    -- The code that `lexem_read` returns is dropped.
    let (_, lexems) ← tokenise fs sourceFile regexpsFile
    assemble fs (isVerbose options) lexems binfile
  -- The usage is printed.
  | _ => some (.success, fs)

/-- The arguments of a compilation with or without `-v`. -/
def arguments (sourceFile regexpsFile binfile : CStr) (verbose : Bool) : List CStr :=
  "rv32icomp".toList :: sourceFile :: regexpsFile :: binfile ::
    if verbose then ["-v".toList] else []

/-- `parse_code` returns 0 on the lexemes. -/
def Accepted (lexems : List Lexem) : Prop :=
  (parseCode [] false (parseStart lexems)).1 = some ()

instance (lexems : List Lexem) : Decidable (Accepted lexems) :=
  inferInstanceAs (Decidable (_ = _))

/-- The lines that `parse_code` leaves. -/
def parsedLines (lexems : List Lexem) : List AsmLine :=
  (parseCode [] false (parseStart lexems)).2.instructions

/-- The lines that are written: those parsed, with their addresses updated under `-v` only. -/
def writtenLines (verbose : Bool) (lexems : List Lexem) : List AsmLine :=
  if verbose then (asmLineUpdateAdress (parsedLines lexems)).2 else parsedLines lexems

section Stages

variable {lexems : List Lexem} {insnList : List AsmLine}

/-- The option is found when it is given. -/
@[simp] theorem isVerbose_arguments (verbose : Bool) :
    isVerbose (if verbose then ["-v".toList] else []) = verbose := by
  cases verbose <;> rfl

/-- The trace does not show in the result of the parser. -/
theorem parseCode_verbose (verbose : Bool) (lexems : List Lexem) :
    (parseCode [] verbose (parseStart lexems)).1 = some () ↔ Accepted lexems := by
  rw [Accepted, parseCode_accepts_iff, parseCode_accepts_iff]

/-- The trace does not show in the lines of the parser. -/
theorem instructions_verbose (verbose : Bool) (accepted : Accepted lexems) :
    (parseCode [] verbose (parseStart lexems)).2.instructions = parsedLines lexems := by
  -- Both runs have the effect of one reading, which knows no trace.
  have traced := reads_parseCode [] verbose (parseStart lexems)
  have silent := reads_parseCode [] false (parseStart lexems)
  rw [Accepted] at accepted
  rw [parsedLines]
  cases read : readProgram (parseStart lexems).lexems (parseStart lexems).lineAddr with
  | none =>
    rw [read] at silent
    obtain ⟨s', run⟩ := silent
    rw [run] at accepted
    cases accepted
  | some found =>
    rw [read] at traced silent
    obtain ⟨s, run, -, instructions, -⟩ := traced
    obtain ⟨s', run', -, instructions', -⟩ := silent
    rw [run, run']
    exact instructions.trans instructions'.symm

/-- The instruction lines of a resolved list, which keep their instructions and registers. -/
theorem insnLines_map_resolve (all : List AsmLine) :
    insnLines (insnList.map (AsmLine.resolve all)) =
      (insnLines insnList).map fun line => if line.isControl then line.resolve all else line := by
  -- By induction on the lines.
  induction insnList with
  | nil => rfl
  | cons line rest ih => cases line <;> simp [AsmLine.resolve, ih]

/-- Resolving leaves the instruction of a line what it is. -/
theorem insn_resolve (line : InsnLine) (all : List AsmLine) :
    (if line.isControl then line.resolve all else line).insn = line.insn := by
  split <;> rfl

/-- Resolving the labels changes no instruction. -/
theorem typed_map_resolve (all : List AsmLine) (typed : Typed insnList) :
    Typed (insnList.map (AsmLine.resolve all)) := by
  simpa only [Typed, insnLines_map_resolve, List.forall_mem_map, insn_resolve] using typed

/-- The lines of a program that is accepted are typed. -/
theorem typed_parsedLines (accepted : Accepted lexems) :
    Typed (parsedLines lexems) := by
  obtain ⟨lines, addr, items, left⟩ := parseCode_lines [] false (parseStart lexems) accepted
  rw [parsedLines, left, show (parseStart lexems).instructions = [] from rfl, List.nil_append]
  exact items.typed_program

end Stages

section Runs

variable {fs : FileSystem} {sourceFile regexpsFile binfile : CStr} {verbose : Bool} {code : ℤ}
  {lexems : List Lexem}

/-- A run is that of the stages behind the lexer, which take no notice of its code. -/
theorem main_arguments : main fs (arguments sourceFile regexpsFile binfile verbose) =
    (tokenise fs sourceFile regexpsFile).bind fun tokens =>
      assemble fs verbose tokens.2 binfile := by
  simp only [main, arguments, isVerbose_arguments]
  rfl

/-- A program that does not parse is refused, and under `-v` one that lacks a label. -/
theorem assemble_of_refused
    (refused : ¬ (Accepted lexems ∧ (verbose → Resolvable (parsedLines lexems)))) :
    assemble fs verbose lexems binfile = some (.failure, fs) := by
  rw [assemble]
  cases run : parseCode [] verbose (parseStart lexems) with
  | mk result s =>
    cases result with
    | none => rfl
    | some result =>
      have accepted : Accepted lexems := (parseCode_verbose verbose lexems).mp (by rw [run])
      have lines := instructions_verbose verbose accepted
      rw [run] at lines
      change s.instructions = _ at lines
      -- The program parses, so it is the update that returns an error.
      simp only [accepted, true_and, Classical.not_imp] at refused
      obtain ⟨verbose, undefined⟩ := refused
      rw [← asmLineUpdateAdress_code] at undefined
      simp [verbose, lines, undefined]

/-- A program that parses, and under `-v` has its labels, is written when its file can be. -/
theorem assemble_of_accepted (accepted : Accepted lexems)
    (linked : verbose → Resolvable (parsedLines lexems)) :
    assemble fs verbose lexems binfile =
      if fs.writable binfile then
        (asmLineText (writtenLines verbose lexems)).map fun text =>
          (.success, fs.write binfile text)
      else some (.failure, fs) := by
  have lines := instructions_verbose verbose accepted
  have parsed := (parseCode_verbose verbose lexems).mpr accepted
  -- The update, where it is made, returns 0.
  have updated : (if verbose then asmLineUpdateAdress (parsedLines lexems)
      else (0, parsedLines lexems)) = (0, writtenLines verbose lexems) := by
    cases verbose with
    | false => rfl
    | true => exact Prod.ext ((asmLineUpdateAdress_code _).mpr (linked rfl)) rfl
  rw [assemble]
  cases run : parseCode [] verbose (parseStart lexems) with
  | mk result s =>
    rw [run] at lines parsed
    dsimp only at lines parsed
    subst parsed
    simp only [lines, updated, asmLineWrite]
    by_cases writable : fs.writable binfile
    · cases text : asmLineText (writtenLines verbose lexems) <;> simp [writable]
    · simp [writable]

/-- A run that succeeds has parsed its lexemes, and written its lines. -/
theorem main_success {fs' : FileSystem}
    (run : main fs (arguments sourceFile regexpsFile binfile verbose) = some (.success, fs'))
    (tokens : tokenise fs sourceFile regexpsFile = some (code, lexems)) :
    Accepted lexems ∧ (verbose → Resolvable (parsedLines lexems)) ∧
      ∃ text, asmLineText (writtenLines verbose lexems) = some text ∧
        fs' = fs.write binfile text := by
  -- A run that succeeds was not refused, and the text it wrote exists.
  rw [main_arguments, tokens, Option.bind_some] at run
  by_cases refused : Accepted lexems ∧ (verbose → Resolvable (parsedLines lexems))
  · obtain ⟨accepted, linked⟩ := refused
    rw [assemble_of_accepted accepted linked] at run
    split at run
    case isTrue =>
      obtain ⟨text, written, same⟩ := Option.map_eq_some_iff.mp run
      exact ⟨accepted, linked, text, written, (Prod.mk.inj same).2.symm⟩
    case isFalse => cases run
  · rw [assemble_of_refused refused] at run
    cases run

end Runs

/-- The source is wholly split into lexemes, these parse, and each label used is defined. -/
def Compiles (fs : FileSystem) (sourceFile regexpsFile : CStr) : Prop :=
  ∃ lexems, tokenise fs sourceFile regexpsFile = some (0, lexems) ∧ Accepted lexems ∧
    Resolvable (parsedLines lexems)

/-- Success is for a source that compiles, and any other is refused without a trace on disk. -/
def AllOrNothing (fs : FileSystem) (sourceFile regexpsFile binfile : CStr) (verbose : Bool) :
    Prop :=
  (∀ fs', main fs (arguments sourceFile regexpsFile binfile verbose) = some (.success, fs') →
      Compiles fs sourceFile regexpsFile) ∧
    (¬ Compiles fs sourceFile regexpsFile →
      main fs (arguments sourceFile regexpsFile binfile verbose) = some (.failure, fs))

/-- An error of the lexer, or without `-v` a label that is missing, before a file that opens. -/
structure Dropped (fs : FileSystem) (binfile : CStr) (verbose : Bool) (code : ℤ)
    (lexems : List Lexem) : Prop where
  /-- The lexemes in front of the error are a program. -/
  accepted : Accepted lexems
  writable : fs.writable binfile
  /-- The one error that is looked at is absent. -/
  linked : verbose → Resolvable (parsedLines lexems)
  /-- One of the two that are not is there. -/
  error : code ≠ 0 ∨ ¬ Resolvable (parsedLines lexems)

/--
Compilation is all or nothing exactly where the lexer ends and no error is dropped.

The code of `lexem_read` is never looked at, and that of `asm_line_update_adress` only exists
under `-v`.
-/
theorem allOrNothing_iff (fs : FileSystem) (sourceFile regexpsFile binfile : CStr)
    (verbose : Bool) :
    AllOrNothing fs sourceFile regexpsFile binfile verbose ↔
      ∃ code lexems, tokenise fs sourceFile regexpsFile = some (code, lexems) ∧
        ¬ Dropped fs binfile verbose code lexems := by
  rw [AllOrNothing, main_arguments]
  cases tokens : tokenise fs sourceFile regexpsFile with
  | none =>
    -- A run that crashes exits with no failure.
    have never : ¬ Compiles fs sourceFile regexpsFile := by
      rintro ⟨lexems, read, -⟩
      rw [tokens] at read
      cases read
    simp [never]
  | some found =>
    obtain ⟨code, lexems⟩ := found
    have compiles : Compiles fs sourceFile regexpsFile ↔
        code = 0 ∧ Accepted lexems ∧ Resolvable (parsedLines lexems) := by
      simp only [Compiles, tokens, Option.some.injEq, Prod.mk.injEq]
      constructor
      · rintro ⟨_, ⟨rfl, rfl⟩, program⟩
        exact ⟨rfl, program⟩
      · rintro ⟨rfl, program⟩
        exact ⟨lexems, ⟨rfl, rfl⟩, program⟩
    have tokensOnly : (∃ code' lexems', some (code, lexems) = some (code', lexems') ∧
        ¬ Dropped fs binfile verbose code' lexems') ↔
          ¬ Dropped fs binfile verbose code lexems := by
      constructor
      · rintro ⟨_, _, ⟨⟩, noDrop⟩
        exact noDrop
      · exact fun noDrop => ⟨code, lexems, rfl, noDrop⟩
    rw [compiles, tokensOnly, Option.bind_some]
    by_cases compiled : code = 0 ∧ Accepted lexems ∧ Resolvable (parsedLines lexems)
    · -- A program that compiles has no error to drop.
      have noDrop : ¬ Dropped fs binfile verbose code lexems := by
        intro dropped
        rcases dropped.error with code' | undefined
        · exact code' compiled.1
        · exact undefined compiled.2.2
      exact iff_of_true ⟨fun _ _ => compiled, fun other => absurd compiled other⟩ noDrop
    by_cases refused : Accepted lexems ∧ (verbose → Resolvable (parsedLines lexems))
    · obtain ⟨accepted, linked⟩ := refused
      have error : code ≠ 0 ∨ ¬ Resolvable (parsedLines lexems) := by
        by_contra none
        rw [not_or, not_not, not_not] at none
        exact compiled ⟨none.1, accepted, none.2⟩
      rw [assemble_of_accepted accepted linked]
      by_cases writable : fs.writable binfile
      · have dropped : Dropped fs binfile verbose code lexems :=
          ⟨accepted, writable, linked, error⟩
        simp [compiled, dropped, writable]
      · have noDrop : ¬ Dropped fs binfile verbose code lexems :=
          fun dropped => writable dropped.writable
        simp [compiled, noDrop, writable]
    · have noDrop : ¬ Dropped fs binfile verbose code lexems := fun dropped =>
        refused ⟨dropped.accepted, dropped.linked⟩
      simp [assemble_of_refused refused, noDrop]

/-- A source beside `database.txt`, and nothing else. -/
def filesOf (source : String) : FileSystem where
  read name :=
    if name = "prog.s".toList then some source.toList
    else if name = "database.txt".toList then some databaseText
    else none
  writable _ := true

/-- A source that ends in a character of no lexeme is compiled up to there. -/
theorem allOrNothing_remainder :
    ¬ AllOrNothing (filesOf "li r1,5\n$") "prog.s".toList "database.txt".toList
      "prog.bin".toList false := by
  have run : (tokenise (filesOf "li r1,5\n$") "prog.s".toList "database.txt".toList).map
        Prod.fst = some (-1) ∧
      (main (filesOf "li r1,5\n$")
        (arguments "prog.s".toList "database.txt".toList "prog.bin".toList false)).map
          Prod.fst = some .success := by
    decide +kernel
  -- The run succeeds, although the source was not read to its end.
  obtain ⟨remainder, exits⟩ := run
  rintro ⟨compiles, -⟩
  obtain ⟨⟨_, fs'⟩, succeeds, rfl⟩ := Option.map_eq_some_iff.mp exits
  obtain ⟨lexems, whole, -⟩ := compiles fs' succeeds
  rw [whole] at remainder
  cases remainder

end MiniRiscV
