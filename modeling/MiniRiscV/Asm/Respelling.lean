import MiniRiscV.Asm.Concatenation

/-! Instructions in another spelling that stand for the same lines, anywhere in a program. -/

namespace MiniRiscV

/-- Both are instructions, and they stand for the same lines. -/
def SameInsn (taken taken' : List Lexem) : Prop :=
  ∃ prod ∈ productions, ∃ prod' ∈ productions, Fit prod.terms taken ∧ Fit prod'.terms taken' ∧
    ∀ addr, prod.emit taken addr = prod'.emit taken' addr

/-- Some parts of a program are replaced by others. -/
inductive Respelled (same : List Lexem → List Lexem → Prop) : List Lexem → List Lexem → Prop
  | nil : Respelled same [] []
  | keep (lex : Lexem) {lexems lexems' : List Lexem} (rest : Respelled same lexems lexems') :
      Respelled same (lex :: lexems) (lex :: lexems')
  | replace {taken taken' lexems lexems' : List Lexem} (is : same taken taken')
      (rest : Respelled same lexems lexems') :
      Respelled same (taken ++ lexems) (taken' ++ lexems')

namespace Respelled

variable {same same' : List Lexem → List Lexem → Prop} {lexems lexems' : List Lexem}

/-- Instructions that are the same in one sense are the same in a weaker one. -/
theorem mono (respelled : Respelled same lexems lexems')
    (each : ∀ taken taken', same taken taken' → same' taken taken') :
    Respelled same' lexems lexems' := by
  -- By induction on the replacements.
  induction respelled with
  | nil => exact .nil
  | keep lex _ ih => exact .keep lex ih
  | replace is _ ih => exact .replace (each _ _ is) ih

/-- What has been replaced can be put back. -/
theorem symm (respelled : Respelled SameInsn lexems lexems') :
    Respelled SameInsn lexems' lexems := by
  -- By induction on the replacements.
  induction respelled with
  | nil => exact .nil
  | keep lex _ ih => exact .keep lex ih
  | replace is _ ih =>
    obtain ⟨prod, mem, prod', mem', fit, fit', emit⟩ := is
    exact .replace ⟨prod', mem', prod, mem, fit', fit, fun addr => (emit addr).symm⟩ ih

end Respelled

/-- The lexeme may be the first one of an instruction. -/
def Begins (lex : Lexem) : Prop :=
  ∃ prod ∈ productions, ∃ types ∈ prod.terms.head?, types.any (lexemType lex)

/-- No instruction begins with an operand of another, or with what else an instruction has. -/
theorem apart_tail : ∀ prod ∈ productions, ∀ types ∈ prod.terms.tail, ∀ type ∈ types,
    ∀ prod' ∈ productions, ∀ types' ∈ prod'.terms.head?, ∀ type' ∈ types', apart type type' := by
  -- A check of all pairs of productions.
  decide +kernel

section Lexemes

variable {prod : Production} {lex : Lexem} {taken lexems lexems' rest before : List Lexem}

/-- The first lexeme of an instruction begins it. -/
theorem Fit.begins (mem : prod ∈ productions) (fit : Fit prod.terms (lex :: taken)) :
    Begins lex := by
  -- The first lexeme is of one of the types of the first term.
  obtain ⟨types, terms, isType, -, shape⟩ := List.forall₂_cons_right_iff.mp fit
  exact ⟨prod, mem, types, by rw [shape]; rfl, isType⟩

/-- An instruction has a first lexeme. -/
theorem Fit.ne_nil (mem : prod ∈ productions) (fit : Fit prod.terms taken) : taken ≠ [] := by
  -- No production is without terms.
  rintro rfl
  exact terms_ne_nil mem (List.forall₂_nil_right_iff.mp fit)

/-- No other lexeme of an instruction begins one. -/
theorem Fit.not_begins (mem : prod ∈ productions) (fit : Fit prod.terms (lex :: taken)) :
    ∀ other ∈ taken, ¬ Begins other := by
  obtain ⟨types, terms, -, fit, shape⟩ := List.forall₂_cons_right_iff.mp fit
  rintro other inTaken ⟨prod', mem', types', first, begins⟩
  obtain ⟨i, inside, rfl⟩ := List.getElem_of_mem inTaken
  have inside' : i < terms.length := by
    rw [fit.length_eq]
    exact inside
  -- The lexeme would be of two types that are apart.
  have isType := fit.get inside' inside
  rw [List.any_eq_true] at isType begins
  obtain ⟨type, inTypes, isType⟩ := isType
  obtain ⟨type', inTypes', begins⟩ := begins
  have separate := apart_tail prod mem (terms.get ⟨i, inside'⟩) (by
    rw [shape]
    exact List.get_mem _ _) type inTypes prod' mem' types' first type' inTypes'
  exact Bool.false_ne_true ((lexemType_of_apart separate isType).symm.trans begins)

/-- A label, and what an end of line has, begin no instruction. -/
theorem not_begins_of_other {type : String} (mem : type ∈ "label" :: endTypes)
    (isType : lexemType lex type) : ¬ Begins lex := by
  -- A check of all productions: these types are apart from their first ones.
  have others : ∀ type ∈ "label" :: endTypes, ∀ prod ∈ productions,
      ∀ types ∈ prod.terms.head?, ∀ type' ∈ types, apart type type' := by
    decide +kernel
  rintro ⟨prod, inProductions, types, first, begins⟩
  obtain ⟨type', inTypes, begins⟩ := List.any_eq_true.mp begins
  rw [lexemType_of_apart (others type mem prod inProductions types first type' inTypes) isType]
    at begins
  cases begins

/-- Lexemes with which no instruction begins are not replaced. -/
theorem Respelled.kept (respelled : Respelled SameInsn (before ++ rest) lexems')
    (others : ∀ lex ∈ before, ¬ Begins lex) :
    ∃ rest', lexems' = before ++ rest' ∧ Respelled SameInsn rest rest' := by
  -- By induction on the lexemes, one after the other.
  induction before generalizing lexems' with
  | nil => exact ⟨lexems', rfl, respelled⟩
  | cons lex before ih =>
    obtain ⟨other, others⟩ := List.forall_mem_cons.mp others
    generalize shape : lex :: before ++ rest = all at respelled
    cases respelled with
    | nil => cases shape
    -- The lexeme is kept, and so are those behind it.
    | keep _ behind =>
      obtain ⟨rfl, rfl⟩ := List.cons.inj shape
      obtain ⟨rest', rfl, later⟩ := ih behind others
      exact ⟨rest', rfl, later⟩
    | @replace taken _ _ _ is _ =>
      -- A replaced instruction would begin with the lexeme.
      obtain ⟨prod, mem, -, -, fit, -, -⟩ := is
      obtain ⟨first, taken, rfl⟩ := List.exists_cons_of_ne_nil (Fit.ne_nil mem fit)
      obtain ⟨rfl, -⟩ := List.cons.inj shape
      exact absurd (Fit.begins mem fit) other

/-- An instruction is kept or replaced as a whole. -/
theorem Respelled.insn {lexems : List Lexem} (respelled : Respelled SameInsn lexems lexems')
    (mem : prod ∈ productions) (matched : matchTerms prod.terms lexems = some (taken, rest)) :
    ∃ prod' ∈ productions, ∃ taken' rest', matchTerms prod'.terms lexems' = some (taken', rest') ∧
      (∀ addr, prod.emit taken addr = prod'.emit taken' addr) ∧ Respelled SameInsn rest rest' := by
  obtain ⟨rfl, fit⟩ := matchTerms_eq_some.mp matched
  -- What becomes of the first lexeme becomes of the whole instruction.
  obtain ⟨lex, taken, rfl⟩ := List.exists_cons_of_ne_nil (Fit.ne_nil mem fit)
  generalize shape : lex :: taken ++ rest = all at respelled
  cases respelled with
  | nil => cases shape
  | keep _ behind =>
    obtain ⟨rfl, rfl⟩ := List.cons.inj shape
    -- Its operands begin no instruction, so they are kept with it.
    obtain ⟨rest', rfl, later⟩ := behind.kept (Fit.not_begins mem fit)
    exact ⟨prod, mem, lex :: taken, rest', matchTerms_eq_some.mpr ⟨rfl, fit⟩, fun _ => rfl, later⟩
  | @replace taken' taken'' rest' lexems'' is behind =>
    obtain ⟨prod', mem', prod'', mem'', fit', fit'', emit⟩ := is
    -- Only one instruction is read from the lexemes.
    have first := firstMatch_of_mem productions_separated.1 mem matched
    have first' := firstMatch_of_mem productions_separated.1 mem'
      (matchTerms_eq_some.mpr ⟨shape, fit'⟩)
    rw [first, Option.some.injEq, Prod.mk.injEq, Prod.mk.injEq] at first'
    obtain ⟨rfl, rfl, rfl⟩ := first'
    exact ⟨prod'', mem'', taken'', lexems'', matchTerms_eq_some.mpr ⟨rfl, fit''⟩, emit, behind⟩

/-- What may be skipped is not the beginning of an instruction. -/
theorem skip_insn (mem : prod ∈ productions) (fit : Fit prod.terms taken) {type : String}
    (isEnd : type ∈ endTypes) : skip type (taken ++ lexems) = taken ++ lexems := by
  obtain ⟨lex, taken, rfl⟩ := List.exists_cons_of_ne_nil (Fit.ne_nil mem fit)
  -- Its first lexeme is neither a blank nor a comment.
  have other : ¬ lexemType lex type := fun isType =>
    not_begins_of_other (List.mem_cons_of_mem _ isEnd) isType (Fit.begins mem fit)
  simp [skip, startsWith, other]

/-- The same lexeme is skipped, if there is one. -/
theorem Respelled.skip (respelled : Respelled SameInsn lexems lexems') {type : String}
    (isEnd : type ∈ endTypes) : Respelled SameInsn (skip type lexems) (skip type lexems') := by
  cases respelled with
  | nil => exact .nil
  | keep lex rest =>
    -- A lexeme that is kept is skipped in both programs, or in neither.
    by_cases isType : lexemType lex type
    · simpa [MiniRiscV.skip, startsWith, isType] using rest
    · simpa [MiniRiscV.skip, startsWith, isType] using Respelled.keep lex rest
  | replace is rest =>
    -- Neither instruction begins with a lexeme of that type.
    obtain ⟨prod, mem, prod', mem', fit, fit', emit⟩ := is
    rw [skip_insn mem fit isEnd, skip_insn mem' fit' isEnd]
    exact .replace ⟨prod, mem, prod', mem', fit, fit', emit⟩ rest

/-- An end of line stays where it is. -/
theorem Respelled.readEnd (respelled : Respelled SameInsn lexems lexems')
    (ends : readEnd lexems = some rest) :
    ∃ rest', readEnd lexems' = some rest' ∧ Respelled SameInsn rest rest' := by
  -- A blank and a comment are skipped in both programs.
  have behind := (respelled.skip (show "blank" ∈ endTypes by simp [endTypes])).skip
    (show "comment" ∈ endTypes by simp [endTypes])
  unfold MiniRiscV.readEnd at ends ⊢
  split at ends
  case h_2 => cases ends
  case h_1 newline later shape =>
    split at ends
    case isFalse => cases ends
    case isTrue isNewline =>
      cases ends
      rw [shape] at behind
      -- The newline begins no instruction, so it is kept.
      obtain ⟨later', same, behind⟩ := @Respelled.kept _ later [newline] behind (by
        simpa using not_begins_of_other (by simp [endTypes]) isNewline)
      rw [same, List.singleton_append]
      exact ⟨_, if_pos isNewline, behind.skip (by simp [endTypes])⟩

/-- An empty program has one spelling. -/
theorem Respelled.of_nil (respelled : Respelled SameInsn [] lexems') : lexems' = [] := by
  generalize shape : ([] : List Lexem) = all at respelled
  cases respelled with
  | nil => rfl
  | keep lex rest => cases shape
  | replace is rest =>
    -- A replaced instruction would have a lexeme.
    obtain ⟨prod, mem, -, -, fit, -, -⟩ := is
    exact absurd (List.append_eq_nil_iff.mp shape.symm).1 (Fit.ne_nil mem fit)

variable {addr addr' : ℤ} {lines : List AsmLine}

/-- Items stay items, with the same lines. -/
theorem Items.respelled (items : Items lexems addr lines addr')
    (respelled : Respelled SameInsn lexems lexems') : Items lexems' addr lines addr' := by
  -- By induction on the items, each of which is kept or replaced.
  induction items generalizing lexems' with
  | nil =>
    rw [respelled.of_nil]
    exact .nil
  | @label lex rest _ _ _ isLabel _ ih =>
    -- A label begins no instruction.
    obtain ⟨rest', rfl, behind⟩ := @Respelled.kept lexems' rest [lex] respelled (by
      simpa using not_begins_of_other (by simp) isLabel)
    exact .label isLabel (ih behind)
  | insn mem matched _ ih =>
    obtain ⟨prod', mem', taken', rest', matched', emit, behind⟩ := respelled.insn mem matched
    -- The other instruction gives the same lines, and so the same next address.
    rw [emit] at ih ⊢
    exact .insn mem' matched' (ih behind)
  | eol ends _ ih =>
    obtain ⟨rest', ends', behind⟩ := respelled.readEnd ends
    exact .eol ends' (ih behind)

/-- A program is accepted in the other spelling too, with the same lines. -/
theorem Respelled.accepted (respelled : Respelled SameInsn lexems lexems')
    (accepted : Accepted lexems) :
    Accepted lexems' ∧ parsedLines lexems' = parsedLines lexems := by
  -- An accepted program is one of items, behind a comment that may be skipped.
  obtain ⟨lines, addr, items⟩ := accepted_items accepted
  have items' := items.respelled (respelled.skip (show "comment" ∈ endTypes by simp [endTypes]))
  exact ⟨items'.parsed.1, items'.parsed.2.trans items.parsed.2.symm⟩

end Lexemes

/-- Programs that are accepted alike and have the same lines are assembled alike. -/
theorem assemble_congr {fs : FileSystem} {verbose : Bool} {lexems lexems' : List Lexem}
    {binfile : CStr} (accepts : Accepted lexems' ↔ Accepted lexems)
    (lines : Accepted lexems → parsedLines lexems' = parsedLines lexems) :
    assemble fs verbose lexems' binfile = assemble fs verbose lexems binfile := by
  -- Both are written from the same lines, or both are refused.
  by_cases accepted : Accepted lexems ∧ (verbose → Resolvable (parsedLines lexems))
  · obtain ⟨accepted, linked⟩ := accepted
    have same := lines accepted
    rw [assemble_of_accepted (accepts.mpr accepted) (by rwa [same]),
      assemble_of_accepted accepted linked, writtenLines, writtenLines, same]
  · -- With the same lines, the other one would be accepted and linked as well.
    have refused : ¬ (Accepted lexems' ∧ (verbose → Resolvable (parsedLines lexems'))) := by
      rintro ⟨isAccepted, linked⟩
      rw [accepts] at isAccepted
      rw [lines isAccepted] at linked
      exact accepted ⟨isAccepted, linked⟩
    rw [assemble_of_refused refused, assemble_of_refused accepted]

/-- A pseudo-instruction, and the instruction that `parser.c` puts in its place. -/
inductive Expands : List Lexem → List Lexem → Prop
  | j {insn blank label jal register comma : Lexem}
      (short : Fit unsninsnJ.terms [insn, blank, label])
      (long : Fit insnJal.terms [jal, blank, register, comma, label])
      (isJal : jal.type = "insn::JAL".toList) (link : str2reg register.value = r6) :
      Expands [insn, blank, label] [jal, blank, register, comma, label]
  | li {insn blank rd comma imm addi zero comma' : Lexem}
      (short : Fit unsninsnLi.terms [insn, blank, rd, comma, imm])
      (long : Fit insnImm.terms [addi, blank, rd, comma, zero, comma', imm])
      (isAddi : addi.type = "insn::ADDI".toList) (isZero : str2reg zero.value = r0) :
      Expands [insn, blank, rd, comma, imm] [addi, blank, rd, comma, zero, comma', imm]
  | mv {insn blank rd comma rs1 add comma' zero : Lexem}
      (short : Fit unsninsnMv.terms [insn, blank, rd, comma, rs1])
      (long : Fit insnRegreg.terms [add, blank, rd, comma, rs1, comma', zero])
      (isAdd : add.type = "insn::ADD".toList) (isZero : str2reg zero.value = r0) :
      Expands [insn, blank, rd, comma, rs1] [add, blank, rd, comma, rs1, comma', zero]

/-- A pseudo-instruction stands for the same line as its expansion. -/
theorem Expands.sameInsn {taken taken' : List Lexem} (expands : Expands taken taken') :
    SameInsn taken taken' := by
  -- The types of the expansions are those of the instructions that are meant.
  have codes : str2insn "insn::JAL".toList = insnset2insn .jal ∧
      str2insn "insn::ADDI".toList = insnset2insn .addi ∧
      str2insn "insn::ADD".toList = insnset2insn .add := by
    decide
  cases expands with
  | j short long isJal link =>
    refine ⟨unsninsnJ, by simp [productions], insnJal, by simp [productions], short, long, ?_⟩
    intro addr
    -- The link goes to the register that the production of `j` gives.
    simp only [unsninsnJ, insnJal, isJal, link, codes]
  | li short long isAddi isZero =>
    refine ⟨unsninsnLi, by simp [productions], insnImm, by simp [productions], short, long, ?_⟩
    intro addr
    -- `R0` is the first operand in both.
    simp only [unsninsnLi, insnImm, isAddi, isZero, codes]
  | mv short long isAdd isZero =>
    refine ⟨unsninsnMv, by simp [productions], insnRegreg, by simp [productions], short, long, ?_⟩
    intro addr
    -- Here it is the second one.
    simp only [unsninsnMv, insnRegreg, isAdd, isZero, codes]

/--
Pseudo-instructions can be written as the instructions that they stand for, anywhere.

The program is accepted or refused as before, and its file is the same.
-/
theorem assemble_expanded {lexems lexems' : List Lexem}
    (expanded : Respelled Expands lexems lexems') (fs : FileSystem) (verbose : Bool)
    (binfile : CStr) :
    assemble fs verbose lexems' binfile = assemble fs verbose lexems binfile := by
  -- Expanding an instruction is a way of spelling it.
  have respelled := expanded.mono fun _ _ => Expands.sameInsn
  exact assemble_congr ⟨fun accepted => (respelled.symm.accepted accepted).1,
    fun accepted => (respelled.accepted accepted).1⟩ fun accepted => (respelled.accepted accepted).2

/-- The lexemes of `li r1,5` and `j PROG_START`. -/
def loadAndJump : List Lexem :=
  [lexemOf "unsinsn::LI" "li", lexemOf "blank" " ", lexemOf "symbole::register" "r1",
    lexemOf "comma" ",", lexemOf "integer::dec" "5", lexemOf "newline" "\n",
    lexemOf "unsinsn::J" "j", lexemOf "blank" " ", lexemOf "symbole::label" "PROG_START",
    lexemOf "newline" "\n"]

/-- The lexemes of `addi r1,zero,5` and `jal r6,PROG_START`. -/
def addAndLink : List Lexem :=
  [lexemOf "insn::ADDI" "addi", lexemOf "blank" " ", lexemOf "symbole::register" "r1",
    lexemOf "comma" ",", lexemOf "symbole::register" "zero", lexemOf "comma" ",",
    lexemOf "integer::dec" "5", lexemOf "newline" "\n",
    lexemOf "insn::JAL" "jal", lexemOf "blank" " ", lexemOf "symbole::register" "r6",
    lexemOf "comma" ",", lexemOf "symbole::label" "PROG_START", lexemOf "newline" "\n"]

/-- Both are assembled alike. -/
theorem assemble_expanded_loadAndJump :
    assemble (filesOf "") true addAndLink "prog.bin".toList =
      assemble (filesOf "") true loadAndJump "prog.bin".toList :=
  assemble_expanded (.replace (.li (by decide) (by decide) rfl (by decide))
    (.keep _ (.replace (.j (by decide) (by decide) rfl (by decide)) (.keep _ .nil)))) _ _ _

end MiniRiscV
