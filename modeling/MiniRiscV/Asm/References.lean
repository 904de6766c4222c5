import MiniRiscV.Asm.Identifiers
import MiniRiscV.Asm.Main

/-! Programs that define a label and refer to it, and those of them that are accepted. -/

namespace MiniRiscV

/-- The branches and jumps to a label: their types, mnemonics and numbers of registers. -/
def references : List (String × String × ℕ) :=
  [("insn::BEQ", "beq", 2), ("insn::BNE", "bne", 2), ("insn::BLT", "blt", 2),
    ("insn::BGE", "bge", 2), ("insn::BLTU", "bltu", 2), ("insn::BGEU", "bgeu", 2),
    ("insn::JAL", "jal", 1), ("insn::JALR", "jalr", 2), ("unsinsn::J", "j", 0)]

/-- The registers of an instruction by their numbers, each in front of a comma. -/
def registerTexts (numbers : List CStr) : CStr :=
  numbers.flatMap fun number => 'r' :: (number ++ [','])

/-- A program that defines a label and refers to it. -/
def labelProgram (w mnemonic : CStr) (numbers : List CStr) : CStr :=
  w ++ ':' :: '\n' :: (mnemonic ++ ' ' :: (registerTexts numbers ++ (w ++ ['\n'])))

/-- The number of a register. -/
def IsNumber (number : CStr) : Prop := number ≠ [] ∧ ∀ c ∈ number, isDecimalDigit c

section FirstMatches

variable {w after rest : CStr} {c : Char}

/-- A label and its colon are matched as a definition. -/
theorem isFirstMatch_definition (identifier : IsIdentifier w) (rest : CStr) :
    IsFirstMatch database labelDefinition (w ++ ':' :: rest) rest :=
  -- Only the separators are tried before a definition.
  ⟨separators, _, database_eq, (reMatch_of_identifier identifier).1,
    reMatch_labelDefinition_colon identifier rest⟩

/-- A run of a single group, which leaves what is not in it. -/
theorem reMatch_run {name : CStr} {group : CharGroup}
    (run : group.operator = .zom ∨ group.operator = .oom) (first : charGroupIn group c) :
    reMatch ⟨name, [some group]⟩ (c :: rest) =
      some (some (rest.dropWhile (charGroupIn group))) := by
  -- The first character opens the run, which goes on as long as it can.
  have whole : reMatch ⟨name, [some group]⟩ (c :: rest) =
      some (outcome [group.placeIn] (c :: rest)) :=
    reMatch_map_some name [group] (List.cons_ne_nil group []) (c :: rest)
  have begun : outcome [group.placeIn] (c :: ([] ++ rest)) = outcome [group.placeIn.openRun] rest :=
    outcome_run run first (by simp) rest
  rw [List.nil_append] at begun
  rw [whole, begun, outcome_last_run]

/-- A newline is taken with all that come right behind it. -/
theorem reMatch_newline (rest : CStr) :
    reMatch newlineRegexp ('\n' :: rest) = some (some (rest.dropWhile (· = '\n'))) := by
  have inGroup : charGroupIn (charGroupSingleChar '\n' false .oom) = fun c => decide (c = '\n') :=
    funext (charGroupIn_single (by decide) .oom)
  have run : reMatch newlineRegexp ('\n' :: rest) = _ := reMatch_run (.inr rfl) (by decide)
  rw [run, inGroup]

/-- Ends of line up to a label character. -/
theorem isFirstMatch_newline (behind : ∀ c ∈ rest.head?, isLabelChar c) :
    IsFirstMatch database newlineRegexp ('\n' :: rest) rest := by
  refine ⟨[blankRegexp], _, database_eq, ?_, ?_⟩
  · simpa using reMatch_blankRegexp (by decide) (by decide)
  · rw [reMatch_newline]
    -- A label character is no end of line, so the run ends with the first one.
    cases rest with
    | nil => rfl
    | cons c rest =>
      have other : c ≠ '\n' := by
        rintro rfl
        exact absurd (behind '\n' rfl) (by decide)
      simp [other]

/-- Blanks up to a label character. -/
theorem isFirstMatch_blank (behind : ∀ c ∈ rest.head?, isLabelChar c) :
    IsFirstMatch database blankRegexp (' ' :: rest) rest := by
  -- Blanks are tried first of all.
  refine ⟨[], _, database_eq, by simp, ?_⟩
  have found : reMatch blankRegexp (' ' :: rest) = _ := reMatch_run (.inr rfl) (by decide)
  rw [found]
  cases rest with
  | nil => rfl
  | cons c rest =>
    have noTab : c ≠ '\t' := by
      rintro rfl
      exact absurd (behind '\t' rfl) (by decide)
    have noSpace : c ≠ ' ' := by
      rintro rfl
      exact absurd (behind ' ' rfl) (by decide)
    simp [charGroupIn_charGroupOf, noTab, noSpace]

/-- A comma. -/
theorem isFirstMatch_comma (rest : CStr) :
    IsFirstMatch database (wordRegexp "comma" ",") (',' :: rest) rest := by
  -- Blanks, ends of line and comments are tried before.
  refine ⟨[blankRegexp, newlineRegexp, commentRegexp], _, database_eq, ?_, ?_⟩
  · simp only [List.forall_mem_cons]
    exact ⟨reMatch_blankRegexp (by decide) (by decide), reMatch_newlineRegexp (by decide),
      reMatch_commentRegexp (by decide), by simp⟩
  · rw [reMatch_word (by simp) (by simp)]
    simp

/-- A mnemonic that is the first of those that it begins with. -/
theorem isFirstMatch_mnemonic {name word : String}
    (first : mnemonics.find? (fun mnemonic => mnemonic.2.toList.isPrefixOf word.toList) =
      some (name, word))
    (identifier : IsIdentifier word.toList) (separated : Separated after) :
    IsFirstMatch database (wordRegexp name word) (word.toList ++ after) after := by
  obtain ⟨-, earlier, later, split, vain⟩ := List.find?_eq_some_iff_append.mp first
  -- The place of the mnemonic in the file.
  have order : database = (separators ++ labelDefinition ::
      earlier.map fun mnemonic => wordRegexp mnemonic.1 mnemonic.2) ++ wordRegexp name word ::
      (later.map (fun mnemonic => wordRegexp mnemonic.1 mnemonic.2) ++ integerRegexp ::
        (registers ++ labelReference :: parentheses)) := by
    rw [database_eq, beforeReference, split]
    simp
  refine ⟨_, _, order, ?_, ?_⟩
  · simp only [List.forall_mem_append, List.forall_mem_cons, List.forall_mem_map]
    refine ⟨(reMatch_of_identifier identifier).1, reMatch_labelDefinition identifier separated, ?_⟩
    -- No earlier mnemonic begins this one.
    intro mnemonic mem
    have known : mnemonic ∈ mnemonics := by simp [split, mem]
    refine (reMatch_word_eq_none (mnemonic_mem known) separated).mpr fun begins => ?_
    have other := vain mnemonic mem
    rw [List.isPrefixOf_iff_prefix.mpr begins] at other
    cases other
  · have sevenBit : ∀ c ∈ word.toList, c.toNat < 128 := fun c mem =>
      toNat_lt_of_isLabelChar (identifier.inLabel c mem)
    rw [reMatch_word sevenBit identifier.ne_nil, if_pos (List.prefix_append _ _), List.drop_left]

/-- No mnemonic begins like a numbered register. -/
theorem mnemonics_head : ∀ mnemonic ∈ mnemonics, mnemonic.2.toList.head? ≠ some 'r' := by
  decide

/-- The number of a register, in front of a comma. -/
theorem isFirstMatch_register {number : CStr} (isNumber : IsNumber number) (rest : CStr) :
    IsFirstMatch database numberedRegister ('r' :: (number ++ ',' :: rest)) (',' :: rest) := by
  obtain ⟨some_digit, digits⟩ := isNumber
  have identifier : IsIdentifier ('r' :: number) :=
    ⟨'r', number, rfl, by decide, fun d mem => by simp [isLabelChar, digits d mem]⟩
  have separated : Separated (',' :: rest) := separated_cons (by simp) rest
  -- Numbered registers come first among the registers, behind the mnemonics.
  have order : database = (separators ++ labelDefinition ::
      (mnemonics.map fun mnemonic => wordRegexp mnemonic.1 mnemonic.2) ++ [integerRegexp]) ++
      numberedRegister :: (registers.tail ++ labelReference :: parentheses) := by
    rw [database_eq, beforeReference, registers]
    simp
  refine ⟨_, _, order, ?_, ?_⟩
  · rw [← List.cons_append]
    obtain ⟨noSeparator, noInteger⟩ := @reMatch_of_identifier _ (',' :: rest) identifier
    simp only [List.forall_mem_append, List.forall_mem_cons, List.forall_mem_map]
    refine ⟨⟨noSeparator, reMatch_labelDefinition identifier separated, ?_⟩, noInteger, by simp⟩
    intro mnemonic mem
    -- A mnemonic that began here would begin with the letter of the register.
    refine (reMatch_word_eq_none (mnemonic_mem mem) separated).mpr fun begins => ?_
    obtain ⟨c, word, letters⟩ :=
      List.exists_cons_of_ne_nil (words_inLabel _ (mnemonic_mem mem)).1
    rw [letters, List.cons_prefix_cons] at begins
    exact mnemonics_head mnemonic mem (by rw [letters, begins.1]; rfl)
  · -- The digits are one run, which ends at the comma.
    obtain ⟨d, number, rfl⟩ := List.exists_cons_of_ne_nil some_digit
    have accepts : ∀ c ∈ d :: number, charGroupIn (charGroupOf isDecimalDigit .oom) c := by
      intro c mem
      have inLabel : isLabelChar c := by simp [isLabelChar, digits c mem]
      simp [charGroupIn_charGroupOf, digits c mem, toNat_lt_of_isLabelChar inLabel]
    rw [List.forall_mem_cons] at accepts
    have whole : reMatch numberedRegister ('r' :: (d :: number ++ ',' :: rest)) =
        some (outcome [(charGroupSingleChar 'r' false .nop).placeIn,
          (charGroupOf isDecimalDigit .oom).placeIn] ('r' :: (d :: number ++ ',' :: rest))) :=
      reMatch_map_some "symbole::register" [charGroupSingleChar 'r' false .nop,
        charGroupOf isDecimalDigit .oom] (by simp) _
    rw [whole, outcome_takes (.inl rfl) (by decide),
      outcome_run (.inr rfl) accepts.1 accepts.2, outcome_last_run]
    simp [charGroupIn_charGroupOf, isDecimalDigit]

end FirstMatches

/-- The types of the lexemes of a reference, up to the label. -/
def referenceTypes (name : CStr) (registers : ℕ) : List CStr :=
  name :: "blank".toList ::
    (List.replicate registers ["symbole::register".toList, "comma".toList]).flatten

section Lexemes

variable {w before rest : CStr} {code : ℤ} {lexems : List Lexem} {numbers : List CStr}

/-- The registers are read with their commas. -/
theorem lexes_registerTexts (isNumber : ∀ number ∈ numbers, IsNumber number)
    (lexes : Lexes database before (registerTexts numbers ++ rest) code lexems) :
    ∃ operands later before', lexems = operands ++ later ∧
      operands.map Lexem.type =
        (List.replicate numbers.length ["symbole::register".toList, "comma".toList]).flatten ∧
      Lexes database before' rest code later := by
  -- By induction on the registers, each read as a register and a comma.
  induction numbers generalizing before lexems with
  | nil => exact ⟨[], lexems, before, rfl, rfl, lexes⟩
  | cons number numbers ih =>
    rw [List.forall_mem_cons] at isNumber
    have source : registerTexts (number :: numbers) ++ rest =
        ('r' :: number) ++ ([','] ++ (registerTexts numbers ++ rest)) := by
      simp [registerTexts]
    rw [source] at lexes
    obtain ⟨_, rfl, atComma⟩ := lexes.passes (isFirstMatch_register isNumber.1 _) (by simp)
    obtain ⟨_, rfl, behind⟩ := atComma.passes (isFirstMatch_comma _) (by simp)
    obtain ⟨operands, later, before', rfl, types, atRest⟩ := ih isNumber.2 behind
    refine ⟨_ :: _ :: operands, later, before', rfl, ?_, atRest⟩
    rw [List.map_cons, List.map_cons, types, List.length_cons, List.replicate_succ,
      List.flatten_cons]
    rfl

/-- The mnemonics of the references, each the first of those that it begins with. -/
theorem references_first : ∀ reference ∈ references,
    mnemonics.find? (fun mnemonic => mnemonic.2.toList.isPrefixOf reference.2.1.toList) =
      some (reference.1, reference.2.1) := by
  decide

/-- No name of a mnemonic has a terminator inside. -/
theorem references_name : ∀ reference ∈ references,
    cString reference.1.toList = reference.1.toList := by
  decide

/-- Every mnemonic that takes a label could be the name of one. -/
theorem references_identifier : ∀ reference ∈ references,
    reference.2.1.toList ≠ [] ∧ (∀ c ∈ reference.2.1.toList.head?, isLabelStart c) ∧
      ∀ c ∈ reference.2.1.toList, isLabelChar c := by
  -- A check of the table, mnemonic by mnemonic.
  have checked : ∀ reference ∈ references, reference.2.1.toList ≠ [] ∧
      reference.2.1.toList.head?.all isLabelStart ∧ reference.2.1.toList.all isLabelChar := by
    decide
  intro reference mem
  obtain ⟨some_char, first, others⟩ := checked reference mem
  exact ⟨some_char, (Option.all_eq_true _ _).mp first, List.all_eq_true.mp others⟩

/-- The lexemes of the program in front of the place where the label is referred to. -/
theorem lexes_labelProgram {name word : String} (identifier : IsIdentifier w)
    (mem : (name, word, numbers.length) ∈ references)
    (isNumber : ∀ number ∈ numbers, IsNumber number)
    (lexes : Lexes database [] (labelProgram w word numbers) code lexems) :
    ∃ definition newline operands later before,
      lexems = definition :: newline :: operands ++ later ∧
      definition.type = "label".toList ∧ newline.type = "newline".toList ∧
      operands.map Lexem.type = referenceTypes name numbers.length ∧
      Lexes database before (w ++ ['\n']) code later := by
  obtain ⟨some_letter, firstLetter, letters⟩ := references_identifier _ mem
  have mnemonic : IsIdentifier word.toList := by
    obtain ⟨c, rest, word_eq⟩ := List.exists_cons_of_ne_nil some_letter
    simp only [word_eq] at firstLetter letters
    exact ⟨c, rest, word_eq, firstLetter c rfl, (List.forall_mem_cons.mp letters).2⟩
  have blank : Separated (' ' :: (registerTexts numbers ++ (w ++ ['\n']))) :=
    separated_cons (by simp) _
  -- What stands behind the end of line, and behind the blank, begins like a label.
  have behindNewline : ∀ c ∈ (word.toList ++ ([' '] ++ (registerTexts numbers ++
      (w ++ ['\n'])))).head?, isLabelChar c := by
    obtain ⟨c, rest, word_eq⟩ := List.exists_cons_of_ne_nil some_letter
    simp only [word_eq] at letters ⊢
    simpa using letters c List.mem_cons_self
  have behindBlank : ∀ c ∈ (registerTexts numbers ++ (w ++ ['\n'])).head?, isLabelChar c := by
    cases numbers with
    | nil =>
      obtain ⟨c, rest, rfl, first, -⟩ := identifier
      simpa [registerTexts] using isLabelChar_of_isLabelStart first
    | cons number numbers => simp [registerTexts, isLabelChar, isLabelStart]
  have source : labelProgram w word numbers = (w ++ [':']) ++ (['\n'] ++ (word.toList ++
      ([' '] ++ (registerTexts numbers ++ (w ++ ['\n']))))) := by
    simp [labelProgram]
  have isDefinition := isFirstMatch_definition identifier (['\n'] ++ (word.toList ++
      ([' '] ++ (registerTexts numbers ++ (w ++ ['\n'])))))
  rw [List.append_cons] at isDefinition
  rw [source] at lexes
  -- The reading passes the definition, the end of line, the mnemonic and the blank.
  obtain ⟨_, rfl, atNewline⟩ := lexes.passes isDefinition (by simp)
  obtain ⟨_, rfl, atMnemonic⟩ := atNewline.passes (isFirstMatch_newline behindNewline) (by simp)
  obtain ⟨_, rfl, atBlank⟩ := atMnemonic.passes
    (isFirstMatch_mnemonic (references_first _ mem) mnemonic blank) some_letter
  obtain ⟨_, rfl, atRegisters⟩ := atBlank.passes (isFirstMatch_blank behindBlank) (by simp)
  obtain ⟨operands, later, before, rfl, types, atLabel⟩ := lexes_registerTexts isNumber atRegisters
  refine ⟨_, _, _ :: _ :: operands, later, before, rfl, rfl, rfl, ?_, atLabel⟩
  have isName : cString name.toList = name.toList := references_name _ mem
  have isBlank : cString blankRegexp.name = "blank".toList := by decide
  rw [List.map_cons, List.map_cons, types, referenceTypes]
  simp only [lexemBehind, wordRegexp]
  rw [isName, isBlank]

/-- What stands where the label is referred to: a reference, and the last end of line. -/
theorem lexes_reference (identifier : IsIdentifier w) (reads : ReadsAsLabel w ['\n'])
    (lexes : Lexes database before (w ++ ['\n']) code lexems) :
    code = 0 ∧ ∃ label newline, lexems = [label, newline] ∧
      label.type = "symbole::label".toList ∧ newline.type = "newline".toList := by
  -- The reference and the end of line are passed, and nothing is left.
  have separated : Separated ['\n'] := separated_cons (by simp) []
  obtain ⟨_, rfl, atNewline⟩ := lexes.passes
    (isFirstMatch_label identifier separated reads) identifier.ne_nil
  have isNewline : IsFirstMatch database newlineRegexp (['\n'] ++ []) [] :=
    isFirstMatch_newline (by simp)
  obtain ⟨_, rfl, atEnd⟩ := atNewline.passes isNewline (by simp)
  obtain ⟨rfl, rfl⟩ := atEnd.of_nil
  exact ⟨rfl, _, _, rfl, rfl, rfl⟩

/-- What stands there otherwise: a lexeme of another type. -/
theorem lexes_other (identifier : IsIdentifier w) (cut : ¬ ReadsAsLabel w ['\n'])
    (lexes : Lexes database before (w ++ ['\n']) code lexems) :
    ∃ other more, lexems = other :: more ∧ lexemType other "symbole::label" = false := by
  have separated : Separated ['\n'] := separated_cons (by simp) []
  generalize whole : w ++ ['\n'] = source at lexes
  cases lexes with
  | done => simp at whole
  | stuck _ none_matches =>
    -- The expression of a reference matches, if no other one does.
    have mem : labelReference ∈ database := by simp [database_eq]
    have found := none_matches labelReference mem
    rw [← whole, reMatch_labelReference identifier separated] at found
    cases found
  | lexem first some_text behind =>
    -- A lexeme with this type would be a reference.
    refine ⟨_, _, rfl, Bool.eq_false_iff.mpr fun isLabel => cut ?_⟩
    rw [← whole] at first
    exact readsAsLabel_of_first identifier separated first isLabel

end Lexemes

section Acceptance

/-- Terminals that lexemes of some types do not fit, or that ask for a label behind them. -/
def blocked : List CStr → List (List String) → Bool
  | type :: types, terms :: rest =>
    !terms.any (fun term => term.toList.isPrefixOf type) || blocked types rest
  | [], terms :: _ => terms = ["symbole::label"]
  | _, [] => false

/-- Terminals that lexemes of some types fit, one each. -/
def fits : List CStr → List (List String) → Bool
  | type :: types, terms :: rest =>
    terms.any (fun term => term.toList.isPrefixOf type) && fits types rest
  | [], [] => true
  | _, _ => false

/-- Every instruction is blocked behind a reference without its label. -/
theorem references_blocked : ∀ reference ∈ references, ∀ prod ∈ productions,
    blocked (referenceTypes reference.1 reference.2.2) prod.terms := by
  decide

/-- Every reference with its label is an instruction. -/
theorem references_fit : ∀ reference ∈ references, ∃ prod ∈ productions,
    fits (referenceTypes reference.1 reference.2.2 ++ ["symbole::label".toList]) prod.terms := by
  decide

variable {terms : List (List String)} {types : List CStr} {operands more : List Lexem}
  {definition newline other : Lexem}

/-- Terminals that are blocked do not fit lexemes of the types, with no label behind them. -/
theorem matchTerms_of_blocked (isBlocked : blocked (operands.map Lexem.type) terms)
    (noLabel : lexemType other "symbole::label" = false) :
    matchTerms terms (operands ++ other :: more) = none := by
  -- By induction on the lexemes, up to the terminal that stops the match.
  induction operands generalizing terms with
  | nil =>
    cases terms with
    | nil => cases isBlocked
    | cons types terms =>
      -- Behind the lexemes a label is asked for, and there is none.
      have asked : types = ["symbole::label"] := by simpa [blocked] using isBlocked
      simp [matchTerms, asked, noLabel]
  | cons lex operands ih =>
    cases terms with
    | nil => cases isBlocked
    | cons types terms =>
      rw [List.cons_append, matchTerms]
      split
      · rename_i head
        -- The first lexeme fits, so that a later one is blocked.
        have later : blocked (operands.map Lexem.type) terms := by
          simp only [List.map_cons, blocked, Bool.or_eq_true, Bool.not_eq_true'] at isBlocked
          rcases isBlocked with none_fits | later
          · have fitting : types.any (fun term => term.toList.isPrefixOf lex.type) := head
            rw [fitting] at none_fits
            cases none_fits
          · exact later
        rw [ih later]
        rfl
      · rfl

/-- Terminals that fit the types of lexemes take them. -/
theorem matchTerms_of_fits (fitting : fits (operands.map Lexem.type) terms) :
    matchTerms terms (operands ++ more) = some (operands, more) := by
  -- By induction on the lexemes, each of which fits its terminal.
  induction operands generalizing terms with
  | nil =>
    cases terms with
    | nil => rfl
    | cons types terms => cases fitting
  | cons lex operands ih =>
    cases terms with
    | nil => cases fitting
    | cons types terms =>
      simp only [List.map_cons, fits, Bool.and_eq_true] at fitting
      have head : types.any (lexemType lex) := fitting.1
      rw [List.cons_append, matchTerms, if_pos head, ih fitting.2]
      rfl

/-- The mnemonic of a reference begins an instruction. -/
theorem references_types : ∀ reference ∈ references, ∀ type ∈ "label" :: endTypes,
    type.toList.isPrefixOf reference.1.toList = false := by
  decide

/-- The first lexeme of a reference is its mnemonic. -/
theorem operands_head {name : String} {registers : ℕ}
    (known : ∃ word, (name, word, registers) ∈ references)
    (types : operands.map Lexem.type = referenceTypes name registers) :
    ∃ insn rest, operands = insn :: rest ∧
      ∀ type ∈ "label" :: endTypes, lexemType insn type = false := by
  -- The first type is the name of the reference.
  obtain ⟨word, mem⟩ := known
  obtain ⟨insn, rest, rfl, isName, -⟩ := List.map_eq_cons_iff.mp types
  refine ⟨insn, rest, rfl, fun type other => ?_⟩
  rw [lexemType, isName]
  exact references_types _ mem type other

/-- The test of a type reads its text. -/
theorem lexemType_of_type {lex : Lexem} {text : CStr} (type : lex.type = text) (term : String) :
    lexemType lex term = term.toList.isPrefixOf text := by
  rw [lexemType, type]

/-- An end of line in front of a lexeme that is no blank. -/
theorem readEnd_newline (isNewline : newline.type = "newline".toList)
    (noBlank : startsWith ["blank"] more = false) : readEnd (newline :: more) = some more := by
  -- Neither a blank nor a comment stands before the end of line, and no blank behind it.
  have noBlank' : lexemType newline "blank" = false := lexemType_of_type isNewline _
  have noComment : lexemType newline "comment" = false := lexemType_of_type isNewline _
  have isEnd : lexemType newline "newline" := lexemType_of_type isNewline _
  have behind : skip "blank" more = more := by
    rw [skip, noBlank]
    rfl
  have first : skip "comment" (skip "blank" (newline :: more)) = newline :: more := by
    simp [skip, startsWith, noBlank', noComment]
  rw [readEnd, first]
  simp [isEnd, behind]

/-- What the parser accepts behind a definition and an end of line are items. -/
theorem accepted_iff_items (isDefinition : definition.type = "label".toList)
    (isNewline : newline.type = "newline".toList) (noBlank : startsWith ["blank"] more = false) :
    Accepted (definition :: newline :: more) ↔ ∃ lines addr, Items more 0 lines addr := by
  have isLabel : lexemType definition "label" := lexemType_of_type isDefinition _
  have noComment : lexemType definition "comment" = false := lexemType_of_type isDefinition _
  have isEnd : lexemType newline "newline" := lexemType_of_type isNewline _
  have starts : startsWith endTypes (newline :: more) := by
    simp [startsWith, endTypes, isEnd]
  have whole : skip "comment" (parseStart (definition :: newline :: more)).lexems =
      definition :: newline :: more := by
    simp [skip, parseStart, startsWith, noComment]
  rw [Accepted, parseCode_accepts_iff, whole]
  simp only [items_label_iff isLabel, items_end_iff starts, readEnd_newline isNewline noBlank,
    Option.some.injEq, exists_eq_left']
  -- The label is the first line, at address 0.
  constructor
  · rintro ⟨lines, addr, behind, -, items⟩
    exact ⟨behind, addr, items⟩
  · rintro ⟨lines, addr, items⟩
    exact ⟨_, addr, lines, rfl, items⟩

/-- The program is accepted when a reference stands where the label is referred to. -/
theorem accepted_of_reference {name : String} {registers : ℕ} {label last : Lexem}
    (known : ∃ word, (name, word, registers) ∈ references)
    (isDefinition : definition.type = "label".toList) (isNewline : newline.type = "newline".toList)
    (types : operands.map Lexem.type = referenceTypes name registers)
    (isLabel : label.type = "symbole::label".toList) (isLast : last.type = "newline".toList) :
    Accepted (definition :: newline :: operands ++ [label, last]) := by
  obtain ⟨insn, rest, rfl, noOther⟩ := operands_head known types
  obtain ⟨word, mem⟩ := known
  simp only [endTypes, List.forall_mem_cons] at noOther
  have noBlank : startsWith ["blank"] (insn :: rest ++ [label, last]) = false := by
    simp [startsWith, noOther]
  -- The instruction takes the whole line, and nothing is behind it.
  apply (accepted_iff_items isDefinition isNewline noBlank).mpr
  obtain ⟨prod, isProd, fitting⟩ := references_fit _ mem
  rw [← types, ← isLabel, ← List.map_singleton, ← List.map_append] at fitting
  have matched := @matchTerms_of_fits _ _ [last] fitting
  rw [List.append_assoc] at matched
  exact ⟨_, _, .insn isProd matched (.eol (readEnd_newline isLast rfl) .nil)⟩

/-- The program is not accepted when no reference stands there. -/
theorem not_accepted_of_other {name : String} {registers : ℕ}
    (known : ∃ word, (name, word, registers) ∈ references)
    (isDefinition : definition.type = "label".toList) (isNewline : newline.type = "newline".toList)
    (types : operands.map Lexem.type = referenceTypes name registers)
    (noLabel : lexemType other "symbole::label" = false) :
    ¬ Accepted (definition :: newline :: operands ++ other :: more) := by
  obtain ⟨insn, rest, rfl, noOther⟩ := operands_head known types
  obtain ⟨word, mem⟩ := known
  simp only [endTypes, List.forall_mem_cons] at noOther
  have noBlank : startsWith ["blank"] (insn :: rest ++ other :: more) = false := by
    simp [startsWith, noOther]
  refine fun accepted => ?_
  obtain ⟨lines, addr, items⟩ := (accepted_iff_items isDefinition isNewline noBlank).mp accepted
  -- The line is no label, no end of line, and no instruction with a label.
  cases items with
  | label isLabel items =>
    rw [noOther.1] at isLabel
    cases isLabel
  | insn isProd matched items =>
    have isBlocked := references_blocked _ mem _ isProd
    rw [← types] at isBlocked
    rw [matchTerms_of_blocked isBlocked noLabel] at matched
    cases matched
  | eol ends items =>
    have starts := startsWith_readEnd ends
    simp [startsWith, endTypes, noOther] at starts

end Acceptance

/-- The program is read to its end, and accepted. -/
def Parses (source : CStr) : Prop :=
  ∃ lexems, lexemRead source database = some (0, lexems) ∧ Accepted lexems

section Programs

variable {w : CStr} {numbers : List CStr}

/-- A program that refers to its label parses just when the identifier is read as a reference. -/
theorem parses_labelProgram_iff {name word : String} (identifier : IsIdentifier w)
    (mem : (name, word, numbers.length) ∈ references)
    (isNumber : ∀ number ∈ numbers, IsNumber number) :
    Parses (labelProgram w word numbers) ↔ ReadsAsLabel w ['\n'] := by
  constructor
  · rintro ⟨lexems, read, accepted⟩
    obtain ⟨definition, newline, operands, later, before, rfl, isDefinition, isNewline, types,
      lexes⟩ := lexes_labelProgram identifier mem isNumber (lexemRead_lexes read)
    -- The lexeme in the place of the reference cannot be accepted there.
    by_contra cut
    obtain ⟨other, more, rfl, noLabel⟩ := lexes_other identifier cut lexes
    exact not_accepted_of_other ⟨word, mem⟩ isDefinition isNewline types noLabel accepted
  · intro reads
    obtain ⟨code, lexems, read, -⟩ := lexemRead_database (labelProgram w word numbers)
    obtain ⟨definition, newline, operands, later, before, rfl, isDefinition, isNewline, types,
      lexes⟩ := lexes_labelProgram identifier mem isNumber (lexemRead_lexes read)
    -- All lexemes are known, and the parser takes them.
    obtain ⟨rfl, label, last, rfl, isLabel, isLast⟩ := lexes_reference identifier reads lexes
    exact ⟨_, read, accepted_of_reference ⟨word, mem⟩ isDefinition isNewline types isLabel isLast⟩

/--
A reference to a label is read as one exactly when no mnemonic or register begins it.

The expressions of the mnemonics and of the registers are tried before that of a reference, and
the first match is taken, not the longest: an identifier that begins with one of them is cut.
Definitions are tried before all of these, so that such a label can be defined all the same.
-/
theorem label_referenced_iff (identifier : IsIdentifier w) :
    (∀ before after, Separated after →
      ((∃ code lexems, lexemRead (before ++ (w ++ after)) database = some (code, lexems) ∧
          lexems.filter (StandsBehind before) = [labelLexem before w]) ↔
        ComesTo database (before ++ (w ++ after)) before (w ++ after) ∧ ReadsAsLabel w after)) ∧
      ∀ name word numbers, (name, word, numbers.length) ∈ references →
        (∀ number ∈ numbers, IsNumber number) →
        (Parses (labelProgram w word.toList numbers) ↔ ReadsAsLabel w ['\n']) :=
  ⟨fun _ _ separated => label_lexem_iff identifier separated,
    fun _ _ _ mem isNumber => parses_labelProgram_iff identifier mem isNumber⟩

/-- `loop:` and `jal r1,loop`. -/
theorem parses_loop : Parses (labelProgram "loop" "jal" ["1"]) := by
  have identifier : IsIdentifier "loop" := ⟨'l', "oop".toList, rfl, by decide,
    List.all_eq_true.mp (by decide)⟩
  have reads : ReadsAsLabel "loop" ['\n'] := by
    refine ⟨by decide, by decide, ?_, by decide⟩
    intro c d start begins
    obtain ⟨rfl, -⟩ : c = 'l' ∧ d = 'o' := by simpa using begins
    simp [IsRegisterStart] at start
  have isNumber : ∀ number ∈ ["1".toList], IsNumber number := by
    simp [IsNumber, isDecimalDigit]
  exact ((label_referenced_iff identifier).2 "insn::JAL" "jal" _ (by decide) isNumber).mpr reads

/-- `addr`, which is no mnemonic and begins with no register, but cannot be referred to. -/
theorem addr_cut : IsIdentifier "addr" ∧ "addr" ∉ mnemonics.map Prod.snd ++ registerWords ∧
    (∀ c d, IsRegisterStart c d → ¬ [c, d] <+: "addr".toList) ∧
    (¬ ∃ code lexems, lexemRead "addr\n" database = some (code, lexems) ∧
      lexems.filter (StandsBehind []) = [labelLexem [] "addr"]) ∧
    ¬ Parses (labelProgram "addr" "jal" ["1"]) := by
  have identifier : IsIdentifier "addr" := ⟨'a', "ddr".toList, rfl, by decide,
    List.all_eq_true.mp (by decide)⟩
  -- The mnemonic `add` begins the identifier.
  have cut : ¬ ReadsAsLabel "addr" ['\n'] := fun reads =>
    reads.noMnemonic ("insn::ADD", "add") (by decide) (by decide)
  refine ⟨identifier, by decide, ?_, ?_, ?_⟩
  · intro c d start begins
    obtain ⟨rfl, rfl⟩ : c = 'a' ∧ d = 'd' := by simpa using begins
    simp [IsRegisterStart] at start
  · intro found
    have separated : Separated ['\n'] := separated_cons (by simp) []
    exact cut ((@label_lexem_iff [] "addr" ['\n'] identifier separated).mp found).2
  · have mem : ("insn::JAL", "jal", ["1".toList].length) ∈ references := by decide
    exact fun parses => cut ((parses_labelProgram_iff identifier mem
      (by simp [IsNumber, isDecimalDigit])).mp parses)

end Programs

end MiniRiscV
