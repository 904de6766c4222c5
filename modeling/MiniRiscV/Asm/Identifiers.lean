import MiniRiscV.Asm.Patterns

/-! The identifiers that are read as references to labels, and those that are cut into pieces. -/

namespace MiniRiscV

/-- A letter and a character with which the name of a register begins. -/
def IsRegisterStart (c d : Char) : Prop :=
  c = 'r' ∧ isDecimalDigit d ∨ c = 's' ∧ (d = '0' ∨ d = '1' ∨ d = 'p') ∨
    c = 'a' ∧ '0' ≤ d ∧ d ≤ '7'

/-- The other names of registers. -/
def registerWords : List String := ["zero", "pc", "ra"]

/-- No expression is tried before that of a reference and matches. -/
structure ReadsAsLabel (w after : CStr) : Prop where
  noMnemonic : ∀ mnemonic ∈ mnemonics, ¬ mnemonic.2.toList <+: w
  noRegisterWord : ∀ word ∈ registerWords, ¬ word.toList <+: w
  noRegister : ∀ c d, IsRegisterStart c d → ¬ [c, d] <+: w
  /-- The source does not end where the number of a register could begin. -/
  notCut : ¬ (w = ['r'] ∧ after = [])

section Reference

variable {w after : CStr}

/-- The words of `database.txt` could all be labels. -/
theorem words_inLabel : ∀ word ∈ mnemonics.map Prod.snd ++ registerWords,
    word.toList ≠ [] ∧ ∀ c ∈ word.toList, isLabelChar c := by
  -- A check of the table, word by word.
  have checked : ∀ word ∈ mnemonics.map Prod.snd ++ registerWords,
      word.toList ≠ [] ∧ word.toList.all isLabelChar := by
    decide
  exact fun word mem => ⟨(checked word mem).1, List.all_eq_true.mp (checked word mem).2⟩

/-- A mnemonic is one of these words. -/
theorem mnemonic_mem {mnemonic : String × String} (mem : mnemonic ∈ mnemonics) :
    mnemonic.2 ∈ mnemonics.map Prod.snd ++ registerWords :=
  List.mem_append_left _ (List.mem_map_of_mem mem)

/-- A word matches an identifier that begins with it. -/
theorem reMatch_word_eq_none {name word : String}
    (mem : word ∈ mnemonics.map Prod.snd ++ registerWords) (separated : Separated after) :
    reMatch (wordRegexp name word) (w ++ after) = some none ↔ ¬ word.toList <+: w := by
  -- The separator is in no word, so the word stands in the identifier itself.
  obtain ⟨some_char, inLabel⟩ := words_inLabel word mem
  have begins : word.toList <+: w ++ after ↔ word.toList <+: w :=
    prefix_append_iff inLabel separated
  rw [reMatch_word (fun c mem => toNat_lt_of_isLabelChar (inLabel c mem)) some_char, ← begins]
  by_cases stands : word.toList <+: w ++ after <;> simp only [stands, if_true, if_false] <;> simp

/-- The characters of the registers could all be those of labels. -/
theorem isLabelChar_registers : (∀ d, isDecimalDigit d → isLabelChar d) ∧
    (∀ d, decide (d = '0' ∨ d = '1' ∨ d = 'p') → isLabelChar d) ∧
      ∀ d, decide ('0' ≤ d ∧ d ≤ '7') → isLabelChar d := by
  -- The numbers of registers are digits, and the other characters are listed.
  refine ⟨fun d digit => by simp [isLabelChar, digit], fun d one => ?_, fun d octal => ?_⟩
  · rcases of_decide_eq_true one with rfl | rfl | rfl <;> decide
  · obtain ⟨lower, upper⟩ := of_decide_eq_true octal
    have digit : isDecimalDigit d := by
      simpa [isDecimalDigit, lower] using Char.le_trans upper (show '7' ≤ '9' by decide)
    simp [isLabelChar, digit]

/-- The registers match the identifiers that begin with the name of one, but for one at the end. -/
theorem registers_iff (identifier : IsIdentifier w) (separated : Separated after) :
    (∀ regexp ∈ registers, reMatch regexp (w ++ after) = some none) ↔
      (∀ word ∈ registerWords, ¬ word.toList <+: w) ∧
        (∀ c d, IsRegisterStart c d → ¬ [c, d] <+: w) ∧ ¬ (w = ['r'] ∧ after = []) := by
  obtain ⟨digits, ones, octals⟩ := isLabelChar_registers
  have word := fun {word : String} mem =>
    @reMatch_word_eq_none w after "symbole::register" word mem separated
  have sRegister := reMatch_lettredRegister (show isLabelChar 's' by decide) ones identifier
    separated
  have aRegister := reMatch_lettredRegister (show isLabelChar 'a' by decide) octals identifier
    separated
  simp only [registers, List.forall_mem_cons, reMatch_numberedRegister identifier separated,
    word (show "zero" ∈ _ by decide), word (show "pc" ∈ _ by decide),
    word (show "ra" ∈ _ by decide), sRegister, aRegister, registerWords]
  -- Each expression on the left is one of the beginnings on the right.
  constructor
  · rintro ⟨⟨numbered, notCut⟩, zero, pc, s, a, ra, -⟩
    refine ⟨⟨zero, pc, ra, by simp⟩, ?_, notCut⟩
    rintro c d (⟨rfl, digit⟩ | ⟨rfl, one⟩ | ⟨rfl, octal⟩)
    · exact numbered d digit
    · exact s d (decide_eq_true one)
    · exact a d (decide_eq_true octal)
  · rintro ⟨⟨zero, pc, ra, -⟩, starts, notCut⟩
    exact ⟨⟨fun d digit => starts 'r' d (.inl ⟨rfl, digit⟩), notCut⟩, zero, pc,
      fun d one => starts 's' d (.inr (.inl ⟨rfl, of_decide_eq_true one⟩)),
      fun d octal => starts 'a' d (.inr (.inr ⟨rfl, of_decide_eq_true octal⟩)), ra, by simp⟩

/-- Neither a separator nor an integer begins as an identifier does. -/
theorem reMatch_of_identifier (identifier : IsIdentifier w) :
    (∀ regexp ∈ separators, reMatch regexp (w ++ after) = some none) ∧
      reMatch integerRegexp (w ++ after) = some none := by
  -- No separator and no sign begins a label.
  obtain ⟨c, rest, rfl, first, -⟩ := identifier
  have other : ∀ d, isLabelStart d = false → c ≠ d := by
    rintro d no rfl
    rw [first] at no
    cases no
  refine ⟨reMatch_separators ?_, reMatch_integerRegexp ?_ ?_⟩
  · simp only [List.mem_cons, List.not_mem_nil, or_false, not_or]
    exact ⟨other _ (by decide), other _ (by decide), other _ (by decide), other _ (by decide),
      other _ (by decide)⟩
  · exact ⟨other _ (by decide), other _ (by decide)⟩
  · exact isDecimalDigit_of_isLabelStart first

/-- Nothing before the expression of a reference matches just when no word or register does. -/
theorem beforeReference_iff (identifier : IsIdentifier w) (separated : Separated after) :
    (∀ regexp ∈ beforeReference, reMatch regexp (w ++ after) = some none) ↔
      ReadsAsLabel w after := by
  obtain ⟨noSeparator, noInteger⟩ := @reMatch_of_identifier w after identifier
  have noDefinition := reMatch_labelDefinition identifier separated
  have word : ∀ mnemonic ∈ mnemonics, reMatch (wordRegexp mnemonic.1 mnemonic.2) (w ++ after) =
      some none ↔ ¬ mnemonic.2.toList <+: w := fun mnemonic mem =>
    reMatch_word_eq_none (mnemonic_mem mem) separated
  simp only [beforeReference, List.forall_mem_append, List.forall_mem_cons, List.forall_mem_map,
    registers_iff identifier separated]
  -- The separators, the definition and the integer never match; the others decide.
  constructor
  · rintro ⟨⟨-, -, noMnemonic⟩, -, noRegisterWord, noRegister, notCut⟩
    exact ⟨fun mnemonic mem => (word mnemonic mem).mp (noMnemonic mnemonic mem), noRegisterWord,
      noRegister, notCut⟩
  · rintro ⟨noMnemonic, noRegisterWord, noRegister, notCut⟩
    exact ⟨⟨noSeparator, noDefinition,
      fun mnemonic mem => (word mnemonic mem).mpr (noMnemonic mnemonic mem)⟩, noInteger,
      noRegisterWord, noRegister, notCut⟩

end Reference

/-- The lexeme of a reference to a label that stands behind some characters. -/
def labelLexem (before w : CStr) : Lexem where
  type := "symbole::label"
  value := w
  line := lineBehind before
  column := columnBehind before

section Label

variable {before w after : CStr}

/-- Only the expression of a reference has a name that begins like its own. -/
theorem name_label : (∀ regexp ∈ beforeReference,
      "symbole::label".toList.isPrefixOf (cString regexp.name) = false) ∧
    ∀ regexp ∈ parentheses, "symbole::label".toList.isPrefixOf (cString regexp.name) = false := by
  -- A check of the names in the file.
  decide

/-- Where nothing else matches, an identifier is matched as a reference. -/
theorem isFirstMatch_label (identifier : IsIdentifier w) (separated : Separated after)
    (reads : ReadsAsLabel w after) :
    IsFirstMatch database labelReference (w ++ after) after :=
  ⟨beforeReference, parentheses, database_eq, (beforeReference_iff identifier separated).mpr reads,
    reMatch_labelReference identifier separated⟩

/-- A match under the name of a reference is one where nothing else matches. -/
theorem readsAsLabel_of_first {regexp : Regexp} {next : CStr} (identifier : IsIdentifier w)
    (separated : Separated after) (first : IsFirstMatch database regexp (w ++ after) next)
    (name : "symbole::label".toList.isPrefixOf (cString regexp.name)) : ReadsAsLabel w after := by
  -- The expression with this name is the reference, tried when all before it failed.
  have mem := first.mem
  rw [database_eq] at first mem
  rw [← beforeReference_iff identifier separated]
  rcases List.mem_append.mp mem with tried | reference
  · rw [name_label.1 regexp tried] at name
    cases name
  · rcases List.mem_cons.mp reference with rfl | parenthesis
    · refine first.vain_front fun tried => ?_
      rw [name_label.1 _ tried] at name
      cases name
    · rw [name_label.2 regexp parenthesis] at name
      cases name

/-- An identifier is taken as a reference just when nothing before matches. -/
theorem isFirstLexem_label_iff (identifier : IsIdentifier w) (separated : Separated after) :
    IsFirstLexem database before (w ++ after) (labelLexem before w) ↔ ReadsAsLabel w after := by
  constructor
  · rintro ⟨regexp, text, next, -, -, first, same⟩
    -- The type of the lexeme gives away the expression that took it.
    have type : "symbole::label".toList = cString regexp.name := congrArg Lexem.type same
    apply readsAsLabel_of_first identifier separated first
    rw [← type, List.isPrefixOf_iff_prefix]
  · intro reads
    refine ⟨labelReference, w, after, rfl, identifier.ne_nil,
      isFirstMatch_label identifier separated reads, ?_⟩
    have name : cString labelReference.name = "symbole::label".toList := by decide
    have value : cString w = w := cString_of_noNull identifier.noNull
    unfold labelLexem lexemBehind
    rw [value, name]

/-- An identifier is a lexeme of its own where the outer loop comes by and nothing else matches. -/
theorem label_lexem_iff (identifier : IsIdentifier w) (separated : Separated after) :
    (∃ code lexems, lexemRead (before ++ (w ++ after)) database = some (code, lexems) ∧
        lexems.filter (StandsBehind before) = [labelLexem before w]) ↔
      ComesTo database (before ++ (w ++ after)) before (w ++ after) ∧ ReadsAsLabel w after := by
  -- The lexeme at the position is the one taken there, if the loop comes by.
  rw [← isFirstLexem_label_iff identifier separated]
  constructor
  · rintro ⟨code, lexems, read, single⟩
    exact (lexemRead_filter_iff read rfl).mp single
  · intro found
    obtain ⟨code, lexems, read, -⟩ := lexemRead_database (before ++ (w ++ after))
    exact ⟨code, lexems, read, (lexemRead_filter_iff read rfl).mpr found⟩

end Label

end MiniRiscV
