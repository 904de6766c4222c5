import MiniRiscV.Asm.Comments

/-! The lexemes that a source can be written in, and that they are read back from their text. -/

namespace MiniRiscV

open Greedy

/-- A name that can be defined, and referred to at the end of a line. -/
structure Label where
  text : CStr
  identifier : IsIdentifier text
  reads : ReadsAsLabel text ['\n']

/-- The decimal digits of an integer, behind a sign when it is negative. -/
def integerText (n : ℤ) : CStr :=
  if n < 0 then '-' :: Nat.toDigits 10 n.natAbs else Nat.toDigits 10 n.natAbs

/-- A lexeme as it is meant, wherever it stands. -/
inductive Token where
  | definition (label : Label)
  | mnemonic (word : {word // word ∈ mnemonics})
  | register (r : Fin 32)
  | integer (n : BitVec 32)
  | reference (label : Label)
  | blank | comma | left | right | newline

namespace Token

/-- The expression that reads it. -/
def regexp : Token → Regexp
  | definition _ => labelDefinition
  | mnemonic word => wordRegexp word.1.1 word.1.2
  | register _ => numberedRegister
  | integer _ => integerRegexp
  | reference _ => labelReference
  | blank => blankRegexp
  | comma => wordRegexp "comma" ","
  | left => wordRegexp "paren::left" "("
  | right => wordRegexp "paren::right" ")"
  | newline => newlineRegexp

/-- One of its spellings, for a register the one by its number. -/
def text : Token → CStr
  | definition label => label.text ++ [':']
  | mnemonic word => word.1.2.toList
  | register r => 'r' :: Nat.toDigits 10 r
  | integer n => integerText n.toInt
  | reference label => label.text
  | blank => [' ']
  | comma => [',']
  | left => ['(']
  | right => [')']
  | newline => ['\n']

/-- A character in front of which the reading of it ends. -/
def endsAt (token : Token) (c : Char) : Bool :=
  match token with
  | definition _ | comma | left | right => true
  | mnemonic _ => c = ' '
  | register _ => !isLabelChar c && c ≠ ':'
  | integer _ => !isDecimalDigit c
  | reference _ => c = '\n'
  | blank | newline => isLabelChar c

/-- It is read on its own in front of this text, and only an end of line is the last. -/
def Apart (token : Token) : CStr → Prop
  | [] => token = newline
  | c :: _ => token.endsAt c

/-- The lexeme that is read, without its place. -/
def lexem (token : Token) : Lexem where
  type := cString token.regexp.name
  value := token.text
  line := 0
  column := 0

end Token

/-- The text of some tokens, one behind the other. -/
def spelled (tokens : List Token) : CStr := tokens.flatMap Token.text

/-- Each of the tokens is read on its own. -/
def Spaced : List Token → Prop
  | [] => True
  | token :: tokens => token.Apart (spelled tokens) ∧ Spaced tokens

/-- The first groups of an expression show that no match begins with the character. -/
def startsNone : List (Option CharGroup) → Char → Bool
  | some group :: groups, c => !charGroupIn group c &&
      (group.operator = .nop || group.operator = .oom || startsNone groups c)
  | _, _ => false

section Vain

variable {regexp : Regexp} {c : Char} {rest : CStr}

/-- Groups that begin no match with the character leave nothing. -/
theorem outcome_of_startsNone {groups : List CharGroup}
    (none_starts : startsNone (groups.map some) c) :
    outcome (groups.map CharGroup.placeIn) (c :: rest) = none := by
  -- By induction on the groups, which are passed up to one that needs a character.
  induction groups with
  | nil => cases none_starts
  | cons group groups ih =>
    simp only [List.map_cons, startsNone, Bool.and_eq_true, Bool.not_eq_true', Bool.or_eq_true,
      decide_eq_true_eq] at none_starts
    -- A group that needs a character fails here, and one that does not is passed.
    obtain ⟨rejects, needs | behind⟩ := none_starts
    · exact outcome_fails needs rejects
    · by_cases needs : group.operator = .nop ∨ group.operator = .oom
      · exact outcome_fails needs rejects
      · have optional : group.operator = .zom ∨ group.operator = .zoo := by
          cases operator : group.operator <;> simp [operator] at needs ⊢
        rw [List.map_cons, outcome_passes optional rejects]
        exact ih behind

/-- An expression of `database.txt` does not match where no match of it begins. -/
theorem reMatch_of_startsNone (mem : regexp ∈ database)
    (none_starts : startsNone regexp.groups c) : reMatch regexp (c :: rest) = some none := by
  -- All groups of the expression are there, as `regexp_new` made them.
  obtain ⟨assigned, some_group⟩ := database_assigned regexp mem
  obtain ⟨name, groups⟩ := regexp
  dsimp only at assigned some_group none_starts
  generalize groups.reduceOption = found at assigned
  subst assigned
  rw [reMatch_map_some name _ (by simpa using some_group), outcome_of_startsNone none_starts]

/-- Where none of those before it begins a match, an expression is the first that matches. -/
theorem isFirstMatch_of_startsNone {tried untried : List Regexp} {text : CStr}
    (order : database = tried ++ regexp :: untried)
    (vain : ∀ other ∈ tried, startsNone other.groups c)
    (found : reMatch regexp (c :: text ++ rest) = some (some rest)) :
    IsFirstMatch database regexp (c :: text ++ rest) rest := by
  -- Those before it are all tried on the same first character.
  refine ⟨tried, untried, order, fun other mem => ?_, found⟩
  exact reMatch_of_startsNone (by simp [order, mem]) (vain other mem)

end Vain

section Digits

variable {c : Char} {digits after : CStr}

/-- The ten digits. -/
theorem mem_digits (digit : isDecimalDigit c) : c ∈ "0123456789".toList := by
  simp only [isDecimalDigit, decide_eq_true_eq] at digit
  have least := toNat_le_toNat digit.1
  have most := toNat_le_toNat digit.2
  rw [show '0'.toNat = 48 from rfl] at least
  rw [show '9'.toNat = 57 from rfl] at most
  -- The character of each code between the two.
  rw [← Char.ofNat_toNat c]
  generalize c.toNat = code at least most
  interval_cases code <;> decide

/-- What holds of the ten digits holds of every digit. -/
theorem all_digits {p : Char → Bool} (each : "0123456789".toList.all p)
    (digit : isDecimalDigit c) : p c := List.all_eq_true.mp each c (mem_digits digit)

/-- The digits of a number are some, and there is nothing else among them. -/
theorem isNumber_toDigits (n : ℕ) : IsNumber (Nat.toDigits 10 n) := by
  -- The core library knows that these characters are digits.
  refine ⟨Nat.toDigits_ne_nil, fun c mem => ?_⟩
  have digit := Nat.isDigit_of_mem_toDigits (by decide) (by decide) mem
  simpa [isDecimalDigit, Char.isDigit, Char.le_def] using digit

/-- There is no terminator among the digits of a number. -/
theorem IsNumber.noNull (isNumber : IsNumber digits) : '\x00' ∉ digits :=
  fun mem => absurd (isNumber.2 _ mem) (by decide)

/-- A run of digits ends in front of what is no digit. -/
theorem outcome_digits (isNumber : IsNumber digits)
    (ends : ∀ c ∈ after.head?, isDecimalDigit c = false) :
    outcome [(charGroupOf isDecimalDigit .oom).placeIn] (digits ++ after) = some after := by
  obtain ⟨some_digit, each⟩ := isNumber
  obtain ⟨d, digits, rfl⟩ := List.exists_cons_of_ne_nil some_digit
  -- Digits have seven bits, as all characters of labels.
  have accepts : ∀ c ∈ d :: digits, charGroupIn (charGroupOf isDecimalDigit .oom) c := by
    intro c mem
    have inLabel : isLabelChar c := by simp [isLabelChar, each c mem]
    simp [charGroupIn_charGroupOf, each c mem, toNat_lt_of_isLabelChar inLabel]
  rw [List.forall_mem_cons] at accepts
  -- The run takes all digits and stops at what is none, or at the end of the source.
  rw [outcome_run (.inr rfl) accepts.1 accepts.2, outcome_last_run]
  cases after with
  | nil => rfl
  | cons c after => simp [charGroupIn_charGroupOf, ends c rfl]

/-- What stands before the expression of the integers begins with no sign and no digit. -/
theorem beforeInteger_vain : ∀ regexp ∈ separators ++ labelDefinition ::
    mnemonics.map (fun mnemonic => wordRegexp mnemonic.1 mnemonic.2),
    ∀ c ∈ "-0123456789".toList, startsNone regexp.groups c := by
  -- A check of the table for these eleven characters.
  simp only [← List.all_eq_true]
  decide +kernel

/-- An integer. -/
theorem isFirstMatch_integer (n : ℤ) (ends : ∀ c ∈ after.head?, isDecimalDigit c = false) :
    IsFirstMatch database integerRegexp (integerText n ++ after) after := by
  -- In the order of the file, the registers, labels and parentheses come behind the integers.
  have order : database = (separators ++ labelDefinition ::
      mnemonics.map fun mnemonic => wordRegexp mnemonic.1 mnemonic.2) ++ integerRegexp ::
      (registers ++ labelReference :: parentheses) := by
    rw [database_eq, beforeReference]
    simp
  have isNumber := isNumber_toDigits n.natAbs
  have whole (source : CStr) : reMatch integerRegexp source = some (outcome
      [(charGroupOf (fun c => c = '+' ∨ c = '-') .zoo).placeIn,
        (charGroupOf isDecimalDigit .oom).placeIn] source) :=
    reMatch_map_some "integer::dec" [charGroupOf (fun c => c = '+' ∨ c = '-') .zoo,
      charGroupOf isDecimalDigit .oom] (by simp) source
  rw [integerText]
  split
  · -- The sign is taken by the first group.
    refine isFirstMatch_of_startsNone order (fun other mem =>
      beforeInteger_vain other mem '-' (by decide)) ?_
    rw [whole, List.cons_append, outcome_takes (.inr rfl) (by decide), outcome_digits isNumber ends]
  · -- There is no sign, and the first group is passed.
    obtain ⟨d, digits, shape⟩ := List.exists_cons_of_ne_nil isNumber.1
    rw [shape] at isNumber ⊢
    have digit := isNumber.2 d (by simp)
    -- No digit is a sign.
    have noSign : charGroupIn (charGroupOf (fun c => c = '+' ∨ c = '-') .zoo) d = false := by
      have each : "0123456789".toList.all fun d =>
          !charGroupIn (charGroupOf (fun c => c = '+' ∨ c = '-') .zoo) d := by
        decide
      simpa using all_digits each digit
    refine isFirstMatch_of_startsNone order (fun other mem =>
      beforeInteger_vain other mem d (List.mem_cons_of_mem _ (mem_digits digit))) ?_
    have passed : outcome [(charGroupOf (fun c => c = '+' ∨ c = '-') .zoo).placeIn,
        (charGroupOf isDecimalDigit .oom).placeIn] (d :: (digits ++ after)) = _ :=
      outcome_passes (.inr rfl) noSign
    rw [whole, List.cons_append, passed, ← List.cons_append, outcome_digits isNumber ends]

/-- A register by its number, in front of what could not go on with a label. -/
theorem isFirstMatch_numbered (isNumber : IsNumber digits)
    (ends : ∀ c ∈ after.head?, isLabelChar c = false ∧ c ≠ ':') :
    IsFirstMatch database numberedRegister ('r' :: digits ++ after) after := by
  -- Only separators, definitions, mnemonics and integers are tried before.
  have order : database = (separators ++ labelDefinition ::
      (mnemonics.map fun mnemonic => wordRegexp mnemonic.1 mnemonic.2) ++ [integerRegexp]) ++
      numberedRegister :: (registers.tail ++ labelReference :: parentheses) := by
    rw [database_eq, beforeReference, registers]
    simp
  have others : ∀ regexp ∈ separators ++
      (mnemonics.map fun mnemonic => wordRegexp mnemonic.1 mnemonic.2) ++ [integerRegexp],
      startsNone regexp.groups 'r' := by
    decide +kernel
  have identifier : IsIdentifier ('r' :: digits) :=
    ⟨'r', digits, rfl, by decide, fun d mem => by simp [isLabelChar, isNumber.2 d mem]⟩
  -- The number could be the name of a label, but no colon follows.
  have noDefinition : reMatch labelDefinition ('r' :: digits ++ after) = some none := by
    have groups : labelDefinition = ⟨"label", [charGroupOf isLabelStart .nop,
        charGroupOf isLabelChar .zom, charGroupSingleChar ':' false .nop].map some⟩ := rfl
    rw [groups, reMatch_map_some _ _ (by simp), List.map_cons, List.map_cons, List.map_cons,
      List.map_nil, outcome_label identifier]
    cases after with
    | nil => rfl
    | cons c after =>
      obtain ⟨other, noColon⟩ := ends c rfl
      rw [outcome_label_ends other, outcome_fails (.inl rfl)]
      simp [charGroupIn_single (show ':'.toNat < 128 by decide), noColon]
  -- Nothing else that is tried before begins with the letter of the registers.
  refine ⟨_, _, order, fun other mem => ?_, ?_⟩
  · by_cases definition : other = labelDefinition
    · rw [definition, noDefinition]
    · refine reMatch_of_startsNone (by rw [order]; exact List.mem_append_left _ mem)
        (others other ?_)
      simp only [List.mem_append, List.mem_cons] at mem ⊢
      simpa [definition] using mem
  · have whole : reMatch numberedRegister ('r' :: (digits ++ after)) =
        some (outcome [(charGroupSingleChar 'r' false .nop).placeIn,
          (charGroupOf isDecimalDigit .oom).placeIn] ('r' :: (digits ++ after))) :=
      reMatch_map_some "symbole::register" [charGroupSingleChar 'r' false .nop,
        charGroupOf isDecimalDigit .oom] (by simp) _
    -- What cannot go on with a label is no digit.
    have noDigit : ∀ c ∈ after.head?, isDecimalDigit c = false := by
      intro c mem
      have other := (ends c mem).1
      simp only [isLabelChar, decide_eq_false_iff_not, not_or, Bool.not_eq_true] at other
      exact other.2
    rw [List.cons_append, whole, outcome_takes (.inl rfl) (by decide),
      outcome_digits isNumber noDigit]

end Digits

section Reading

variable {token : Token} {tokens : List Token} {before after : CStr}

/-- Every mnemonic can be a label, and is the first of those that it begins with. -/
theorem mnemonics_first : ∀ mnemonic ∈ mnemonics,
    mnemonics.find? (fun other => other.2.toList.isPrefixOf mnemonic.2.toList) = some mnemonic ∧
      mnemonic.2.toList.head?.all isLabelStart := by
  -- A check of the table.
  decide +kernel

/-- Every mnemonic has the form of a name. -/
theorem identifier_mnemonic {mnemonic : String × String} (mem : mnemonic ∈ mnemonics) :
    IsIdentifier mnemonic.2.toList := by
  -- The first character is one that a label can begin with, and the others can follow.
  obtain ⟨some_char, inLabel⟩ := words_inLabel _ (mnemonic_mem mem)
  obtain ⟨c, rest, letters⟩ := List.exists_cons_of_ne_nil some_char
  have first := (mnemonics_first mnemonic mem).2
  simp only [letters, List.head?_cons, Option.all_some] at first inLabel ⊢
  exact ⟨c, rest, rfl, first, (List.forall_mem_cons.mp inLabel).2⟩

/-- The parentheses are tried last, and nothing before them begins like one. -/
theorem isFirstMatch_parenthesis (after : CStr) :
    IsFirstMatch database (wordRegexp "paren::left" "(") ('(' :: after) after ∧
      IsFirstMatch database (wordRegexp "paren::right" ")") (')' :: after) after := by
  -- A check of all expressions that are tried before.
  have vain : (∀ regexp ∈ beforeReference ++ [labelReference], startsNone regexp.groups '(') ∧
      ∀ regexp ∈ beforeReference ++ [labelReference, wordRegexp "paren::left" "("],
        startsNone regexp.groups ')' := by
    decide +kernel
  constructor
  · refine @isFirstMatch_of_startsNone _ '(' after _ [wordRegexp "paren::right" ")"] [] ?_ vain.1 ?_
    · rw [database_eq, parentheses, List.append_assoc]
      rfl
    · rw [reMatch_word (by simp) (by simp)]
      simp
  · refine @isFirstMatch_of_startsNone _ ')' after _ [] [] ?_ vain.2 ?_
    · rw [database_eq, parentheses, List.append_assoc]
      rfl
    · rw [reMatch_word (by simp) (by simp)]
      simp

namespace Token

/-- The reading of a token ends in front of the next character. -/
theorem Apart.ends (apart : token.Apart after) : ∀ c ∈ after.head?, token.endsAt c := by
  -- At the end of the source there is no next character.
  intro c mem
  cases after with
  | nil => cases mem
  | cons d after =>
    obtain rfl := Option.some.inj mem
    exact apart

/-- A token is read by its expression where its reading ends. -/
theorem Apart.isFirstMatch (apart : token.Apart after) :
    IsFirstMatch database token.regexp (token.text ++ after) after := by
  -- One case for each kind of token, with the lemma on its expression.
  have ends := apart.ends
  cases token with
  | definition label =>
    rw [text, List.append_assoc]
    exact isFirstMatch_definition label.identifier after
  | mnemonic word =>
    -- A mnemonic could go on as a label, were it not for the blank behind it.
    refine isFirstMatch_mnemonic (mnemonics_first _ word.2).1 (identifier_mnemonic word.2) ?_
    intro c mem
    simp [show c = ' ' by simpa [endsAt] using ends c mem]
  | register r =>
    exact isFirstMatch_numbered (isNumber_toDigits r) fun c mem => by
      simpa [endsAt] using ends c mem
  | integer n =>
    exact isFirstMatch_integer n.toInt fun c mem => by simpa [endsAt] using ends c mem
  | reference label =>
    cases after with
    | nil => cases apart
    | cons c after =>
      -- Where the name is a single letter, it matters that there is an end of line.
      obtain rfl : c = '\n' := by simpa [endsAt] using ends c rfl
      have reads := label.reads
      exact isFirstMatch_label label.identifier (separated_cons (by simp) after)
        ⟨reads.noMnemonic, reads.noRegisterWord, reads.noRegister, by simp⟩
  | blank => exact isFirstMatch_blank ends
  | comma => exact isFirstMatch_comma after
  | left => exact (isFirstMatch_parenthesis after).1
  | right => exact (isFirstMatch_parenthesis after).2
  | newline => exact isFirstMatch_newline ends

/-- Every token has some text. -/
theorem text_ne_nil (token : Token) : token.text ≠ [] := by
  cases token with
  | mnemonic word => exact (words_inLabel _ (mnemonic_mem word.2)).1
  | integer n =>
    -- The digits of a number are some, with a sign or without.
    rw [text, integerText]
    split
    · exact List.cons_ne_nil _ _
    · exact (isNumber_toDigits _).1
  | reference label => exact label.identifier.ne_nil
  | _ => simp [text]

/-- The text of a token has no terminator inside. -/
theorem noNull (token : Token) : '\x00' ∉ token.text := by
  cases token with
  | definition label => simp [text, label.identifier.noNull]
  | mnemonic word => exact (identifier_mnemonic word.2).noNull
  | register r => simp [text, (isNumber_toDigits r).noNull]
  | integer n =>
    -- Neither the sign nor a digit is the terminator.
    rw [text, integerText]
    have digits := (isNumber_toDigits n.toInt.natAbs).noNull
    split
    · simp [digits]
    · exact digits
  | reference label => exact label.identifier.noNull
  | _ => simp [text]

end Token

/-- Tokens that are apart are read from their text, one lexeme for each of them. -/
theorem lexes_spelled (spaced : Spaced tokens) (before : CStr) :
    ∃ lexems, Lexes database before (spelled tokens) 0 lexems ∧
      lexems.map Lexem.unplaced = tokens.map Token.lexem := by
  -- By induction on the tokens, in the order in which they are read.
  induction tokens generalizing before with
  | nil => exact ⟨[], .done before, rfl⟩
  | cons token tokens ih =>
    obtain ⟨apart, spaced⟩ := spaced
    obtain ⟨lexems, lexes, same⟩ := ih spaced (before ++ token.text)
    -- The first token is read up to the text of the others, with its own name and value.
    refine ⟨_ :: lexems, .lexem apart.isFirstMatch token.text_ne_nil lexes, ?_⟩
    rw [List.map_cons, List.map_cons, same, Lexem.unplaced, lexemBehind, Token.lexem,
      cString_of_noNull token.noNull]

end Reading

end MiniRiscV
