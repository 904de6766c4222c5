import MiniRiscV.Asm.Database
import MiniRiscV.Asm.Greedy
import MiniRiscV.Asm.Tokens

/-! The expressions of `database.txt` one by one, and what each of them matches. -/

namespace MiniRiscV

open Greedy

/-- The flags of the characters of seven bits with a property. -/
def charSet (holds : Char → Bool) : BitVec 256 :=
  (List.range 128).foldr
    (fun n set => if holds (Char.ofNat n) then set ||| 1#256 <<< n else set) 0

/-- The group of the characters of seven bits with a property. -/
def charGroupOf (holds : Char → Bool) (operator : Operator) : CharGroup where
  group := charSet holds
  operator := operator
  inverse := false

/-- An expression that matches a word. -/
def wordRegexp (name word : String) : Regexp where
  name := name
  groups := word.toList.map fun c => some (charGroupSingleChar c false .nop)

/-- The first character of a label. -/
def isLabelStart (c : Char) : Bool :=
  ('a' ≤ c ∧ c ≤ 'z') ∨ ('A' ≤ c ∧ c ≤ 'Z') ∨ c = '_' ∨ c = '.'

/-- The other characters of a label. -/
def isLabelChar (c : Char) : Bool := isLabelStart c ∨ isDecimalDigit c

/-- A run of blanks. -/
def blankRegexp : Regexp where
  name := "blank"
  groups := [some (charGroupOf (fun c => c = '\t' ∨ c = ' ') .oom)]

/-- A run of ends of line. -/
def newlineRegexp : Regexp where
  name := "newline"
  groups := [some (charGroupSingleChar '\n' false .oom)]

/-- A comment, up to the end of its line. -/
def commentRegexp : Regexp where
  name := "comment"
  groups := [some (charGroupSingleChar ';' false .nop),
    some { charGroupSingleChar '\n' true .nop with operator := .zom }]

/-- The first expressions of `database.txt`. -/
def separators : List Regexp :=
  [blankRegexp, newlineRegexp, commentRegexp, wordRegexp "comma" ","]

/-- A label in front of its colon. -/
def labelDefinition : Regexp where
  name := "label"
  groups := [some (charGroupOf isLabelStart .nop), some (charGroupOf isLabelChar .zom),
    some (charGroupSingleChar ':' false .nop)]

/-- The names and the texts of the mnemonics, in the order of `database.txt`. -/
def mnemonics : List (String × String) :=
  [("insn::NOP", "nop"), ("insn::ADDI", "addi"), ("insn::ADD", "add"), ("insn::ANDI", "andi"),
    ("insn::AND", "and"), ("insn::BEQ", "beq"), ("insn::SLLI", "slli"), ("insn::SRLI", "srli"),
    ("insn::SLL", "sll"), ("insn::SRL", "srl"), ("insn::ORI", "ori"), ("insn::OR", "or"),
    ("insn::BNE", "bne"), ("insn::XORI", "xori"), ("insn::XOR", "xor"), ("insn::BGEU", "bgeu"),
    ("insn::BGE", "bge"), ("insn::SLTIU", "sltiu"), ("insn::SLTI", "slti"),
    ("insn::SLTU", "sltu"), ("insn::SLT", "slt"), ("insn::SRAI", "srai"), ("insn::SRA", "sra"),
    ("insn::LUI", "lui"), ("insn::AUIPC", "auipc"), ("insn::BLTU", "bltu"), ("insn::BLT", "blt"),
    ("insn::LBU", "lbu"), ("insn::LHU", "lhu"), ("insn::LB", "lb"), ("insn::LH", "lh"),
    ("insn::LW", "lw"), ("insn::SB", "sb"), ("insn::SW", "sw"), ("insn::SH", "sh"),
    ("insn::JALR", "jalr"), ("insn::JAL", "jal"), ("insn::SUB", "sub"), ("unsinsn::J", "j"),
    ("unsinsn::LI", "li"), ("unsinsn::MV", "mv"), ("unsinsn::BLE", "ble")]

/-- An integer with or without a sign. -/
def integerRegexp : Regexp where
  name := "integer::dec"
  groups := [some (charGroupOf (fun c => c = '+' ∨ c = '-') .zoo),
    some (charGroupOf isDecimalDigit .oom)]

/-- A register by its number. -/
def numberedRegister : Regexp where
  name := "symbole::register"
  groups := [some (charGroupSingleChar 'r' false .nop), some (charGroupOf isDecimalDigit .oom)]

/-- A register whose name is a letter, and a character with some property. -/
def lettredRegister (letter : Char) (holds : Char → Bool) : Regexp where
  name := "symbole::register"
  groups := [some (charGroupSingleChar letter false .nop), some (charGroupOf holds .nop)]

/-- The registers, in the order of `database.txt`. -/
def registers : List Regexp :=
  [numberedRegister, wordRegexp "symbole::register" "zero", wordRegexp "symbole::register" "pc",
    lettredRegister 's' fun c => c = '0' ∨ c = '1' ∨ c = 'p',
    lettredRegister 'a' fun c => '0' ≤ c ∧ c ≤ '7', wordRegexp "symbole::register" "ra"]

/-- A label that is referred to. -/
def labelReference : Regexp where
  name := "symbole::label"
  groups := [some (charGroupOf isLabelStart .nop), some (charGroupOf isLabelChar .zom)]

/-- The expressions that are tried on an identifier before that of a reference. -/
def beforeReference : List Regexp :=
  separators ++ labelDefinition :: (mnemonics.map fun (name, word) => wordRegexp name word) ++
    integerRegexp :: registers

/-- The parentheses. -/
def parentheses : List Regexp := [wordRegexp "paren::left" "(", wordRegexp "paren::right" ")"]

/-- The expressions of `database.txt`. -/
theorem database_eq : database = beforeReference ++ labelReference :: parentheses := by
  -- The file is read, and its expressions are compared with the description.
  decide +kernel

/-- Each expression of `database.txt` has a group that needs a character. -/
theorem database_takesOne : ∀ regexp ∈ database, regexp.TakesOne :=
  -- The check of the file is a stronger one, about nulls as well.
  fun regexp mem => takesOne_of_sound (database_sound regexp mem).1

section Groups

variable {c d : Char} {holds : Char → Bool} {operator : Operator}

/-- A shifted one is set in one place. -/
theorem getLsbD_single {index : ℕ} (inside : index < 256) (n : ℕ) :
    (1#256 <<< index).getLsbD n = decide (n = index) := by
  -- The flag of the index itself, of a smaller one and of a greater one.
  rw [BitVec.getLsbD_shiftLeft, BitVec.getLsbD_one]
  by_cases same : n = index
  · simp [same, inside]
  · by_cases less : n < index
    · simp [less, same]
    · simp [same, show n - index ≠ 0 by omega]

/-- The set has the characters of seven bits for which the predicate holds. -/
theorem getLsbD_charSet (holds : Char → Bool) (n : ℕ) :
    (charSet holds).getLsbD n = (decide (n < 128) && holds (Char.ofNat n)) := by
  -- The flags of the characters below a bound, by induction on it.
  have below : ∀ bound ≤ 256, ∀ set : BitVec 256,
      ((List.range bound).foldr
        (fun n set => if holds (Char.ofNat n) then set ||| 1#256 <<< n else set) set).getLsbD n =
        (set.getLsbD n || decide (n < bound) && holds (Char.ofNat n)) := by
    intro bound
    induction bound with
    | zero => simp
    | succ bound ih =>
      intro fits set
      rw [List.range_succ, List.foldr_append, ih (by omega)]
      simp only [List.foldr_cons, List.foldr_nil]
      by_cases here : n = bound
      · by_cases member : holds (Char.ofNat bound)
        · simp [here, member, getLsbD_single (show bound < 256 by omega)]
        · simp [here, member]
      · have same : decide (n < bound + 1) = decide (n < bound) := by
          rw [decide_eq_decide]
          omega
        rw [same]
        split
        · simp [here, getLsbD_single (show bound < 256 by omega)]
        · rfl
  simpa [charSet] using below 128 (by omega) 0

/-- The characters of a group with a property. -/
theorem charGroupIn_charGroupOf (holds : Char → Bool) (operator : Operator) (c : Char) :
    charGroupIn (charGroupOf holds operator) c = (decide (c.toNat < 128) && holds c) := by
  -- The test reads one flag, for a character of seven bits only.
  rw [charGroupIn, charGroupOf, getLsbD_charSet, Char.ofNat_toNat]
  cases decide (c.toNat < 128) <;> rfl

/-- The character of a group with a single one. -/
theorem charGroupIn_single (sevenBit : c.toNat < 128) (operator : Operator) (d : Char) :
    charGroupIn (charGroupSingleChar c false operator) d = decide (d = c) := by
  -- The group of one character has one flag.
  have flags : (charGroupSingleChar c false operator).group = 1#256 <<< c.toNat := by
    simp [charGroupSingleChar, sevenBit]
  rw [charGroupIn, flags, getLsbD_single (by omega)]
  by_cases same : d = c
  · simp [same, sevenBit]
  · have apart : d.toNat ≠ c.toNat := fun values => same (Char.toNat_inj.mp values)
    simp [same, apart]

end Groups

section Rules

variable {group : CharGroup} {places : List (Place Char)} {c : Char} {text rest source : CStr}

/-- The match of an expression without missing groups. -/
theorem reMatch_map_some (name : CStr) (groups : List CharGroup) (some_group : groups ≠ [])
    (source : CStr) :
    reMatch ⟨name, groups.map some⟩ source =
      some (outcome (groups.map CharGroup.placeIn) source) :=
  reMatch_eq_outcome rfl some_group (fun _ => rfl) fun _ _ _ => rfl

/-- A group for a single character takes it. -/
theorem outcome_takes (single : group.operator = .nop ∨ group.operator = .zoo)
    (accepts : charGroupIn group c) :
    outcome (group.placeIn :: places) (c :: rest) = outcome places rest := by
  -- Such a place is for a single character.
  refine outcome_of_accepts ?_ accepts
  rcases single with nop | zoo
  · simp [Place.takesRun, CharGroup.placeIn, nop, Operator.count]
  · simp [Place.takesRun, CharGroup.placeIn, zoo, Operator.count]

/-- A group that needs a character fails on one that is not in it. -/
theorem outcome_fails (needs : group.operator = .nop ∨ group.operator = .oom)
    (rejects : charGroupIn group c = false) :
    outcome (group.placeIn :: places) (c :: rest) = none := by
  -- Such a place needs a character.
  apply outcome_of_rejects_needed rejects
  rcases needs with nop | oom
  · simp [Place.needsOne, CharGroup.placeIn, nop, Operator.count]
  · simp [Place.needsOne, CharGroup.placeIn, oom, Operator.count]

/-- A group that needs no character is passed on one that is not in it. -/
theorem outcome_passes (optional : group.operator = .zom ∨ group.operator = .zoo)
    (rejects : charGroupIn group c = false) :
    outcome (group.placeIn :: places) (c :: rest) = outcome places (c :: rest) := by
  -- Such a place needs no character.
  apply outcome_of_rejects rejects
  rcases optional with zom | zoo
  · simp [Place.needsOne, CharGroup.placeIn, zom, Operator.count]
  · simp [Place.needsOne, CharGroup.placeIn, zoo, Operator.count]

/-- An expression whose first group needs a character does not match one that is not in it. -/
theorem reMatch_fails (name : CStr) (groups : List CharGroup)
    (needs : group.operator = .nop ∨ group.operator = .oom)
    (rejects : charGroupIn group c = false) :
    reMatch ⟨name, (group :: groups).map some⟩ (c :: rest) = some none := by
  rw [reMatch_map_some name _ (List.cons_ne_nil group groups), List.map_cons,
    outcome_fails needs rejects]

/-- A run that is begun is open. -/
theorem outcome_run (run : group.operator = .zom ∨ group.operator = .oom)
    (first : charGroupIn group c) (accepts : ∀ d ∈ text, charGroupIn group d) (source : CStr) :
    outcome (group.placeIn :: places) (c :: text ++ source) =
      outcome (group.placeIn.openRun :: places) source := by
  -- The first character opens the run, and the others go on with it.
  have takesRun : group.placeIn.takesRun := by
    rcases run with zom | oom
    · simp [Place.takesRun, CharGroup.placeIn, zom, Operator.count]
    · simp [Place.takesRun, CharGroup.placeIn, oom, Operator.count]
  have accepted : ∀ d ∈ text, group.placeIn.accepts d := accepts
  exact (outcome_of_accepts_run takesRun first).trans (outcome_openRun accepted source)

/-- A last run that is open matches, also when it goes on to the end of the source. -/
theorem outcome_last_run (group : CharGroup) (source : CStr) :
    outcome [group.placeIn.openRun] source = some (source.dropWhile (charGroupIn group)) := by
  -- By induction on the source, up to the first character that is not in the group.
  induction source with
  | nil => rfl
  | cons c rest ih =>
    cases inGroup : charGroupIn group c with
    | true =>
      have goesOn : outcome [group.placeIn.openRun] (c :: rest) =
          outcome [group.placeIn.openRun] rest :=
        outcome_of_accepts_run (Place.takesRun_openRun _) inGroup
      rw [goesOn, ih]
      simp [inGroup]
    | false =>
      have rejects : group.placeIn.accepts c = false := inGroup
      rw [outcome_openRun_ends rejects, outcome_no_places]
      simp [inGroup]

end Rules

section Words

variable {name word : String} {source : CStr}

/-- The outcome for a word is what stands behind it. -/
theorem outcome_word {word : CStr} (sevenBit : ∀ c ∈ word, c.toNat < 128) :
    outcome ((word.map fun c => charGroupSingleChar c false .nop).map CharGroup.placeIn) source =
      if word <+: source then some (source.drop word.length) else none := by
  -- By induction on the word, one place for each character.
  induction word generalizing source with
  | nil => simp
  | cons c word ih =>
    rw [List.forall_mem_cons] at sevenBit
    cases source with
    | nil =>
      -- The source ends before a character that is needed.
      rw [outcome_nil]
      cases word <;> simp [passesAtEnd, Place.takesRun, CharGroup.placeIn, Operator.count,
        charGroupSingleChar]
    | cons d rest =>
      simp only [List.map_cons, List.cons_prefix_cons, List.length_cons, List.drop_succ_cons]
      have inGroup := charGroupIn_single sevenBit.1 .nop d
      -- The next characters are the same or the word fails here.
      by_cases same : c = d
      · have accepts : charGroupIn (charGroupSingleChar c false .nop) d :=
          inGroup.trans (decide_eq_true same.symm)
        rw [outcome_takes (.inl rfl) accepts, ih sevenBit.2]
        simp [same]
      · have rejects : charGroupIn (charGroupSingleChar c false .nop) d = false := by
          simp [inGroup, Ne.symm same]
        rw [outcome_fails (.inl rfl) rejects]
        simp [same]

/-- The expression of a word matches where the word stands. -/
theorem reMatch_word (sevenBit : ∀ c ∈ word.toList, c.toNat < 128) (some_char : word.toList ≠ [])
    (source : CStr) :
    reMatch (wordRegexp name word) source =
      some (if word.toList <+: source then some (source.drop word.toList.length) else none) := by
  -- The groups of the word are none of them missing.
  have groups : wordRegexp name word =
      ⟨name, (word.toList.map fun c => charGroupSingleChar c false .nop).map some⟩ := by
    simp [wordRegexp]
  rw [groups, reMatch_map_some _ _ (by simpa using some_char), outcome_word sevenBit]

end Words

section FirstCharacter

variable {c : Char} {rest : CStr}

/-- Nothing but a tab or a space begins a blank. -/
theorem reMatch_blankRegexp (noTab : c ≠ '\t') (noSpace : c ≠ ' ') :
    reMatch blankRegexp (c :: rest) = some none := by
  apply reMatch_fails _ [] (.inr rfl)
  simp [charGroupIn_charGroupOf, noTab, noSpace]

/-- Nothing but a newline begins a lexeme of newlines. -/
theorem reMatch_newlineRegexp (noNewline : c ≠ '\n') :
    reMatch newlineRegexp (c :: rest) = some none := by
  apply reMatch_fails _ [] (.inr rfl)
  simp [charGroupIn_single (show '\n'.toNat < 128 by decide), noNewline]

/-- Nothing but a semicolon begins a comment. -/
theorem reMatch_commentRegexp (noSemicolon : c ≠ ';') :
    reMatch commentRegexp (c :: rest) = some none := by
  refine reMatch_fails _ [{ charGroupSingleChar '\n' true .nop with operator := .zom }]
    (.inl rfl) ?_
  simp [charGroupIn_single (show ';'.toNat < 128 by decide), noSemicolon]

/-- The separators begin with characters of their own. -/
theorem reMatch_separators (other : c ∉ ['\t', ' ', '\n', ';', ',']) :
    ∀ regexp ∈ separators, reMatch regexp (c :: rest) = some none := by
  -- Blanks, ends of line, comments and the comma in turn.
  simp only [List.mem_cons, List.not_mem_nil, or_false, not_or] at other
  obtain ⟨noTab, noSpace, noNewline, noSemicolon, noComma⟩ := other
  simp only [separators, List.forall_mem_cons]
  refine ⟨reMatch_blankRegexp noTab noSpace, reMatch_newlineRegexp noNewline,
    reMatch_commentRegexp noSemicolon, ?_, by simp⟩
  rw [reMatch_word (by simp) (by simp)]
  simp [Ne.symm noComma]

/-- An integer begins with a digit or a sign. -/
theorem reMatch_integerRegexp (noSign : c ≠ '+' ∧ c ≠ '-') (noDigit : isDecimalDigit c = false) :
    reMatch integerRegexp (c :: rest) = some none := by
  -- The sign is optional, the digits are not.
  have groups : integerRegexp = ⟨"integer::dec",
      [charGroupOf (fun c => c = '+' ∨ c = '-') .zoo, charGroupOf isDecimalDigit .oom].map some⟩ :=
    rfl
  rw [groups, reMatch_map_some _ _ (by simp), List.map_cons, outcome_passes (.inr rfl),
    List.map_cons, outcome_fails (.inr rfl)]
  · simp [charGroupIn_charGroupOf, noDigit]
  · simp [charGroupIn_charGroupOf, noSign]

end FirstCharacter

/-- A word that can be a label. -/
def IsIdentifier (w : CStr) : Prop :=
  ∃ c rest, w = c :: rest ∧ isLabelStart c ∧ ∀ d ∈ rest, isLabelChar d

/-- Nothing follows, or an end of line, a blank or a comma. -/
def Separated (after : CStr) : Prop := ∀ c ∈ after.head?, c ∈ ['\n', ' ', '\t', ',']

section Characters

variable {c : Char} {w after word : CStr}

/-- Characters are ordered by their codes. -/
theorem toNat_le_toNat {d : Char} (le : c ≤ d) : c.toNat ≤ d.toNat := by
  simpa [Char.le_def, UInt32.le_iff_toNat_le] using le

/-- The characters of a label have seven bits. -/
theorem toNat_lt_of_isLabelChar (inLabel : isLabelChar c) : c.toNat < 128 := by
  -- Letters, digits, the underscore and the dot all have seven bits.
  simp only [isLabelChar, isLabelStart, isDecimalDigit, decide_eq_true_eq] at inLabel
  rcases inLabel with (⟨-, le⟩ | ⟨-, le⟩ | rfl | rfl) | ⟨-, le⟩
  · exact (toNat_le_toNat le).trans_lt (by decide)
  · exact (toNat_le_toNat le).trans_lt (by decide)
  · decide
  · decide
  · exact (toNat_le_toNat le).trans_lt (by decide)

/-- What a label can begin with can also stand inside. -/
theorem isLabelChar_of_isLabelStart (first : isLabelStart c) : isLabelChar c := by
  simp [isLabelChar, first]

/-- No label begins with a digit. -/
theorem isDecimalDigit_of_isLabelStart (first : isLabelStart c) : isDecimalDigit c = false := by
  -- The codes of the digits are below those of the letters.
  refine Bool.eq_false_iff.mpr fun digit => ?_
  simp only [isDecimalDigit, decide_eq_true_eq] at digit
  simp only [isLabelStart, decide_eq_true_eq] at first
  have least := toNat_le_toNat digit.1
  have most := toNat_le_toNat digit.2
  rcases first with ⟨lower, -⟩ | ⟨upper, -⟩ | rfl | rfl
  · exact absurd ((toNat_le_toNat lower).trans most) (by decide)
  · exact absurd ((toNat_le_toNat upper).trans most) (by decide)
  · exact absurd most (by decide)
  · exact absurd least (by decide)

/-- An identifier is not empty. -/
theorem IsIdentifier.ne_nil (identifier : IsIdentifier w) : w ≠ [] := by
  obtain ⟨c, rest, rfl, -, -⟩ := identifier
  exact List.cons_ne_nil c rest

/-- All characters of an identifier can stand in a label. -/
theorem IsIdentifier.inLabel (identifier : IsIdentifier w) : ∀ c ∈ w, isLabelChar c := by
  obtain ⟨c, rest, rfl, first, others⟩ := identifier
  exact List.forall_mem_cons.mpr ⟨isLabelChar_of_isLabelStart first, others⟩

/-- An identifier has no terminator inside. -/
theorem IsIdentifier.noNull (identifier : IsIdentifier w) : '\x00' ∉ w := by
  intro mem
  exact absurd (identifier.inLabel _ mem) (by decide)

/-- A separator is in no label. -/
theorem isLabelChar_separator (separator : c ∈ ['\n', ' ', '\t', ',']) : isLabelChar c = false := by
  simp only [List.mem_cons, List.not_mem_nil, or_false] at separator
  rcases separator with rfl | rfl | rfl | rfl <;> decide

/-- A separator keeps what stands before it apart from what follows. -/
theorem separated_cons (separator : c ∈ ['\n', ' ', '\t', ',']) (rest : CStr) :
    Separated (c :: rest) := by
  intro d isHead
  obtain rfl := Option.some.inj isHead
  exact separator

/-- A word of a label stands at the beginning of one, whatever separates it from the rest. -/
theorem prefix_append_iff (inLabel : ∀ c ∈ word, isLabelChar c) (separated : Separated after) :
    word <+: w ++ after ↔ word <+: w := by
  -- A word that begins the whole is shorter than the label, or goes on behind it.
  refine ⟨fun begins => ?_, fun begins => begins.trans (List.prefix_append w after)⟩
  rcases List.prefix_or_prefix_of_prefix begins (List.prefix_append w after) with shorter | longer
  · exact shorter
  · obtain ⟨more, rfl⟩ := longer
    have beyond : more <+: after := (List.prefix_append_right_inj w).mp begins
    cases more with
    | nil => simp
    | cons c more =>
      -- The word would go on with the separator.
      obtain ⟨behind, rfl⟩ := beyond
      have separator := isLabelChar_separator (separated c rfl)
      rw [inLabel c (by simp)] at separator
      cases separator

end Characters

section Identifiers

variable {w after : CStr}

/-- The groups of a label take all of an identifier, and their run is still open behind it. -/
theorem outcome_label (identifier : IsIdentifier w) (places : List (Place Char)) (after : CStr) :
    outcome ((charGroupOf isLabelStart .nop).placeIn ::
        (charGroupOf isLabelChar .zom).placeIn :: places) (w ++ after) =
      outcome ((charGroupOf isLabelChar .zom).placeIn.openRun :: places) after := by
  -- The first group takes a character, and the run takes the others.
  obtain ⟨c, rest, rfl, first, others⟩ := identifier
  have accepts : ∀ d ∈ rest, (charGroupOf isLabelChar .zom).placeIn.accepts d := by
    intro d mem
    simp [CharGroup.placeIn, charGroupIn_charGroupOf, others d mem,
      toNat_lt_of_isLabelChar (others d mem)]
  have takes : charGroupIn (charGroupOf isLabelStart .nop) c := by
    simp [charGroupIn_charGroupOf, first,
      toNat_lt_of_isLabelChar (isLabelChar_of_isLabelStart first)]
  rw [List.cons_append, outcome_takes (.inl rfl) takes]
  exact outcome_openRun accepts after

/-- The run of a label ends at a separator. -/
theorem outcome_label_ends {places : List (Place Char)} {c : Char} {behind : CStr}
    (other : isLabelChar c = false) :
    outcome ((charGroupOf isLabelChar .zom).placeIn.openRun :: places) (c :: behind) =
      outcome places (c :: behind) := by
  apply outcome_openRun_ends
  simp [CharGroup.placeIn, charGroupIn_charGroupOf, other]

/-- A reference takes the identifier. -/
theorem reMatch_labelReference (identifier : IsIdentifier w) (separated : Separated after) :
    reMatch labelReference (w ++ after) = some (some after) := by
  have groups : labelReference = ⟨"symbole::label",
      [charGroupOf isLabelStart .nop, charGroupOf isLabelChar .zom].map some⟩ := rfl
  rw [groups, reMatch_map_some _ _ (by simp), List.map_cons, List.map_cons, List.map_nil,
    outcome_label identifier]
  -- The run ends with the source, or at the separator.
  cases after with
  | nil => rw [outcome_last_run, List.dropWhile_nil]
  | cons c behind =>
    rw [outcome_label_ends (isLabelChar_separator (separated c rfl)), outcome_no_places]

/-- A definition does not match an identifier without its colon. -/
theorem reMatch_labelDefinition (identifier : IsIdentifier w) (separated : Separated after) :
    reMatch labelDefinition (w ++ after) = some none := by
  have groups : labelDefinition = ⟨"label", [charGroupOf isLabelStart .nop,
      charGroupOf isLabelChar .zom, charGroupSingleChar ':' false .nop].map some⟩ := rfl
  rw [groups, reMatch_map_some _ _ (by simp), List.map_cons, List.map_cons, List.map_cons,
    List.map_nil, outcome_label identifier]
  -- The colon is needed, and neither the end nor a separator is one.
  cases after with
  | nil => rfl
  | cons c behind =>
    have noColon : c ≠ ':' := by
      rintro rfl
      exact absurd (separated ':' rfl) (by decide)
    rw [outcome_label_ends (isLabelChar_separator (separated c rfl)), outcome_fails (.inl rfl)]
    simp [charGroupIn_single (show ':'.toNat < 128 by decide), noColon]

/-- A definition takes the identifier and its colon. -/
theorem reMatch_labelDefinition_colon (identifier : IsIdentifier w) (behind : CStr) :
    reMatch labelDefinition (w ++ ':' :: behind) = some (some behind) := by
  -- A colon is in no label, so the run ends at it.
  have groups : labelDefinition = ⟨"label", [charGroupOf isLabelStart .nop,
      charGroupOf isLabelChar .zom, charGroupSingleChar ':' false .nop].map some⟩ := rfl
  rw [groups, reMatch_map_some _ _ (by simp), List.map_cons, List.map_cons, List.map_cons,
    List.map_nil, outcome_label identifier, outcome_label_ends (by decide),
    outcome_takes (.inl rfl) (by decide), outcome_no_places]

/--
A letter and a group that needs a character match where an identifier begins with both.

At the end of the source, a run is taken for one that has begun.
-/
theorem reMatch_letter (name : CStr) {letter : Char} {holds : Char → Bool} {operator : Operator}
    (needs : operator = .nop ∨ operator = .oom) (letterInLabel : isLabelChar letter)
    (inLabel : ∀ d, holds d → isLabelChar d) (identifier : IsIdentifier w)
    (separated : Separated after) :
    reMatch ⟨name, [some (charGroupSingleChar letter false .nop),
        some (charGroupOf holds operator)]⟩ (w ++ after) = some none ↔
      (∀ d, holds d → ¬ [letter, d] <+: w) ∧ ¬ (operator = .oom ∧ w = [letter] ∧ after = []) := by
  obtain ⟨c, rest, rfl, -, -⟩ := identifier
  have groups := reMatch_map_some name [charGroupSingleChar letter false .nop,
    charGroupOf holds operator] (by simp) (c :: rest ++ after)
  simp only [List.map_cons, List.map_nil] at groups
  have inGroup := charGroupIn_single (toNat_lt_of_isLabelChar letterInLabel) .nop c
  rw [groups, List.cons_append, Option.some.injEq]
  -- Only an identifier that begins with the letter can be matched.
  by_cases same : c = letter
  · rw [outcome_takes (.inl rfl) (inGroup.trans (decide_eq_true same))]
    cases rest with
    | cons d rest =>
      -- The second character is one of the identifier.
      rw [List.cons_append]
      by_cases member : holds d
      · have accepts : charGroupIn (charGroupOf holds operator) d := by
          simp [charGroupIn_charGroupOf, member, toNat_lt_of_isLabelChar (inLabel d member)]
        have found : outcome [(charGroupOf holds operator).placeIn] (d :: (rest ++ after)) ≠
            none := by
          rcases needs with rfl | rfl
          · rw [outcome_takes (.inl rfl) accepts, outcome_no_places]
            exact Option.some_ne_none _
          · -- The run is begun, whatever it leaves.
            rw [outcome_of_accepts_run rfl accepts, outcome_last_run]
            exact Option.some_ne_none _
        refine ⟨fun fails => absurd fails found, fun ⟨none_begins, _⟩ => ?_⟩
        exact absurd (by simp [same]) (none_begins d member)
      · rw [outcome_fails needs (by simp [charGroupIn_charGroupOf, member])]
        refine ⟨fun _ => ⟨?_, by simp⟩, fun _ => rfl⟩
        intro e isMember begins
        simp only [List.cons_prefix_cons, List.nil_prefix, and_true] at begins
        exact member (begins.2 ▸ isMember)
    | nil =>
      -- A separator is no second character, and neither is the end of the source.
      have short : ∀ d, holds d → ¬ [letter, d] <+: [c] := by simp
      cases after with
      | nil =>
        rcases needs with rfl | rfl <;>
          simp [outcome_nil, passesAtEnd, Place.takesRun, CharGroup.placeIn, charGroupOf,
            Operator.count, same]
      | cons d behind =>
        have other := isLabelChar_separator (separated d rfl)
        have rejects : holds d = false := Bool.eq_false_iff.mpr fun member => by
          rw [inLabel d member] at other
          cases other
        rw [List.nil_append, outcome_fails needs (by simp [charGroupIn_charGroupOf, rejects])]
        exact ⟨fun _ => ⟨short, by simp⟩, fun _ => rfl⟩
  · rw [outcome_fails (.inl rfl) (inGroup.trans (decide_eq_false same))]
    simp [Ne.symm same, same]

/-- A register of a letter and one more character matches where both stand. -/
theorem reMatch_lettredRegister {letter : Char} {holds : Char → Bool}
    (letterInLabel : isLabelChar letter) (inLabel : ∀ d, holds d → isLabelChar d)
    (identifier : IsIdentifier w) (separated : Separated after) :
    reMatch (lettredRegister letter holds) (w ++ after) = some none ↔
      ∀ d, holds d → ¬ [letter, d] <+: w := by
  have general := reMatch_letter "symbole::register" (.inl rfl) letterInLabel inLabel identifier
    separated
  simp only [reduceCtorEq, false_and, not_false_eq_true, and_true] at general
  exact general

/-- A numbered register matches a letter and a digit, or the letter alone at the end. -/
theorem reMatch_numberedRegister (identifier : IsIdentifier w) (separated : Separated after) :
    reMatch numberedRegister (w ++ after) = some none ↔
      (∀ d, isDecimalDigit d → ¬ ['r', d] <+: w) ∧ ¬ (w = ['r'] ∧ after = []) := by
  have inLabel : ∀ d, isDecimalDigit d → isLabelChar d := fun d digit => by
    simp [isLabelChar, digit]
  have general := reMatch_letter "symbole::register" (.inr rfl) (show isLabelChar 'r' by decide)
    inLabel identifier separated
  simp only [true_and] at general
  exact general

end Identifiers

end MiniRiscV
