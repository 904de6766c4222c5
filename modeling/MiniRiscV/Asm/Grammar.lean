import MiniRiscV.Asm.Program
import MiniRiscV.Lib.Alternatives

/-! The grammar at the head of `parser.c`, as a language of lexeme types, and what is accepted. -/

open scoped Computability

namespace MiniRiscV

/-- The lexeme types that `database.txt` names, in its order. -/
def typeNames : List String :=
  ["blank", "newline", "comment", "comma", "label", "insn::NOP", "insn::ADDI", "insn::ADD",
    "insn::ANDI", "insn::AND", "insn::BEQ", "insn::SLLI", "insn::SRLI", "insn::SLL", "insn::SRL",
    "insn::ORI", "insn::OR", "insn::BNE", "insn::XORI", "insn::XOR", "insn::BGEU", "insn::BGE",
    "insn::SLTIU", "insn::SLTI", "insn::SLTU", "insn::SLT", "insn::SRAI", "insn::SRA",
    "insn::LUI", "insn::AUIPC", "insn::BLTU", "insn::BLT", "insn::LBU", "insn::LHU", "insn::LB",
    "insn::LH", "insn::LW", "insn::SB", "insn::SW", "insn::SH", "insn::JALR", "insn::JAL",
    "insn::SUB", "unsinsn::J", "unsinsn::LI", "unsinsn::MV", "unsinsn::BLE", "integer::dec",
    "symbole::register", "symbole::label", "paren::left", "paren::right"]

/-- Lexemes whose types are names of `database.txt`. -/
def Named (lexems : List Lexem) : Prop := ∀ lex ∈ lexems, ∃ name ∈ typeNames, lex.type = name

instance (lexems : List Lexem) : Decidable (Named lexems) :=
  inferInstanceAs (Decidable (∀ lex ∈ lexems, ∃ name ∈ typeNames, lex.type = name))

namespace Ebnf

open Language

def blank : List CStr := ["blank"]
def comma : List CStr := ["comma"]
def register : List CStr := ["symbole::register"]
def integer : List CStr := ["integer::dec"]
def symbol : List CStr := ["symbole::label"]
def left : List CStr := ["paren::left"]
def right : List CStr := ["paren::right"]

/-- The mnemonics of `<insn-imm>`. -/
def immMnemonics : List CStr :=
  ["insn::ADDI", "insn::ANDI", "insn::SLLI", "insn::SRLI", "insn::ORI", "insn::XORI",
    "insn::SLTI", "insn::SLTIU", "insn::SRAI"]

def insnRegreg : List (List CStr) :=
  [["insn::ADD", "insn::AND", "insn::SLL", "insn::SRL", "insn::OR", "insn::XOR", "insn::SLT",
    "insn::SLTU", "insn::SRA", "insn::SUB"], blank, register, comma, register, comma, register]

def insnImm : List (List CStr) :=
  [immMnemonics, blank, register, comma, register, comma, integer]

def insnBranch : List (List CStr) :=
  [["insn::BEQ", "insn::BNE", "insn::BLT", "insn::BGE", "insn::BLTU", "insn::BGEU"], blank,
    register, comma, register, comma, symbol]

def insnLoad : List (List CStr) :=
  [["insn::LB", "insn::LH", "insn::LW", "insn::LBU", "insn::LHU"], blank, register, comma,
    integer, left, register, right]

def insnStore : List (List CStr) :=
  [["insn::SB", "insn::SH", "insn::SW"], blank, register, comma, integer, left, register, right]

def insnJal : List (List CStr) := [["insn::JAL"], blank, register, comma, symbol]

def insnJalr : List (List CStr) :=
  [["insn::JALR"], blank, register, comma, register, comma, symbol]

def insnUpper : List (List CStr) :=
  [["insn::LUI", "insn::AUIPC"], blank, register, comma, integer]

def unsinsnJ : List (List CStr) := [["unsinsn::J"], blank, symbol]

def unsinsnLi : List (List CStr) := [["unsinsn::LI"], blank, register, comma, integer]

def unsinsnMv : List (List CStr) := [["unsinsn::MV"], blank, register, comma, register]

def unsinsnBle : List (List CStr) :=
  [["unsinsn::BLE"], blank, register, comma, register, comma, symbol]

/-- The alternatives of `<instruction>`, with those of `<unsninsn>`. -/
def instruction : List (List (List CStr)) :=
  [insnRegreg, insnImm, insnBranch, insnLoad, insnStore, insnJal, insnJalr, insnUpper, unsinsnJ,
    unsinsnLi, unsinsnMv, unsinsnBle]

/-- Two forms of instruction that are not of the grammar: a register in place of the integer. -/
def looseForms : List (List (List CStr)) :=
  [[immMnemonics, blank, register, comma, register, comma, register],
    [["insn::JALR"], blank, register, comma, symbol]]

/-- A terminal. -/
def terminal (type : CStr) : Language CStr := ofTerms [[type]]

/-- `<code-line>`, over some forms of instruction. -/
def codeLine (forms : List (List (List CStr))) : Language CStr :=
  alternatives forms + terminal "label"

/-- One end of line, with the blanks and the comment around it. -/
def endOfLine : Language CStr :=
  optionally (terminal "blank") * optionally (terminal "comment") * terminal "newline" *
    optionally (terminal "blank")

/-- `<eol>`. -/
def eol : Language CStr := endOfLine∗

/-- `<code>`, with the first `<code-line>` optional. -/
def code (forms : List (List (List CStr))) : Language CStr :=
  optionally (terminal "comment") * optionally (codeLine forms) * eol *
    (optionally (codeLine forms) * eol)∗

/-- Some instruction of a text has one of the two forms that are not of the grammar. -/
def HasLooseForm (types : List CStr) : Prop :=
  ∃ before form after, form ∈ alternatives looseForms ∧ types = before ++ form ++ after

end Ebnf

section Words

open Language Ebnf

/-- The words of an end of line. -/
def endWords : List (List CStr) :=
  let blanks : List (List CStr) := [[], ["blank"]]
  let comments : List (List CStr) := [[], ["comment"]]
  blanks.flatMap fun before => comments.flatMap fun comment =>
    blanks.map fun after => before ++ comment ++ ["newline".toList] ++ after

/-- The words of one item of a program, over some forms of instruction. -/
def itemWords (forms : List (List (List CStr))) : List (List CStr) :=
  spellings forms ++ (["label"] : List CStr) :: endWords

/-- A terminal has one word, of the one type. -/
theorem mem_terminal {type : CStr} {word : List CStr} :
    word ∈ terminal type ↔ word = [type] := by
  change List.Forall₂ _ word [[type]] ↔ _
  simp [List.forall₂_cons_right_iff]

/-- The words of an end of line are listed. -/
theorem mem_endOfLine {word : List CStr} : word ∈ endOfLine ↔ word ∈ endWords := by
  -- Both sides choose the two blanks and the comment.
  simp only [endOfLine, mem_mul, mem_optionally, mem_terminal, endWords, List.mem_flatMap,
    List.mem_map, List.mem_cons, List.not_mem_nil, or_false]
  constructor
  · rintro ⟨_, ⟨_, ⟨before, blank, comment, isComment, rfl⟩, _, rfl, rfl⟩, after, blank', rfl⟩
    exact ⟨before, blank, comment, isComment, after, blank', rfl⟩
  · rintro ⟨before, blank, comment, isComment, after, blank', rfl⟩
    exact ⟨_, ⟨_, ⟨before, blank, comment, isComment, rfl⟩, _, rfl, rfl⟩, after, blank', rfl⟩

/-- The words of a line of code are those of its forms and the ends of lines. -/
theorem mem_item {forms : List (List (List CStr))} {word : List CStr} :
    word ∈ codeLine forms + endOfLine ↔ word ∈ itemWords forms := by
  rw [codeLine, mem_add, mem_add, mem_alternatives, mem_terminal, mem_endOfLine, itemWords,
    List.mem_append, List.mem_cons, or_assoc]

/-- A program is a sequence of items behind an optional comment. -/
theorem code_eq (forms : List (List (List CStr))) :
    code forms = optionally (terminal "comment") * (codeLine forms + endOfLine)∗ := by
  rw [code, mul_assoc, mul_assoc, eol, ← mul_assoc (optionally (codeLine forms)), optionally,
    optionally, optionally_kstar_eq]

/-- The type names that begin with a name. -/
def begun (type : String) : List CStr :=
  (typeNames.map String.toList).filter (type.toList.isPrefixOf ·)

/-- The words of the productions are those of the forms, but for those of `ble`. -/
theorem spellings_productions :
    (∀ prod ∈ productions, ∀ word ∈ List.sections (prod.terms.map (·.flatMap begun)),
      word ∈ spellings (instruction ++ looseForms)) ∧
    ∀ word ∈ spellings (instruction ++ looseForms), "unsinsn::BLE".toList ∈ word ∨
      ∃ prod ∈ productions, word ∈ List.sections (prod.terms.map (·.flatMap begun)) := by
  -- Finitely many words, each looked up on the other side.
  decide +kernel

end Words

section Acceptance

open Language Ebnf

/-- The types of some lexemes. -/
abbrev types (lexems : List Lexem) : List CStr := lexems.map Lexem.type

/-- The forms of instruction that the parser reads. -/
abbrev readForms : List (List (List CStr)) := instruction ++ looseForms

variable {lex : Lexem} {lexems rest : List Lexem} {addr addr' : ℤ} {lines : List AsmLine}

/-- For a named lexeme, the prefix test asks for one of the types that begin so. -/
theorem lexemType_iff_begun (named : ∃ name ∈ typeNames, lex.type = name) (type : String) :
    lexemType lex type ↔ lex.type ∈ begun type := by
  obtain ⟨name, mem, same⟩ := named
  rw [begun, List.mem_filter, lexemType, List.mem_map]
  exact ⟨fun begins => ⟨⟨name, mem, same.symm⟩, begins⟩, And.right⟩

/-- A type name with which no other begins stands for itself only. -/
theorem lexemType_iff {type : String} (named : ∃ name ∈ typeNames, lex.type = name)
    (alone : begun type = [type.toList]) : lexemType lex type ↔ lex.type = type.toList := by
  rw [lexemType_iff_begun named, alone, List.mem_singleton]

/-- Lexemes fit the terms when their types are in the words of these. -/
theorem fit_iff {terms : List (List String)} (named : Named lexems) :
    Fit terms lexems ↔ types lexems ∈ ofTerms (terms.map (·.flatMap begun)) := by
  -- By induction on the terminals, with the types that begin like each of them.
  change _ ↔ List.Forall₂ _ (types lexems) (terms.map (·.flatMap begun))
  induction terms generalizing lexems with
  | nil => simp [List.forall₂_nil_left_iff, List.forall₂_nil_right_iff]
  | cons names terms ih =>
    cases lexems with
    | nil => simp
    | cons lex lexems =>
      rw [Named, List.forall_mem_cons] at named
      rw [Fit, types, List.map_cons, List.map_cons, List.forall₂_cons, List.forall₂_cons]
      refine and_congr ?_ (ih named.2)
      simp only [List.any_eq_true, List.mem_flatMap, lexemType_iff_begun named.1]

/-- The instructions that are read are those of the grammar and those of the two loose forms. -/
theorem insn_iff (named : Named lexems)
    (noBle : ∀ lex ∈ lexems, lex.type ≠ "unsinsn::BLE".toList) :
    (∃ prod ∈ productions, Fit prod.terms lexems) ↔ types lexems ∈ alternatives readForms := by
  -- The words of the productions and of the grammar are the same, but for the missing one.
  simp only [fit_iff named]
  rw [mem_alternatives]
  constructor
  · rintro ⟨prod, mem, word⟩
    exact spellings_productions.1 prod mem _ (List.mem_sections.mpr word)
  · intro word
    rcases spellings_productions.2 _ word with ble | ⟨prod, mem, word⟩
    · obtain ⟨lex, mem, same⟩ := List.mem_map.mp ble
      exact absurd same (noBle lex mem)
    · exact ⟨prod, mem, List.mem_sections.mp word⟩

/-- The lexemes behind a skipped one are still named. -/
theorem Named.skip (named : Named lexems) (type : String) : Named (skip type lexems) := by
  unfold MiniRiscV.skip
  split
  · exact fun lex mem => named lex (List.mem_of_mem_tail mem)
  · exact named

/-- What is skipped is an optional terminal. -/
theorem skip_word {type : String} (named : Named lexems) (alone : begun type = [type.toList]) :
    ∃ word ∈ optionally (terminal type), types lexems = word ++ types (skip type lexems) := by
  -- The lexeme is skipped and read, or neither.
  cases lexems with
  | nil => exact ⟨[], mem_optionally.mpr (.inl rfl), rfl⟩
  | cons lex lexems =>
    by_cases isType : lexemType lex type
    · refine ⟨[type.toList], mem_optionally.mpr (.inr (mem_terminal.mpr rfl)), ?_⟩
      have same := (lexemType_iff (named lex List.mem_cons_self) alone).mp isType
      simp [skip, startsWith, isType, same]
    · exact ⟨[], mem_optionally.mpr (.inl rfl), by simp [skip, startsWith, isType]⟩

/-- An optional terminal is skipped, when no other of its type comes behind it. -/
theorem types_skip {type : String} {word behind : List CStr} (named : Named lexems)
    (alone : begun type = [type.toList]) (mem : word ∈ optionally (terminal type))
    (split : types lexems = word ++ behind) (other : ∀ next ∈ behind.head?, next ≠ type.toList) :
    types (skip type lexems) = behind := by
  -- The word is empty and what follows is of another type, or it is the lexeme.
  rcases mem_optionally.mp mem with rfl | mem
  · cases lexems with
    | nil => exact split
    | cons lex lexems =>
      have noType : ¬ lexemType lex type := fun isType =>
        other lex.type (by rw [← List.nil_append behind, ← split]; rfl)
          ((lexemType_iff (named lex List.mem_cons_self) alone).mp isType)
      simpa [skip, startsWith, noType] using split
  · obtain rfl := mem_terminal.mp mem
    obtain ⟨lex, lexems, rfl, same, rfl⟩ := List.map_eq_cons_iff.mp split
    have isType := (lexemType_iff (named lex List.mem_cons_self) alone).mpr same
    simp [skip, startsWith, isType]

/-- No other type name begins with that of a label or of a lexeme of an end of line. -/
theorem begun_alone : ∀ type ∈ "label" :: endTypes, begun type = [type.toList] := by
  decide +kernel

/-- No other type begins like a blank. -/
theorem begun_blank : begun "blank" = ["blank".toList] := begun_alone _ (by simp [endTypes])

/-- No other type begins like a comment. -/
theorem begun_comment : begun "comment" = ["comment".toList] := begun_alone _ (by simp [endTypes])

/-- No other type begins like a newline. -/
theorem begun_newline : begun "newline" = ["newline".toList] := begun_alone _ (by simp [endTypes])

/-- No other type begins like the definition of a label. -/
theorem begun_label : begun "label" = ["label".toList] := begun_alone _ (by simp [endTypes])

/-- An end of line that is read has the types of one. -/
theorem readEnd_word (named : Named lexems) (ends : readEnd lexems = some rest) :
    ∃ word ∈ endOfLine, types lexems = word ++ types rest := by
  -- Each part of the end of line is read as its symbol, or is empty on both sides.
  obtain ⟨before, isBlank, split⟩ := skip_word named begun_blank
  have named' := named.skip "blank"
  obtain ⟨comment, isComment, split'⟩ := skip_word named' begun_comment
  have named'' := named'.skip "comment"
  unfold readEnd at ends
  split at ends
  case h_2 => cases ends
  case h_1 lex behind shape =>
    rw [shape] at split' named''
    split at ends
    case isFalse => cases ends
    case isTrue isNewline =>
      cases ends
      have newline := (lexemType_iff (named'' lex List.mem_cons_self) begun_newline).mp isNewline
      obtain ⟨after, isBlank', split''⟩ :=
        skip_word (fun lex mem => named'' lex (List.mem_cons_of_mem _ mem)) begun_blank
      refine ⟨before ++ comment ++ ["newline".toList] ++ after, append_mem_mul (append_mem_mul
        (append_mem_mul isBlank isComment) (mem_terminal.mpr rfl)) isBlank', ?_⟩
      rw [split, split', types, List.map_cons, newline, show behind.map Lexem.type = _ from split'']
      simp

/-- Skipping leaves a rest of the lexemes. -/
theorem skip_suffix (type : String) (lexems : List Lexem) : skip type lexems <:+ lexems := by
  obtain ⟨before, split, -⟩ := skip_split type lexems
  exact ⟨before, split.symm⟩

/-- An end of line leaves a rest of the lexemes. -/
theorem readEnd_suffix (ends : readEnd lexems = some rest) : rest <:+ lexems := by
  obtain ⟨before, split, -⟩ := readEnd_split ends
  exact ⟨before, split.symm⟩

/-- The types of an end of line are read as one, with a blank behind it that it may leave. -/
theorem readEnd_of_word {word behind : List CStr} (named : Named lexems) (mem : word ∈ endOfLine)
    (split : types lexems = word ++ behind) :
    ∃ rest, rest <:+ lexems ∧ types rest = behind ∧
      (readEnd lexems = some rest ∨ readEnd lexems = some (skip "blank" rest)) := by
  obtain ⟨_, ⟨_, ⟨before, isBlank, comment, isComment, rfl⟩, _, isNewline, rfl⟩, after, isBlank',
    rfl⟩ := mem
  obtain rfl := mem_terminal.mp isNewline
  -- The blank is skipped when it is there, as the comment or the newline is no blank.
  have first : types (skip "blank" lexems) = comment ++ "newline".toList :: (after ++ behind) := by
    refine types_skip named begun_blank isBlank (by simpa using split) fun next isNext => ?_
    rcases mem_optionally.mp isComment with rfl | isComment
    · obtain rfl := Option.some.inj isNext
      decide
    · obtain rfl := mem_terminal.mp isComment
      obtain rfl := Option.some.inj isNext
      decide
  have second : types (skip "comment" (skip "blank" lexems)) =
      "newline".toList :: (after ++ behind) := by
    refine types_skip (named.skip "blank") begun_comment isComment first fun next isNext => ?_
    obtain rfl := Option.some.inj isNext
    decide
  obtain ⟨lex, rest, shape, same, left⟩ := List.map_eq_cons_iff.mp second
  have named' := (named.skip "blank").skip "comment"
  rw [shape] at named'
  have newline := (lexemType_iff (named' lex List.mem_cons_self) begun_newline).mpr same
  have ends : readEnd lexems = some (skip "blank" rest) := by simp [readEnd, shape, newline]
  have inside : rest <:+ lexems := by
    refine List.IsSuffix.trans ?_ ((skip_suffix "comment" _).trans (skip_suffix "blank" lexems))
    rw [shape]
    exact List.suffix_cons lex rest
  -- A blank behind the end belongs to it, or the parser takes one that does not.
  rcases mem_optionally.mp isBlank' with rfl | isBlank'
  · exact ⟨rest, inside, left, .inr ends⟩
  · obtain rfl := mem_terminal.mp isBlank'
    obtain ⟨next, rest, rfl, same, left⟩ := List.map_eq_cons_iff.mp left
    have blank := (lexemType_iff (named' next (by simp)) begun_blank).mpr same
    refine ⟨rest, (List.suffix_cons next rest).trans inside, left, .inl ?_⟩
    simpa [skip, startsWith, blank] using ends

/-- Skipping a blank or a comment in front of an end of line leaves an end of line. -/
theorem readEnd_skip {type : String} (isType : type = "blank" ∨ type = "comment")
    (ends : readEnd lexems = some rest) : readEnd (skip type lexems) = some rest := by
  cases lexems with
  | nil => cases ends
  | cons lex lexems =>
    by_cases starts : lexemType lex type
    case neg => simpa [skip, startsWith, starts] using ends
    case pos =>
      have passed : skip type (lex :: lexems) = lexems := by simp [skip, startsWith, starts]
      rw [passed]
      rcases isType with rfl | rfl
      · -- Behind a blank comes no other, as neither a comment nor a newline is one.
        cases lexems with
        | nil => simp [readEnd, skip, startsWith, starts] at ends
        | cons next behind =>
          by_cases blank : lexemType next "blank"
          · have comment : lexemType next "comment" = false :=
              lexemType_other (by simp [endTypes]) (by simp [endTypes]) (by simp) blank
            have newline : lexemType next "newline" = false :=
              lexemType_other (by simp [endTypes]) (by simp [endTypes]) (by simp) blank
            simp [readEnd, skip, startsWith, starts, comment, newline] at ends
          · simpa [readEnd, skip, startsWith, starts, blank] using ends
      · -- Behind a comment comes the newline.
        have noBlank : lexemType lex "blank" = false :=
          lexemType_other (by simp [endTypes]) (by simp [endTypes]) (by simp) starts
        cases lexems with
        | nil => simp [readEnd, skip, startsWith, starts, noBlank] at ends
        | cons next behind =>
          by_cases newline : lexemType next "newline"
          · have blank : lexemType next "blank" = false :=
              lexemType_other (by simp [endTypes]) (by simp [endTypes]) (by simp) newline
            have comment : lexemType next "comment" = false :=
              lexemType_other (by simp [endTypes]) (by simp [endTypes]) (by simp) newline
            simpa [readEnd, skip, startsWith, starts, noBlank, newline, blank, comment] using ends
          · simp [readEnd, skip, startsWith, starts, noBlank, newline] at ends

/-- What is skipped between items can be left out. -/
theorem items_skip {type : String} (isType : type = "blank" ∨ type = "comment")
    (items : Items lexems addr lines addr') : Items (skip type lexems) addr lines addr' := by
  -- A separator at the front begins an end of line, which is read without it as well.
  by_cases starts : startsWith [type] lexems
  · have starts' : startsWith endTypes lexems := by
      cases lexems with
      | nil => cases starts
      | cons lex lexems => rcases isType with rfl | rfl <;> simp_all [startsWith, endTypes]
    obtain ⟨rest, ends, items⟩ := (items_end_iff starts').mp items
    exact .eol (readEnd_skip isType ends) items
  · simpa [skip, starts] using items

/-- The items of a program have the types of items. -/
theorem Items.mem_kstar (named : Named lexems)
    (noBle : ∀ lex ∈ lexems, lex.type ≠ "unsinsn::BLE".toList)
    (items : Items lexems addr lines addr') :
    types lexems ∈ (codeLine readForms + endOfLine)∗ := by
  -- By induction on the items, each of which is a line or an end of line.
  induction items with
  | nil => exact nil_mem_kstar _
  | label isLabel _ ih =>
    have label := (lexemType_iff (named _ List.mem_cons_self) begun_label).mp isLabel
    rw [Named, List.forall_mem_cons] at named
    rw [List.forall_mem_cons] at noBle
    rw [types, List.map_cons, label]
    exact append_mem_kstar (.inl (.inr (mem_terminal.mpr rfl))) (ih named.2 noBle.2)
  | insn mem matched _ ih =>
    obtain ⟨rfl, fit⟩ := matchTerms_eq_some.mp matched
    rw [Named, List.forall_mem_append] at named
    rw [List.forall_mem_append] at noBle
    rw [types, List.map_append]
    exact append_mem_kstar (.inl (.inl ((insn_iff named.1 noBle.1).mp ⟨_, mem, fit⟩)))
      (ih named.2 noBle.2)
  | eol ends _ ih =>
    obtain ⟨word, mem, split⟩ := readEnd_word named ends
    have inside := (readEnd_suffix ends).subset
    rw [split]
    exact append_mem_kstar (.inr mem)
      (ih (fun lex mem => named lex (inside mem)) fun lex mem => noBle lex (inside mem))

/-- Lexemes with the types of items are items. -/
theorem items_of_mem_kstar (named : Named lexems)
    (noBle : ∀ lex ∈ lexems, lex.type ≠ "unsinsn::BLE".toList)
    (mem : types lexems ∈ (codeLine readForms + endOfLine)∗) (addr : ℤ) :
    ∃ lines addr', Items lexems addr lines addr' := by
  obtain ⟨words, split, each⟩ := mem_kstar.mp mem
  clear mem
  -- Induction on the words, each of which takes its lexemes off the list.
  induction words generalizing lexems addr with
  | nil =>
    obtain rfl := List.map_eq_nil_iff.mp split
    exact ⟨[], addr, .nil⟩
  | cons word words ih =>
    rw [List.forall_mem_cons] at each
    rcases each.1 with (isInsn | isLabel) | isEnd
    · obtain ⟨taken, rest, rfl, rfl, behind⟩ := List.map_eq_append_iff.mp split
      rw [Named, List.forall_mem_append] at named
      rw [List.forall_mem_append] at noBle
      obtain ⟨prod, mem, fit⟩ := (insn_iff named.1 noBle.1).mpr isInsn
      obtain ⟨lines, addr', items⟩ := ih named.2 noBle.2
        (addr + 4 * (prod.emit taken addr).length) behind each.2
      exact ⟨_, addr', .insn mem (matchTerms_eq_some.mpr ⟨rfl, fit⟩) items⟩
    · obtain rfl := mem_terminal.mp isLabel
      obtain ⟨lex, rest, rfl, same, behind⟩ := List.map_eq_cons_iff.mp split
      have label := (lexemType_iff (named lex List.mem_cons_self) begun_label).mpr same
      rw [Named, List.forall_mem_cons] at named
      rw [List.forall_mem_cons] at noBle
      obtain ⟨lines, addr', items⟩ := ih named.2 noBle.2 addr behind each.2
      exact ⟨_, addr', .label label items⟩
    · obtain ⟨rest, inside, behind, ends⟩ := readEnd_of_word named isEnd split
      obtain ⟨lines, addr', items⟩ := ih (fun lex mem => named lex (inside.subset mem))
        (fun lex mem => noBle lex (inside.subset mem)) addr behind each.2
      rcases ends with ends | ends
      · exact ⟨lines, addr', .eol ends items⟩
      · exact ⟨lines, addr', .eol ends (items_skip (.inl rfl) items)⟩

/-- Behind an optional comment, skipping a comment leaves the rest. -/
theorem mem_code_iff (named : Named lexems)
    (noBle : ∀ lex ∈ lexems, lex.type ≠ "unsinsn::BLE".toList) :
    types lexems ∈ code readForms ↔
      ∃ lines addr', Items (skip "comment" lexems) addr lines addr' := by
  have inside := (skip_suffix "comment" lexems).subset
  have noBle' : ∀ lex ∈ skip "comment" lexems, lex.type ≠ "unsinsn::BLE".toList :=
    fun lex mem => noBle lex (inside mem)
  rw [code_eq]
  -- A comment in front of the code is skipped by the parser and read by the grammar.
  constructor
  · rintro ⟨comment, isComment, word, mem, split⟩
    rcases mem_optionally.mp isComment with rfl | isComment
    · obtain ⟨lines, addr', items⟩ := items_of_mem_kstar named noBle (split ▸ mem) addr
      exact ⟨lines, addr', items_skip (.inr rfl) items⟩
    · obtain rfl := mem_terminal.mp isComment
      obtain ⟨lex, rest, rfl, same, rfl⟩ := List.map_eq_cons_iff.mp split.symm
      have starts := (lexemType_iff (named lex List.mem_cons_self) begun_comment).mpr same
      have passed : skip "comment" (lex :: rest) = rest := by simp [skip, startsWith, starts]
      have named' := named.skip "comment"
      rw [passed] at noBle' named' ⊢
      exact items_of_mem_kstar named' noBle' mem addr
  · rintro ⟨lines, addr', items⟩
    obtain ⟨word, isComment, split⟩ := skip_word named begun_comment
    rw [split]
    exact append_mem_mul isComment (items.mem_kstar (named.skip "comment") noBle')

/-- The parser accepts the grammar with the two loose forms of instruction added. -/
theorem parseCode_iff_mem_code (depth : CStr) (verbose : Bool) {s : ParseState}
    (named : Named s.lexems) (noBle : ∀ lex ∈ s.lexems, lex.type ≠ "unsinsn::BLE".toList) :
    (parseCode depth verbose s).1 = some () ↔ types s.lexems ∈ code readForms := by
  rw [parseCode_accepts_iff, mem_code_iff named noBle]

end Acceptance

section LooseForms

open Language Ebnf

/-- No loose form is empty, or can begin inside an item of the grammar. -/
theorem itemWords_no_looseForm : [] ∉ spellings looseForms ∧
    ∀ word ∈ (["comment"] : List CStr) :: itemWords instruction, ∀ form ∈ spellings looseForms,
      ∀ k ∈ List.range word.length,
        ¬ form.isPrefixOf (word.drop k) ∧ ¬ (word.drop k).isPrefixOf form := by
  decide +kernel

/-- A sequence of items of the grammar has no loose form. -/
theorem not_hasLooseForm_flatten {words : List (List CStr)}
    (each : ∀ word ∈ words, word ∈ (["comment"] : List CStr) :: itemWords instruction) :
    ¬ HasLooseForm words.flatten := by
  induction words with
  | nil =>
    rintro ⟨before, form, after, isForm, split⟩
    obtain ⟨rfl, rfl, rfl⟩ : before = [] ∧ form = [] ∧ after = [] := by simpa using split.symm
    exact itemWords_no_looseForm.1 (mem_alternatives.mp isForm)
  | cons word words ih =>
    rw [List.forall_mem_cons] at each
    rintro ⟨before, form, after, isForm, split⟩
    rw [List.flatten_cons, List.append_assoc] at split
    have later : ∀ b, words.flatten = b ++ (form ++ after) → False := fun b split =>
      ih each.2 ⟨b, form, after, isForm, by rw [split, List.append_assoc]⟩
    rcases List.append_eq_append_iff.mp split with ⟨b, rfl, same⟩ | ⟨a, rfl, same⟩
    · exact later b same
    · cases a with
      | nil => exact later [] same.symm
      | cons head tail =>
        -- The form would begin inside this word.
        have check := itemWords_no_looseForm.2 _ each.1 form (mem_alternatives.mp isForm)
          before.length (by simp)
        rw [List.drop_left] at check
        rcases List.prefix_or_prefix_of_prefix (List.prefix_append form after)
          (same ▸ List.prefix_append (head :: tail) words.flatten) with shorter | longer
        · exact check.1 (List.isPrefixOf_iff_prefix.mpr shorter)
        · exact check.2 (List.isPrefixOf_iff_prefix.mpr longer)

/-- Of the texts that are accepted, those without a loose form are the texts of the grammar. -/
theorem mem_code_instruction_iff {word : List CStr} (mem : word ∈ code readForms) :
    word ∈ code instruction ↔ ¬ HasLooseForm word := by
  rw [code_eq] at mem ⊢
  constructor
  · rintro ⟨comment, isComment, _, ⟨words, rfl, each⟩, rfl⟩
    have items : ∀ word ∈ words, word ∈ (["comment"] : List CStr) :: itemWords instruction :=
      fun word mem => List.mem_cons_of_mem _ (mem_item.mp (each word mem))
    rcases mem_optionally.mp isComment with rfl | isComment
    · exact not_hasLooseForm_flatten items
    · obtain rfl := mem_terminal.mp isComment
      change ¬ HasLooseForm (["comment".toList] :: words).flatten
      exact not_hasLooseForm_flatten (List.forall_mem_cons.mpr ⟨List.mem_cons_self, items⟩)
  · intro noForm
    obtain ⟨comment, isComment, _, ⟨words, rfl, each⟩, rfl⟩ := mem
    refine append_mem_mul isComment ⟨words, rfl, fun word mem => ?_⟩
    rcases each word mem with (⟨form, isForm, spelled⟩ | isLabel) | isEnd
    · rcases List.mem_append.mp isForm with isForm | isLoose
      · exact .inl (.inl ⟨form, isForm, spelled⟩)
      · -- A word of a loose form would be part of the text.
        obtain ⟨before, after, rfl⟩ := List.append_of_mem mem
        exact absurd ⟨comment ++ before.flatten, word, after.flatten, ⟨form, isLoose, spelled⟩,
          by simp⟩ noForm
    · exact .inl (.inr isLabel)
    · exact .inr isEnd

/-- A text of the grammar is a text of the grammar with the loose forms. -/
theorem mem_code_readForms {word : List CStr} (mem : word ∈ code instruction) :
    word ∈ code readForms := by
  -- Every form of the grammar is one of the forms that are read.
  rw [code_eq] at mem ⊢
  obtain ⟨comment, isComment, _, ⟨words, rfl, each⟩, rfl⟩ := mem
  refine append_mem_mul isComment ⟨words, rfl, fun word mem => ?_⟩
  rcases each word mem with (⟨form, isForm, spelled⟩ | isLabel) | isEnd
  · exact .inl (.inl ⟨form, List.mem_append_left _ isForm, spelled⟩)
  · exact .inl (.inr isLabel)
  · exact .inr isEnd

/--
The parser accepts exactly its grammar unless a text uses an operand of the wrong type.

As a type is tested by its beginning only, `ADD` with three registers also reads `ADDI`, and `JAL`
with a register and a label also reads `JALR`. The programs with such an instruction are the only
ones on which the parser and its grammar disagree.
-/
theorem parseCode_grammar_iff (depth : CStr) (verbose : Bool) (s : ParseState)
    (named : Named s.lexems) (noBle : ∀ lex ∈ s.lexems, lex.type ≠ "unsinsn::BLE".toList) :
    ((parseCode depth verbose s).1 = some () ↔ types s.lexems ∈ code instruction) ↔
      ¬ (types s.lexems ∈ code (instruction ++ looseForms) ∧ HasLooseForm (types s.lexems)) := by
  -- Loose forms are the only difference between the two grammars.
  rw [parseCode_iff_mem_code depth verbose named noBle]
  constructor
  · rintro exact ⟨mem, form⟩
    exact (mem_code_instruction_iff mem).mp (exact.mp mem) form
  · intro noForm
    refine ⟨fun mem => ?_, mem_code_readForms⟩
    exact (mem_code_instruction_iff mem).mpr fun form => noForm ⟨mem, form⟩

/-- `addi r1,r2,r3`, which is accepted without being of the grammar. -/
def addiRegisters : List Lexem :=
  [lexemOf "insn::ADDI" "addi", lexemOf "blank" " ", lexemOf "symbole::register" "r1",
    lexemOf "comma" ",", lexemOf "symbole::register" "r2", lexemOf "comma" ",",
    lexemOf "symbole::register" "r3"]

/-- The parser accepts `addi` with three registers, which its grammar does not. -/
theorem parseCode_grammar_addi :
    Named addiRegisters ∧ (∀ lex ∈ addiRegisters, lex.type ≠ "unsinsn::BLE".toList) ∧
      (parseCode [] false (parseStart addiRegisters)).1 = some () ∧
      types addiRegisters ∉ code instruction := by
  -- The parser is run, and the form is looked up among the loose ones.
  have evaluated : Named addiRegisters ∧
      (∀ lex ∈ addiRegisters, lex.type ≠ "unsinsn::BLE".toList) ∧
      (parseCode [] false (parseStart addiRegisters)).1 = some () ∧
      types addiRegisters ∈ spellings looseForms := by
    decide +kernel
  obtain ⟨named, noBle, accepted, isForm⟩ := evaluated
  have form : HasLooseForm (types addiRegisters) :=
    ⟨[], types addiRegisters, [], mem_alternatives.mpr isForm, rfl⟩
  have mem := (parseCode_iff_mem_code (s := parseStart addiRegisters) [] false named noBle).mp
    accepted
  exact ⟨named, noBle, accepted, fun exact => (mem_code_instruction_iff mem).mp exact form⟩

/-- `li r1,5`. -/
def liFive : List Lexem :=
  [lexemOf "unsinsn::LI" "li", lexemOf "blank" " ", lexemOf "symbole::register" "r1",
    lexemOf "comma" ",", lexemOf "integer::dec" "5", lexemOf "newline" "\n"]

/-- `li r1,5` is accepted, and in the grammar, and has no loose form. -/
theorem parseCode_grammar_li :
    ((parseCode [] false (parseStart liFive)).1 = some () ↔ types liFive ∈ code instruction) ↔
      ¬ (types liFive ∈ code (instruction ++ looseForms) ∧ HasLooseForm (types liFive)) :=
  parseCode_grammar_iff [] false (parseStart liFive) (by decide +kernel) (by decide +kernel)

end LooseForms

end MiniRiscV
