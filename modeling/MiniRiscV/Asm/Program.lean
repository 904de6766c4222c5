import Mathlib.Data.List.Forall2
import MiniRiscV.Asm.Recogniser

/-! The lexemes of a program: labels, instructions and ends of line, one after the other. -/

namespace MiniRiscV

/-- The items of a program in sequence, the lines they stand for and the addresses around them. -/
inductive Items : List Lexem → ℤ → List AsmLine → ℤ → Prop where
  | nil {addr : ℤ} : Items [] addr [] addr
  | label {lex : Lexem} {rest : List Lexem} {addr addr' : ℤ} {lines : List AsmLine}
      (isLabel : lexemType lex "label") (items : Items rest addr lines addr') :
      Items (lex :: rest) addr (asmLineLabelAdd [] lex.value addr ++ lines) addr'
  | insn {prod : Production} {lexems taken rest : List Lexem} {addr addr' : ℤ}
      {lines : List AsmLine} (mem : prod ∈ productions)
      (matched : matchTerms prod.terms lexems = some (taken, rest))
      (items : Items rest (addr + 4 * (prod.emit taken addr).length) lines addr') :
      Items lexems addr (prod.emit taken addr ++ lines) addr'
  | eol {lexems rest : List Lexem} {addr addr' : ℤ} {lines : List AsmLine}
      (ends : readEnd lexems = some rest) (items : Items rest addr lines addr') :
      Items lexems addr lines addr'

section Types

/-- Two type names of which neither begins with the other. -/
def apart (type type' : String) : Bool :=
  !type.toList.isPrefixOf type'.toList && !type'.toList.isPrefixOf type.toList

/-- No lexeme is of two types that are apart, although a type is tested by its beginning only. -/
theorem lexemType_of_apart {lex : Lexem} {type type' : String} (separate : apart type type')
    (isType : lexemType lex type) : lexemType lex type' = false := by
  refine Bool.eq_false_iff.mpr fun isOther => ?_
  simp only [apart, Bool.and_eq_true, Bool.not_eq_true', ← Bool.not_eq_true,
    List.isPrefixOf_iff_prefix] at separate
  simp only [lexemType, List.isPrefixOf_iff_prefix] at isType isOther
  -- Of two beginnings of one text, one begins with the other.
  rcases List.prefix_or_prefix_of_prefix isType isOther with shorter | longer
  · exact separate.1 shorter
  · exact separate.2 longer

/-- A lexeme of a type is also of every type that the name of this one begins with. -/
theorem lexemType_of_begins {lex : Lexem} {type type' : String}
    (begins : type'.toList.isPrefixOf type.toList) (isType : lexemType lex type) :
    lexemType lex type' := by
  -- A beginning of a beginning is a beginning.
  rw [List.isPrefixOf_iff_prefix] at begins
  rw [lexemType, List.isPrefixOf_iff_prefix] at isType ⊢
  exact begins.trans isType

/-- Two sequences of terminals that disagree at some place. -/
def separated : List (List String) → List (List String) → Bool
  | types :: terms, types' :: terms' =>
    types.all (fun type => types'.all (apart type)) || separated terms terms'
  | _, _ => false

/-- Lexemes begin with one at most of two separated sequences. -/
theorem matchTerms_of_separated {terms terms' : List (List String)} {lexems : List Lexem}
    {found : List Lexem × List Lexem} (separate : separated terms terms')
    (matched : matchTerms terms lexems = some found) : matchTerms terms' lexems = none := by
  induction terms generalizing terms' lexems found with
  | nil => simp [separated] at separate
  | cons types terms ih =>
    cases terms' with
    | nil => simp [separated] at separate
    | cons types' terms' =>
      cases lexems with
      | nil => rfl
      | cons lex lexems =>
        simp only [matchTerms] at matched ⊢
        split at matched
        case isFalse => cases matched
        case isTrue head =>
          obtain ⟨behind, matched, -⟩ := Option.map_eq_some_iff.mp matched
          simp only [separated, Bool.or_eq_true, List.all_eq_true] at separate
          rcases separate with here | later
          · -- The types of this place are apart.
            obtain ⟨type, mem, isType⟩ := List.any_eq_true.mp head
            have other : types'.any (lexemType lex) = false := by
              rw [List.any_eq_false]
              intro type' mem'
              simp [lexemType_of_apart (here type mem type' mem') isType]
            simp [other]
          · simp [ih later matched]

/-- To look at the first lexeme is to match one term. -/
theorem startsWith_eq_matchTerms (types : List String) (lexems : List Lexem) :
    startsWith types lexems = (matchTerms [types] lexems).isSome := by
  -- Both look at the head of the list only.
  cases lexems with
  | nil => rfl
  | cons lex rest =>
    simp only [startsWith, matchTerms]
    split <;> simp_all

/-- No lexemes begin with two instructions, or with an instruction and another lexeme. -/
theorem productions_separated :
    productions.Pairwise (fun prod prod' => separated prod.terms prod'.terms) ∧
      ∀ prod ∈ productions, separated prod.terms [["label", "blank", "comment", "newline"]] := by
  decide +kernel

/-- The lexemes are of the types that a sequence of terminals asks for, one by one. -/
abbrev Fit (terms : List (List String)) (lexems : List Lexem) : Prop :=
  List.Forall₂ (fun types lex => types.any (lexemType lex)) terms lexems

/-- The terminals take a beginning of the lexemes that fits them. -/
theorem matchTerms_eq_some {terms : List (List String)} {lexems taken rest : List Lexem} :
    matchTerms terms lexems = some (taken, rest) ↔ lexems = taken ++ rest ∧ Fit terms taken := by
  -- By induction on the terminals, each of which takes one lexeme.
  induction terms generalizing lexems taken with
  | nil =>
    simp only [matchTerms, Option.some.injEq, Prod.mk.injEq, List.forall₂_nil_left_iff]
    constructor
    · rintro ⟨rfl, rfl⟩
      exact ⟨rfl, rfl⟩
    · rintro ⟨rfl, rfl⟩
      exact ⟨rfl, rfl⟩
  | cons types terms ih =>
    simp only [List.forall₂_cons_left_iff]
    cases lexems with
    | nil =>
      constructor
      · intro matched
        cases matched
      · rintro ⟨empty, lex, taken, -, -, rfl⟩
        cases empty
    | cons lex lexems =>
      simp only [matchTerms]
      constructor
      · intro matched
        split at matched
        case isFalse => cases matched
        case isTrue head =>
          obtain ⟨⟨taken', rest'⟩, behind, same⟩ := Option.map_eq_some_iff.mp matched
          obtain ⟨rfl, rfl⟩ := Prod.mk.inj same
          obtain ⟨rfl, fit⟩ := ih.mp behind
          exact ⟨rfl, lex, taken', head, fit, rfl⟩
      · rintro ⟨split, lex', taken', head, fit, rfl⟩
        obtain ⟨rfl, behind⟩ := List.cons.inj split
        rw [if_pos head, ih.mpr ⟨behind, fit⟩]
        rfl

end Types

section Choice

variable {prod : Production} {lexems taken rest : List Lexem} {addr : ℤ}

/-- Of separated productions the first that fits is the only one. -/
theorem firstMatch_of_mem {prods : List Production}
    (pairwise : prods.Pairwise fun prod prod' => separated prod.terms prod'.terms)
    (mem : prod ∈ prods) (matched : matchTerms prod.terms lexems = some (taken, rest)) :
    firstMatch prods lexems = some (prod, taken, rest) := by
  induction pairwise with
  | nil => cases mem
  | cons apartFrom pairwise ih =>
    rename_i first prods
    rw [firstMatch, List.findSome?_cons]
    rcases List.mem_cons.mp mem with rfl | mem
    · simp [matched]
    · -- An earlier production that fitted would rule this one out.
      have earlier : matchTerms first.terms lexems = none := by
        cases fits : matchTerms first.terms lexems with
        | none => rfl
        | some found =>
          rw [matchTerms_of_separated (apartFrom prod mem) fits] at matched
          cases matched
      rw [earlier]
      exact ih mem

/-- An instruction that fits a production is read by it, as no other one fits. -/
theorem readInsn_of_mem (mem : prod ∈ productions)
    (matched : matchTerms prod.terms lexems = some (taken, rest)) :
    readInsn lexems addr =
      some (prod.emit taken addr, addr + 4 * (prod.emit taken addr).length, rest) := by
  -- The productions are separated, so the first that matches is this one.
  rw [readInsn, firstMatch_of_mem productions_separated.1 mem matched]
  rfl

/-- An instruction that is read is that of some production. -/
theorem readInsn_eq_some {lines : List AsmLine} {addr' : ℤ}
    (read : readInsn lexems addr = some (lines, addr', rest)) :
    ∃ prod ∈ productions, ∃ taken, matchTerms prod.terms lexems = some (taken, rest) ∧
      lines = prod.emit taken addr ∧ addr' = addr + 4 * (prod.emit taken addr).length := by
  -- The first match of the list is a match of one of its productions.
  obtain ⟨⟨prod, taken, rest'⟩, first, same⟩ := Option.map_eq_some_iff.mp read
  obtain ⟨found, mem, fits⟩ := List.exists_of_findSome?_eq_some first
  obtain ⟨⟨taken', behind⟩, matched, same'⟩ := Option.map_eq_some_iff.mp fits
  simp only [Prod.mk.injEq] at same same'
  obtain ⟨rfl, rfl, rfl⟩ := same'
  obtain ⟨rfl, rfl, rfl⟩ := same
  exact ⟨found, mem, taken', matched, rfl, rfl⟩

/-- An instruction begins neither like a label nor like an end of line. -/
theorem startsWith_insn (mem : prod ∈ productions)
    (matched : matchTerms prod.terms lexems = some (taken, rest)) :
    startsWith ["label", "blank", "comment", "newline"] lexems = false := by
  -- No production begins with one of these types.
  rw [startsWith_eq_matchTerms, matchTerms_of_separated (productions_separated.2 prod mem)
    matched]
  rfl

/-- No instruction is empty. -/
theorem terms_ne_nil (mem : prod ∈ productions) : prod.terms ≠ [] := by
  revert prod
  decide

/-- Every production has some lexemes. -/
theorem matchTerms_nil (mem : prod ∈ productions) : matchTerms prod.terms [] = none := by
  cases terms : prod.terms with
  | nil => exact absurd terms (terms_ne_nil mem)
  | cons types terms => rfl

/-- The lexemes that may begin an end of line. -/
def endTypes : List String := ["blank", "comment", "newline"]

/-- One of several types is the first one or one of the others. -/
theorem startsWith_cons (type : String) (types : List String) (lexems : List Lexem) :
    startsWith (type :: types) lexems = (startsWith [type] lexems || startsWith types lexems) := by
  cases lexems <;> simp [startsWith]

/-- An end of line begins with one of its lexemes. -/
theorem startsWith_readEnd (ends : readEnd lexems = some rest) : startsWith endTypes lexems := by
  -- A lexeme of another type is neither skipped nor an end of line.
  cases lexems with
  | nil => cases ends
  | cons lex lexems =>
    by_contra others
    simp only [endTypes, startsWith, List.any_cons, List.any_nil, Bool.or_false, Bool.or_eq_true,
      not_or, Bool.not_eq_true] at others
    simp [readEnd, skip, startsWith, others] at ends

/-- A label and the lexemes of an end of line are of different types. -/
theorem apart_of_ne : ∀ type ∈ "label" :: endTypes, ∀ type' ∈ "label" :: endTypes,
    type ≠ type' → apart type type' := by
  decide +kernel

/-- No lexeme is of two of the types of labels and ends of lines. -/
theorem lexemType_other {lex : Lexem} {type type' : String} (mem : type ∈ "label" :: endTypes)
    (mem' : type' ∈ "label" :: endTypes) (other : type ≠ type') (isType : lexemType lex type) :
    lexemType lex type' = false :=
  lexemType_of_apart (apart_of_ne type mem type' mem' other) isType

/-- A label begins no end of line. -/
theorem startsWith_label {lex : Lexem} (isLabel : lexemType lex "label") (rest : List Lexem) :
    startsWith endTypes (lex :: rest) = false := by
  -- No lexeme is of two of these types.
  have others : ∀ type ∈ endTypes, lexemType lex type = false := fun type mem =>
    lexemType_other List.mem_cons_self (List.mem_cons_of_mem _ mem)
      (fun same => by simp [← same, endTypes] at mem) isLabel
  simp only [endTypes, List.forall_mem_cons] at others
  simp [endTypes, startsWith, others]

end Choice

section Inversion

variable {lexems rest : List Lexem} {addr addr' : ℤ} {lines : List AsmLine}

/-- Where an end of line begins, one is read. -/
theorem items_end_iff (starts : startsWith endTypes lexems) :
    Items lexems addr lines addr' ↔
      ∃ rest, readEnd lexems = some rest ∧ Items rest addr lines addr' := by
  -- Neither a label nor an instruction begins like an end of line.
  constructor
  · intro items
    cases items with
    | nil => cases starts
    | label isLabel items => rw [startsWith_label isLabel] at starts; cases starts
    | insn mem matched items =>
      have other := startsWith_insn mem matched
      rw [startsWith_cons] at other
      simp_all [endTypes]
    | eol ends items => exact ⟨_, ends, items⟩
  · rintro ⟨rest, ends, items⟩
    exact .eol ends items

/-- Where a label comes first, it is read. -/
theorem items_label_iff {lex : Lexem} (isLabel : lexemType lex "label") :
    Items (lex :: rest) addr lines addr' ↔
      ∃ behind, lines = asmLineLabelAdd [] lex.value addr ++ behind ∧
        Items rest addr behind addr' := by
  -- Neither an instruction nor an end of line begins like a label.
  constructor
  · intro items
    cases items with
    | label isLabel items => exact ⟨_, rfl, items⟩
    | insn mem matched items =>
      have other := startsWith_insn mem matched
      simp [startsWith, isLabel] at other
    | eol ends items =>
      have starts := startsWith_readEnd ends
      rw [startsWith_label isLabel] at starts
      cases starts
  · rintro ⟨behind, rfl, items⟩
    exact .label isLabel items

/-- Where an instruction comes first, it is read. -/
theorem items_insn_iff {first : List AsmLine} {next : ℤ}
    (read : readInsn lexems addr = some (first, next, rest)) :
    Items lexems addr lines addr' ↔
      ∃ behind, lines = first ++ behind ∧ Items rest next behind addr' := by
  -- The instruction that is read is the only item that begins like this.
  obtain ⟨prod, mem, taken, matched, rfl, rfl⟩ := readInsn_eq_some read
  have other := startsWith_insn mem matched
  rw [startsWith_cons, Bool.or_eq_false_iff] at other
  constructor
  · intro items
    cases items with
    | nil =>
      rw [matchTerms_nil mem] at matched
      cases matched
    | label isLabel items => simp [startsWith, isLabel] at other
    | insn mem' matched' items =>
      have same := read.symm.trans (readInsn_of_mem mem' matched')
      simp only [Option.some.injEq, Prod.mk.injEq] at same
      obtain ⟨sameLines, -, rfl⟩ := same
      rw [sameLines]
      exact ⟨_, rfl, items⟩
    | eol ends items =>
      have starts := startsWith_readEnd ends
      rw [endTypes, other.2] at starts
      cases starts
  · rintro ⟨behind, rfl, items⟩
    exact .insn mem matched items

end Inversion

section Reading

variable {lexems rest : List Lexem} {addr addr' : ℤ} {lines : List AsmLine}

/-- What is skipped stands in front of what is left. -/
theorem skip_split (type : String) (lexems : List Lexem) :
    ∃ before, lexems = before ++ skip type lexems ∧ ∀ lex ∈ before, lexemType lex type := by
  -- The lexeme is skipped or not.
  cases lexems with
  | nil => exact ⟨[], rfl, by simp⟩
  | cons lex rest =>
    by_cases isType : lexemType lex type
    · exact ⟨[lex], by simp [skip, startsWith, isType], by simpa using isType⟩
    · exact ⟨[], by simp [skip, startsWith, isType], by simp⟩

/-- An end of line is made of lexemes of its types, a newline at least. -/
theorem readEnd_split (ends : readEnd lexems = some rest) :
    ∃ before, lexems = before ++ rest ∧ before ≠ [] ∧
      ∀ lex ∈ before, ∃ type ∈ endTypes, lexemType lex type := by
  -- Blanks, a comment, the newline and blanks again, each of them optional but one.
  obtain ⟨blanks, split, areBlanks⟩ := skip_split "blank" lexems
  obtain ⟨comments, split', areComments⟩ := skip_split "comment" (skip "blank" lexems)
  unfold readEnd at ends
  split at ends
  case h_2 => cases ends
  case h_1 newline behind shape =>
    split at ends
    case isFalse => cases ends
    case isTrue isNewline =>
      cases ends
      obtain ⟨blanks', split'', areBlanks'⟩ := skip_split "blank" behind
      rw [shape] at split'
      refine ⟨blanks ++ comments ++ newline :: blanks', ?_, by simp, ?_⟩
      · rw [List.append_assoc, List.append_assoc, List.cons_append, ← split'', ← split', ← split]
      · intro lex mem
        simp only [List.mem_append, List.mem_cons] at mem
        rcases mem with (blank | comment) | rfl | blank
        · exact ⟨"blank", by decide, areBlanks lex blank⟩
        · exact ⟨"comment", by decide, areComments lex comment⟩
        · exact ⟨"newline", by decide, isNewline⟩
        · exact ⟨"blank", by decide, areBlanks' lex blank⟩

/-- An end of line takes at least its newline. -/
theorem readEnd_length (ends : readEnd lexems = some rest) : rest.length < lexems.length := by
  obtain ⟨before, rfl, some_lexem, -⟩ := readEnd_split ends
  have taken := List.length_pos_iff.mpr some_lexem
  rw [List.length_append]
  omega

/-- An instruction takes some lexemes. -/
theorem readInsn_length {first : List AsmLine} {next : ℤ}
    (read : readInsn lexems addr = some (first, next, rest)) : rest.length < lexems.length := by
  -- The mnemonic at least is taken.
  obtain ⟨prod, mem, taken, matched, -, -⟩ := readInsn_eq_some read
  obtain ⟨rfl, fit⟩ := matchTerms_eq_some.mp matched
  have lengths := fit.length_eq
  have positive := List.length_pos_iff.mpr (terms_ne_nil mem)
  rw [List.length_append]
  omega

/-- The label that may come next is read as an item. -/
theorem readLabel_spec {first : List AsmLine} {next : ℤ}
    (read : readLabel lexems addr = some (first, next, rest)) :
    rest.length ≤ lexems.length ∧ ∀ lines addr', Items lexems addr lines addr' ↔
      ∃ behind, lines = first ++ behind ∧ Items rest next behind addr' := by
  -- With a label the item is read, and without one nothing is.
  unfold readLabel at read
  split at read
  case h_1 lex behind =>
    split at read
    case isTrue isLabel =>
      cases read
      exact ⟨by simp, fun _ _ => items_label_iff isLabel⟩
    case isFalse =>
      cases read
      exact ⟨Nat.le_refl _, fun _ _ => by simp⟩
  case h_2 =>
    cases read
    exact ⟨Nat.le_refl _, fun _ _ => by simp⟩

/-- A code line is read as the one or two items that it is. -/
theorem readCodeLine_spec {first : List AsmLine} {next : ℤ}
    (read : readCodeLine lexems addr = some (first, next, rest)) :
    rest.length < lexems.length ∧ ∀ lines addr', Items lexems addr lines addr' ↔
      ∃ behind, lines = first ++ behind ∧ Items rest next behind addr' := by
  unfold readCodeLine at read
  split at read
  case isTrue starts =>
    refine ⟨?_, (readLabel_spec read).2⟩
    -- The label that comes first is passed.
    cases lexems with
    | nil => cases starts
    | cons lex lexems =>
      have isLabel : lexemType lex "label" := by simpa [startsWith] using starts
      simp only [readLabel, isLabel, if_true] at read
      cases read
      simp
  case isFalse =>
    cases insn : readInsn lexems addr with
    | none => simp [insn] at read
    | some found =>
      obtain ⟨first', next', rest'⟩ := found
      rw [insn, Reading.some_andThen] at read
      obtain ⟨⟨first'', next'', rest''⟩, label, same⟩ := Option.map_eq_some_iff.mp read
      cases same
      have shorter := readInsn_length insn
      obtain ⟨bound, items⟩ := readLabel_spec label
      refine ⟨by omega, fun lines addr' => ?_⟩
      simp only [items_insn_iff insn, items]
      constructor
      · rintro ⟨_, rfl, behind, rfl, items⟩
        exact ⟨behind, by simp, items⟩
      · rintro ⟨behind, rfl, items⟩
        exact ⟨first'' ++ behind, by simp, behind, rfl, items⟩

/-- Where neither an end of line nor a code line comes next, only the end of the program can. -/
theorem items_of_stuck (others : startsWith endTypes lexems = false)
    (stuck : readCodeLine lexems addr = none) :
    Items lexems addr lines addr' ↔ lexems = [] ∧ lines = [] ∧ addr' = addr := by
  -- Each item that could be read here would have been read as a line or an end.
  constructor
  · intro items
    cases items with
    | nil => exact ⟨rfl, rfl, rfl⟩
    | label isLabel items =>
      simp [readCodeLine, startsWith, isLabel, readLabel] at stuck
    | insn mem matched items =>
      have starts := startsWith_insn mem matched
      rw [startsWith_cons, Bool.or_eq_false_iff] at starts
      have label := readLabel_isSome
      simp only [readCodeLine, starts.1, readInsn_of_mem mem matched, Reading.some_andThen,
        Bool.false_eq_true, if_false, Option.map_eq_none_iff] at stuck
      exact absurd stuck (Option.isSome_iff_ne_none.mp (label _ _))
    | eol ends items =>
      rw [startsWith_readEnd ends] at others
      cases others
  · rintro ⟨rfl, rfl, rfl⟩
    exact .nil

/-- The ends of line are read, as far as they go, or else there is no program. -/
theorem readEol_spec {fuel : ℕ} (enough : lexems.length ≤ fuel) :
    match readEol fuel lexems with
    | some rest => rest.length ≤ lexems.length ∧ startsWith endTypes rest = false ∧
        ∀ addr lines addr', Items lexems addr lines addr' ↔ Items rest addr lines addr'
    | none => ∀ addr lines addr', ¬ Items lexems addr lines addr' := by
  -- Each turn of the loop reads one end of line.
  induction fuel generalizing lexems with
  | zero =>
    obtain rfl := List.eq_nil_of_length_eq_zero (Nat.le_zero.mp enough)
    exact ⟨Nat.le_refl _, rfl, fun _ _ _ => .rfl⟩
  | succ fuel ih =>
    rw [readEol, ← endTypes]
    by_cases starts : startsWith endTypes lexems
    · rw [if_pos starts]
      cases ends : readEnd lexems with
      | none =>
        intro addr lines addr'
        simp [items_end_iff starts, ends]
      | some behind =>
        have shorter := readEnd_length ends
        have after := @ih behind (by omega)
        rw [Option.bind_some]
        cases left : readEol fuel behind with
        | none => simpa [left, items_end_iff starts, ends] using after
        | some rest =>
          rw [left] at after
          refine ⟨by omega, after.2.1, fun addr lines addr' => ?_⟩
          simpa [items_end_iff starts, ends] using after.2.2 addr lines addr'
    · rw [if_neg starts]
      exact ⟨Nat.le_refl _, Bool.eq_false_iff.mpr starts, fun _ _ _ => .rfl⟩

/-- Whatever reads the items behind the ends of line reads all of them with `readEols`. -/
theorem readEols_andThen_iff {next : List Lexem → ℤ → Reading}
    (behind : ∀ rest, rest.length ≤ lexems.length → startsWith endTypes rest = false →
      (next rest addr = some (lines, addr', []) ↔ Items rest addr lines addr')) :
    (readEols lexems addr).andThen next = some (lines, addr', []) ↔
      Items lexems addr lines addr' := by
  -- The ends of line are read first, as many as there are.
  have spec := readEol_spec (Nat.le_refl lexems.length)
  rw [readEols]
  cases left : readEol lexems.length lexems with
  | none =>
    rw [left] at spec
    simp [spec addr lines addr']
  | some rest =>
    rw [left] at spec
    obtain ⟨bound, others, items⟩ := spec
    rw [Option.map_some, Reading.some_andThen, items, ← behind rest bound others]
    simp

/-- The loop of `parse_code` reads all lexemes exactly when they are items. -/
theorem readLines_iff {fuel : ℕ} (enough : lexems.length < fuel)
    (others : startsWith endTypes lexems = false) :
    readLines fuel lexems addr = some (lines, addr', []) ↔ Items lexems addr lines addr' := by
  -- Each turn of the loop reads a code line and the ends of line behind it.
  induction fuel generalizing lexems addr lines with
  | zero => omega
  | succ fuel ih =>
    rw [readLines]
    cases line : readCodeLine lexems addr with
    | none =>
      simp only [items_of_stuck others line, Option.some.injEq, Prod.mk.injEq]
      constructor
      · rintro ⟨rfl, rfl, rfl⟩
        exact ⟨rfl, rfl, rfl⟩
      · rintro ⟨rfl, rfl, rfl⟩
        exact ⟨rfl, rfl, rfl⟩
    | some found =>
      obtain ⟨first, next, rest⟩ := found
      obtain ⟨shorter, items⟩ := readCodeLine_spec line
      have after : ∀ behind, (readEols rest next).andThen (readLines fuel) =
          some (behind, addr', []) ↔ Items rest next behind addr' := fun behind =>
        readEols_andThen_iff fun rest bound others => ih (by omega) others
      simp only [Reading.some_andThen, items, ← after, Option.map_eq_some_iff, Prod.exists,
        Prod.mk.injEq]
      constructor
      · rintro ⟨behind, _, _, read, rfl, rfl, rfl⟩
        exact ⟨behind, rfl, read⟩
      · rintro ⟨behind, rfl, read⟩
        exact ⟨behind, _, _, read, rfl, rfl, rfl⟩

/-- Behind the first comment `parse_code` reads all lexemes exactly when they are items. -/
theorem readBody_iff : readBody lexems addr = some (lines, addr', []) ↔
    Items (skip "comment" lexems) addr lines addr' := by
  -- Behind the ends of line the loop reads the rest.
  have after : ∀ (lexems : List Lexem) addr lines,
      ((readEols lexems addr).andThen fun rest addr => readLines (rest.length + 1) rest addr) =
        some (lines, addr', []) ↔ Items lexems addr lines addr' := fun lexems addr lines =>
    readEols_andThen_iff fun rest _ others => readLines_iff (Nat.lt_succ_self _) others
  rw [readBody]
  cases line : readCodeLine (skip "comment" lexems) addr with
  | none =>
    -- The first line is missing, and the ends of line begin at once.
    rw [← after]
    simp
  | some found =>
    obtain ⟨first, next, rest⟩ := found
    simp only [Option.getD_some, Reading.some_andThen, (readCodeLine_spec line).2, ← after,
      Option.map_eq_some_iff, Prod.exists, Prod.mk.injEq]
    constructor
    · rintro ⟨behind, _, _, read, rfl, rfl, rfl⟩
      exact ⟨behind, rfl, read⟩
    · rintro ⟨behind, rfl, read⟩
      exact ⟨behind, _, _, read, rfl, rfl, rfl⟩

/-- The lines of an accepted program lie between the label and the jump that are added. -/
theorem readProgram_eq_some {all : List AsmLine} :
    readProgram lexems addr = some (all, addr', rest) ↔
      ∃ lines, Items (skip "comment" lexems) addr lines addr' ∧
        all = progStart addr ++ lines ++ progLoop addr' ∧ rest = [] := by
  simp only [readProgram, Reading.some_andThen, Option.map_eq_some_iff, Prod.exists,
    Prod.mk.injEq]
  constructor
  · rintro ⟨behind, _, _, read, rfl, rfl, rfl⟩
    -- The program is closed only when its body takes everything.
    cases body : readBody lexems addr with
    | none => simp [body] at read
    | some found =>
      obtain ⟨lines, next, left⟩ := found
      rw [body, Reading.some_andThen, closeProgram] at read
      split at read
      case isFalse => cases read
      case isTrue done =>
        cases read
        obtain rfl := List.isEmpty_iff.mp done
        exact ⟨lines, readBody_iff.mp body, by simp, rfl⟩
  · rintro ⟨lines, items, rfl, rfl⟩
    refine ⟨lines ++ progLoop addr', addr', [], ?_, by simp, rfl, rfl⟩
    rw [readBody_iff.mpr items]
    simp [closeProgram]

end Reading

section Parser

variable (depth : CStr) (verbose : Bool) (s : ParseState)

/-- `parse_code` returns 0 exactly when the lexemes behind a first comment are items. -/
theorem parseCode_accepts_iff : (parseCode depth verbose s).1 = some () ↔
    ∃ lines addr, Items (skip "comment" s.lexems) s.lineAddr lines addr := by
  -- The parser is the reading of the program, which succeeds on items alone.
  have reads := reads_parseCode depth verbose s
  cases read : readProgram s.lexems s.lineAddr with
  | none =>
    rw [read] at reads
    obtain ⟨s', run⟩ := reads
    rw [run]
    constructor
    · intro accepted
      cases accepted
    · rintro ⟨lines, addr, items⟩
      rw [readProgram_eq_some.mpr ⟨lines, items, rfl, rfl⟩] at read
      cases read
  | some found =>
    obtain ⟨all, addr, rest⟩ := found
    rw [read] at reads
    obtain ⟨s', run, -⟩ := reads
    obtain ⟨lines, items, -, -⟩ := readProgram_eq_some.mp read
    rw [run]
    exact ⟨fun _ => ⟨lines, addr, items⟩, fun _ => rfl⟩

/-- The lines that an accepted program leaves. -/
theorem parseCode_lines (accepted : (parseCode depth verbose s).1 = some ()) :
    ∃ lines addr, Items (skip "comment" s.lexems) s.lineAddr lines addr ∧
      (parseCode depth verbose s).2.instructions =
        s.instructions ++ (progStart s.lineAddr ++ lines ++ progLoop addr) := by
  -- The lines added are those of the reading.
  have reads := reads_parseCode depth verbose s
  cases read : readProgram s.lexems s.lineAddr with
  | none =>
    rw [read] at reads
    obtain ⟨s', run⟩ := reads
    rw [run] at accepted
    cases accepted
  | some found =>
    obtain ⟨all, addr, rest⟩ := found
    rw [read] at reads
    obtain ⟨s', run, -, instructions, -⟩ := reads
    obtain ⟨lines, items, rfl, -⟩ := readProgram_eq_some.mp read
    rw [run]
    exact ⟨lines, addr, items, instructions⟩

end Parser

end MiniRiscV
