import MiniRiscV.Asm.Lexer
import Mathlib.Data.List.TakeWhile
import Mathlib.Logic.Relation

/-! The lexemes of a source without nulls: what they cover, and where each of them stands. -/

namespace MiniRiscV

/-- No group of the expression is missing, and one of them cannot do without a character. -/
def Regexp.TakesOne (reg : Regexp) : Prop :=
  reg.groups.all Option.isSome ∧
    ∃ group, some group ∈ reg.groups ∧ (group.operator = .nop ∨ group.operator = .oom)

/-- What the lexemes of a source, with some characters before it, say about it. -/
structure Tokenises (reg : List Regexp) (before source : CStr) (code : ℤ) (lexems : List Lexem)
    (rest : CStr) : Prop where
  /-- The lexemes cover the source, up to a rest. -/
  covers : source = lexems.flatMap Lexem.value ++ rest
  nonempty : ∀ lexem ∈ lexems, lexem.value ≠ []
  /-- There is no rest, or the first position where no expression matches. -/
  ended : code = 0 ∧ rest = [] ∨
    code = -1 ∧ rest ≠ [] ∧ ∀ regexp ∈ reg, reMatch regexp rest = some none
  /-- Each lexeme is what the first expression that matches at its position takes. -/
  first : ∀ earlier lexem later, lexems = earlier ++ lexem :: later →
    ∃ regexp, IsFirstMatch reg regexp
        (lexem.value ++ (later.flatMap Lexem.value ++ rest)) (later.flatMap Lexem.value ++ rest) ∧
      lexem = lexemBehind (before ++ earlier.flatMap Lexem.value) regexp lexem.value

section Progress

variable {reg : List Regexp} {content : CStr}

/-- A text without a terminator inside is a C string as a whole. -/
theorem cString_of_noNull {text : CStr} (noNull : '\x00' ∉ text) : cString text = text := by
  -- The C string ends at the first null, of which there is none.
  rw [cString, List.takeWhile_eq_self_iff]
  intro c mem
  have other : c ≠ '\x00' := fun null => noNull (null ▸ mem)
  simp [other]

/-- Groups up to the first that needs a character are all groups of the expression. -/
theorem takesFirstIn_of_takesOne {groups : List (Option CharGroup)}
    (assigned : groups.all Option.isSome) {group : CharGroup} (mem : some group ∈ groups)
    (needs : group.operator = .nop ∨ group.operator = .oom) :
    takesFirstIn (fun _ => true) groups := by
  -- By induction on the groups, up to the one that needs a character.
  induction groups with
  | nil => cases mem
  | cons first groups ih =>
    cases first with
    | none => simp at assigned
    | some first =>
      simp only [takesFirstIn, Bool.true_and, Bool.or_eq_true, decide_eq_true_eq]
      rcases List.mem_cons.mp mem with same | mem
      · obtain rfl := Option.some.inj same
        exact .inl needs
      · exact .inr (ih (by simpa using assigned) mem)

/-- Sound expressions need a character. -/
theorem takesOne_of_sound {reg : Regexp} (sound : reg.sound) : reg.TakesOne := by
  -- The group that ends the search of `takesFirst` is one that needs a character.
  rw [Regexp.sound, Bool.and_eq_true] at sound
  refine ⟨sound.1, ?_⟩
  have takes := sound.2
  generalize reg.groups = groups at takes
  induction groups with
  | nil => cases takes
  | cons first groups ih =>
    cases first with
    | none => cases takes
    | some first =>
      simp only [takesFirst, Bool.and_eq_true, Bool.or_eq_true, decide_eq_true_eq] at takes
      rcases takes.2 with needs | behind
      · exact ⟨first, List.mem_cons_self, needs⟩
      · obtain ⟨group, mem, needs⟩ := ih behind
        exact ⟨group, List.mem_cons_of_mem _ mem, needs⟩

/-- Expressions that need a character take one off every source without nulls. -/
theorem progress_of_takesOne (takes : ∀ regexp ∈ reg, regexp.TakesOne)
    (noNull : '\x00' ∉ content) : Progress reg content := by
  -- A character that is taken is one of the contents, so it is no null.
  intro regexp mem source suffix
  obtain ⟨assigned, group, inGroups, needs⟩ := takes regexp mem
  refine ⟨reMatchFrom_isSome assigned (List.ne_nil_of_mem inGroups) (Nat.lt_succ_self _), ?_⟩
  rintro c rest next rfl found
  have first := takesFirstIn_of_takesOne assigned inGroups needs
  refine ⟨(reMatchFrom_takesFirst first found).1, fun null => noNull ?_⟩
  rw [← null]
  exact suffix.subset List.mem_cons_self

end Progress

section Tokens

variable {reg : List Regexp} {before source : CStr} {code : ℤ} {lexems : List Lexem}

/-- The readings of a source without nulls, lexeme by lexeme. -/
theorem Lexes.tokenises (lexes : Lexes reg before source code lexems) (noNull : '\x00' ∉ source) :
    ∃ rest, Tokenises reg before source code lexems rest := by
  -- By induction on the reading: a lexeme is put in front of those behind it.
  induction lexes with
  | done before =>
    exact ⟨[], rfl, by simp, .inl ⟨rfl, rfl⟩, fun earlier lexem later nothing => by simp at nothing⟩
  | @stuck before source some_left none_matches =>
    exact ⟨source, rfl, by simp, .inr ⟨rfl, some_left, none_matches⟩,
      fun earlier lexem later nothing => by simp at nothing⟩
  | @lexem before text next regexp code lexems isFirst some_text _ ih =>
    rw [List.mem_append, not_or] at noNull
    obtain ⟨rest, covers, nonempty, ended, first⟩ := ih noNull.2
    have value : cString text = text := cString_of_noNull noNull.1
    refine ⟨rest, ?_, ?_, ended, ?_⟩
    · rw [List.flatMap_cons, List.append_assoc, ← covers]
      simp [lexemBehind, value]
    · refine List.forall_mem_cons.mpr ⟨?_, nonempty⟩
      simpa [lexemBehind, value] using some_text
    · intro earlier lexem later split
      cases earlier with
      | nil =>
        -- The first lexeme stands at the beginning of the source.
        obtain ⟨rfl, rfl⟩ := List.cons.inj split
        refine ⟨regexp, ?_, ?_⟩
        · rw [← covers]
          simpa [lexemBehind, value] using isFirst
        · simp [lexemBehind, value]
      | cons head earlier =>
        -- The others stand behind its text.
        obtain ⟨rfl, rfl⟩ := List.cons.inj split
        obtain ⟨regexp, isFirst, same⟩ := first earlier lexem later rfl
        refine ⟨regexp, isFirst, ?_⟩
        rw [List.flatMap_cons, ← List.append_assoc]
        simpa [lexemBehind, value] using same

/-- Expressions that need a character split every source without nulls into what they match. -/
theorem lexemRead_tokenises {content : CStr} (takes : ∀ regexp ∈ reg, regexp.TakesOne)
    (named : ∀ regexp ∈ reg, cString regexp.name ≠ []) (noNull : '\x00' ∉ content) :
    ∃ code lexems rest, lexemRead content reg = some (code, lexems) ∧
      Tokenises reg [] content code lexems rest := by
  -- The reading comes to an end, and what it leaves is a reading by first matches.
  obtain ⟨⟨code, lexems⟩, read⟩ := Option.isSome_iff_exists.mp
    (lexemRead_isSome (progress_of_takesOne takes noNull) named)
  obtain ⟨rest, tokenises⟩ := (lexemRead_lexes read).tokenises noNull
  exact ⟨code, lexems, rest, read, tokenises⟩

/-- Words and blanks, up to a character that begins neither. -/
theorem lexemRead_tokenises_words :
    let reg : List Regexp := [⟨['w'], [some (charGroupSingleChar 'a' false .oom)]⟩,
      ⟨['b'], [some (charGroupSingleChar ' ' false .nop)]⟩]
    ∃ code lexems rest, lexemRead "aa a;" reg = some (code, lexems) ∧
      Tokenises reg [] "aa a;" code lexems rest := by
  intro reg
  refine lexemRead_tokenises ?_ (by decide) (by decide)
  -- The run of `a` and the blank both need a character.
  exact List.forall_mem_cons.mpr ⟨⟨rfl, _, List.mem_singleton_self _, .inr rfl⟩,
    List.forall_mem_cons.mpr ⟨⟨rfl, _, List.mem_singleton_self _, .inl rfl⟩, by simp⟩⟩

end Tokens

/-- A turn of the outer loop: the text passed and the source, before and behind a lexeme. -/
inductive PassesLexem (reg : List Regexp) : CStr × CStr → CStr × CStr → Prop where
  | mk {before text next : CStr} {regexp : Regexp} :
      IsFirstMatch reg regexp (text ++ next) next → text ≠ [] →
      PassesLexem reg (before, text ++ next) (before ++ text, next)

/-- The outer loop comes to a position of the contents with some source left. -/
def ComesTo (reg : List Regexp) (content before source : CStr) : Prop :=
  Relation.ReflTransGen (PassesLexem reg) ([], content) (before, source)

/-- The lexeme has the line and the column of what stands behind some characters. -/
def StandsBehind (before : CStr) (lexem : Lexem) : Bool :=
  lexem.line = lineBehind before ∧ lexem.column = columnBehind before

/-- The lexeme that is taken off a source. -/
def IsFirstLexem (reg : List Regexp) (before source : CStr) (lexem : Lexem) : Prop :=
  ∃ regexp text next, source = text ++ next ∧ text ≠ [] ∧ IsFirstMatch reg regexp source next ∧
    lexem = lexemBehind before regexp text

section Positions

variable {reg : List Regexp} {regexp regexp' : Regexp} {before text source next next' : CStr}
  {code : ℤ} {lexems : List Lexem} {lexem : Lexem}

/-- The first match is the only one. -/
theorem IsFirstMatch.unique (first : IsFirstMatch reg regexp source next)
    (first' : IsFirstMatch reg regexp' source next') : regexp = regexp' ∧ next = next' := by
  -- Both are where the inner loop stops.
  have same := first.firstRegexp_eq.symm.trans first'.firstRegexp_eq
  simpa using same

/-- Where nothing matches there is no first match. -/
theorem IsFirstMatch.false_of_none
    (none_matches : ∀ regexp ∈ reg, reMatch regexp source = some none)
    (first : IsFirstMatch reg regexp source next) : False := by
  have found := (none_matches regexp first.mem).symm.trans first.reMatch_eq
  cases found

/-- Where an expression is the first that matches, the lexeme is its own. -/
theorem Lexes.passes (lexes : Lexes reg before (text ++ next) code lexems)
    (first : IsFirstMatch reg regexp (text ++ next) next) (some_text : text ≠ []) :
    ∃ later, lexems = lexemBehind before regexp text :: later ∧
      Lexes reg (before ++ text) next code later := by
  -- The reading is a lexeme, and by the same expression.
  generalize whole : text ++ next = source at lexes first
  cases lexes with
  | done => exact absurd (List.append_eq_nil_iff.mp whole).1 some_text
  | stuck _ none_matches => exact (first.false_of_none none_matches).elim
  | lexem first' _ lexes =>
    obtain ⟨rfl, rfl⟩ := first.unique first'
    rw [List.append_cancel_right whole]
    exact ⟨_, rfl, lexes⟩

/-- At the end of the source there are no more lexemes. -/
theorem Lexes.of_nil (lexes : Lexes reg before [] code lexems) : code = 0 ∧ lexems = [] := by
  generalize empty : ([] : CStr) = source at lexes
  cases lexes with
  | done => exact ⟨rfl, rfl⟩
  | stuck some_left => exact absurd empty.symm some_left
  | lexem _ some_text _ => exact absurd (List.append_eq_nil_iff.mp empty.symm).1 some_text

/-- One lexeme at most is taken off a source. -/
theorem IsFirstLexem.unique {lexem' : Lexem} (first : IsFirstLexem reg before source lexem)
    (first' : IsFirstLexem reg before source lexem') : lexem = lexem' := by
  -- The expression and what it leaves are those of the only first match.
  obtain ⟨regexp, text, next, rfl, -, isFirst, rfl⟩ := first
  obtain ⟨regexp', text', next', split, -, isFirst', rfl⟩ := first'
  obtain ⟨rfl, rfl⟩ := isFirst.unique isFirst'
  rw [List.append_cancel_right split]

/-- No two positions of a text have the same line and column. -/
theorem standsBehind_append (some_text : text ≠ []) :
    ¬ (lineBehind (before ++ text) = lineBehind before ∧
      columnBehind (before ++ text) = columnBehind before) := by
  rintro ⟨line, column⟩
  -- On the same line there is no newline in between, and so the column is greater.
  have noNewline : text.count '\n' = 0 := by
    rw [lineBehind, lineBehind, List.count_append] at line
    omega
  have others : ∀ c ∈ text.reverse, decide (c ≠ '\n') := by
    intro c mem
    rw [List.count_eq_zero] at noNewline
    refine decide_eq_true fun newline => noNewline ?_
    rw [← newline]
    exact List.mem_reverse.mp mem
  rw [columnBehind, columnBehind, List.reverse_append, List.takeWhile_append_of_pos others,
    List.length_append, List.length_reverse] at column
  have positive := List.length_pos_iff.mpr some_text
  omega

/-- A lexeme taken off further on does not stand at a position. -/
theorem standsBehind_lexemBehind (some_text : text ≠ []) (regexp : Regexp) (value : CStr) :
    StandsBehind before (lexemBehind (before ++ text) regexp value) = false :=
  decide_eq_false (standsBehind_append some_text)

/-- A lexeme taken off before does not stand at a position. -/
theorem standsBehind_lexemBehind_earlier (some_text : text ≠ []) (regexp : Regexp) (value : CStr) :
    StandsBehind (before ++ text) (lexemBehind before regexp value) = false :=
  decide_eq_false fun same => standsBehind_append some_text ⟨same.1.symm, same.2.symm⟩

/-- None of the lexemes read from a position on stands before it. -/
theorem Lexes.filter_before (lexes : Lexes reg (before ++ text) source code lexems)
    (some_text : text ≠ []) : lexems.filter (StandsBehind before) = [] := by
  -- By induction on the reading, which moves further away.
  generalize position : before ++ text = start at lexes
  induction lexes generalizing text with
  | done => rfl
  | stuck => rfl
  | @lexem start taken next regexp code lexems _ _ _ ih =>
    subst position
    rw [List.filter_cons, standsBehind_lexemBehind some_text]
    exact ih (List.append_ne_nil_of_left_ne_nil some_text taken) (List.append_assoc ..).symm

/-- The outer loop only moves on. -/
theorem comesTo_length {start stop : CStr × CStr}
    (comes : Relation.ReflTransGen (PassesLexem reg) start stop) :
    start.1.length ≤ stop.1.length := by
  -- Each turn adds the text of a lexeme to what is passed.
  induction comes with
  | refl => rfl
  | tail _ passes ih =>
    obtain ⟨-, -⟩ := passes
    exact ih.trans (by simp)

/-- Where nothing matches the outer loop stops. -/
theorem comesTo_of_none (none_matches : ∀ regexp ∈ reg, reMatch regexp source = some none)
    {stop : CStr × CStr}
    (comes : Relation.ReflTransGen (PassesLexem reg) (before, source) stop) :
    (before, source) = stop := by
  rcases comes.cases_head with same | ⟨middle, passes, -⟩
  · exact same
  · -- One more turn would begin with a match.
    generalize start : (before, source) = position at passes
    obtain ⟨first, -⟩ := passes
    rw [← (Prod.mk.inj start).2] at first
    exact (first.false_of_none none_matches).elim

/-- From before a lexeme the outer loop comes to a later position from behind it. -/
theorem comesTo_iff_behind {passed rest : CStr}
    (first : IsFirstMatch reg regexp (text ++ next) next)
    (some_text : text ≠ []) (some_passed : passed ≠ []) :
    Relation.ReflTransGen (PassesLexem reg) (before, text ++ next) (before ++ passed, rest) ↔
      Relation.ReflTransGen (PassesLexem reg) (before ++ text, next) (before ++ passed, rest) := by
  constructor
  · intro comes
    -- The first turn from there passes just this lexeme.
    rcases comes.cases_head with same | ⟨middle, passes, comes⟩
    · simp [some_passed] at same
    · generalize start : (before, text ++ next) = position at passes
      obtain ⟨first', -⟩ := passes
      obtain ⟨rfl, split⟩ := Prod.mk.inj start
      rw [← split] at first'
      obtain ⟨-, rfl⟩ := first.unique first'
      rw [List.append_cancel_right split]
      exact comes
  · exact .head (.mk first some_text)

/-- Exactly one lexeme stands where the outer loop comes by, unless it stops there. -/
theorem Lexes.filter_eq_singleton_iff (lexes : Lexes reg before source code lexems)
    {passed rest : CStr} (split : source = passed ++ rest) :
    lexems.filter (StandsBehind (before ++ passed)) = [lexem] ↔
      Relation.ReflTransGen (PassesLexem reg) (before, source) (before ++ passed, rest) ∧
        IsFirstLexem reg (before ++ passed) rest lexem := by
  -- By induction on the reading, with the text up to the position.
  induction lexes generalizing passed with
  | done before =>
    obtain ⟨rfl, rfl⟩ := List.append_eq_nil_iff.mp split.symm
    simp only [List.filter_nil, List.nil_eq, reduceCtorEq, false_iff, not_and]
    -- At the end of the source there is no lexeme to take.
    rintro - ⟨regexp, text, next, nothing, some_text, -⟩
    exact some_text (List.append_eq_nil_iff.mp nothing.symm).1
  | @stuck before source _ none_matches =>
    simp only [List.filter_nil, List.nil_eq, reduceCtorEq, false_iff, not_and]
    intro comes isFirst
    -- The only position that the loop comes to is the one where it stops.
    have stops := comesTo_of_none none_matches comes
    obtain ⟨regexp, text, next, -, -, first, -⟩ := isFirst
    rw [← (Prod.mk.inj stops).2] at first
    exact first.false_of_none none_matches
  | @lexem before text next regexp code lexems first some_text lexes ih =>
    by_cases atStart : passed = []
    · -- The position is that of the lexeme.
      subst atStart
      rw [List.nil_append] at split
      subst split
      have isFirst : IsFirstLexem reg before (text ++ next) (lexemBehind before regexp text) :=
        ⟨regexp, text, next, rfl, some_text, first, rfl⟩
      have stands : StandsBehind before (lexemBehind before regexp text) := by
        simp [StandsBehind, lexemBehind]
      rw [List.append_nil, List.filter_cons, if_pos stands, lexes.filter_before some_text]
      simp only [List.cons.injEq, and_true]
      exact ⟨fun same => ⟨.refl, same ▸ isFirst⟩, fun found => isFirst.unique found.2⟩
    · rw [comesTo_iff_behind first some_text atStart, List.filter_cons,
        standsBehind_lexemBehind_earlier atStart]
      rcases List.append_eq_append_iff.mp split with ⟨behind, rfl, rfl⟩ | ⟨inside, rfl, rfl⟩
      · -- The position is behind the lexeme.
        rw [← List.append_assoc, ← ih rfl]
        rfl
      · cases inside with
        | nil =>
          -- The position is right behind the lexeme.
          have position := @ih [] rfl
          simp only [List.append_nil] at position ⊢
          exact position
        | cons c inside =>
          -- The position is inside of the lexeme, where the loop does not come by.
          rw [← List.append_assoc] at lexes
          rw [lexes.filter_before (List.cons_ne_nil c inside)]
          simp only [Bool.false_eq_true, if_false, List.nil_eq, reduceCtorEq, false_iff, not_and]
          intro comes _
          have further := comesTo_length comes
          simp only [List.length_append, List.length_cons] at further
          omega

/-- Exactly one lexeme stands at a position of the contents where the outer loop comes by. -/
theorem lexemRead_filter_iff {content rest : CStr}
    (read : lexemRead content reg = some (code, lexems)) (split : content = before ++ rest) :
    lexems.filter (StandsBehind before) = [lexem] ↔
      ComesTo reg content before rest ∧ IsFirstLexem reg before rest lexem :=
  (lexemRead_lexes read).filter_eq_singleton_iff split

/-- Expressions tried before the one that matches do not match. -/
theorem IsFirstMatch.vain_front {front back : List Regexp}
    (first : IsFirstMatch (front ++ back) regexp source next) (behind : regexp ∉ front) :
    ∀ other ∈ front, reMatch other source = some none := by
  -- The match is behind the front, so the whole front is tried before it.
  obtain ⟨tried, untried, split, vain, -⟩ := first
  rcases List.append_eq_append_iff.mp split with ⟨more, rfl, -⟩ | ⟨more, rfl, same⟩
  · exact fun other mem => vain other (List.mem_append_left more mem)
  · cases more with
    | nil => simpa using vain
    | cons other more =>
      obtain ⟨rfl, -⟩ := List.cons.inj same
      simp at behind

end Positions

section Named

/-- The name in a state of the reading of a file begins with a character. -/
def FileState.Named : FileState → Prop
  | .readingName text => cString text.reverse ≠ []
  | .readSecondBlanks name => cString name ≠ []
  | .readRegexp name _ => cString name ≠ []
  | .readFirstBlanks => True
  | .skipComment => True

variable {regexps regexps' : List Regexp} {name source : CStr} {state : FileState}

/-- An expression has the name that it was given. -/
theorem regexpNew_name {regexp : Regexp} (new : regexpNew name source = some regexp) :
    regexp.name = name := by
  simp only [regexpNew, Option.bind_eq_bind, Option.bind_eq_some_iff] at new
  obtain ⟨s, -, groups, -, new⟩ := new
  rw [← Option.some.inj new]

/-- A name that is not empty is not empty with more behind it. -/
theorem cString_append_ne_nil {text : CStr} (named : cString text ≠ []) (more : CStr) :
    cString (text ++ more) ≠ [] := by
  -- A C string with a first character keeps it.
  cases text with
  | nil => exact absurd rfl named
  | cons c text =>
    intro empty
    rw [cString, List.cons_append, List.takeWhile_cons] at empty
    rw [cString, List.takeWhile_cons] at named
    split at empty
    · cases empty
    · rename_i null
      simp [null] at named

/-- The expressions read have names that begin with a character. -/
theorem regexpReadFrom_named (noNull : '\x00' ∉ source) (begun : state.Named)
    (named : ∀ regexp ∈ regexps, cString regexp.name ≠ [])
    (read : regexpReadFrom regexps state source = some regexps') :
    ∀ regexp ∈ regexps', cString regexp.name ≠ [] := by
  -- One more expression, with the name that its line begins with.
  have extended : ∀ {regexps : List Regexp} {regexp name text},
      (∀ regexp ∈ regexps, cString regexp.name ≠ []) → cString name ≠ [] →
      regexpNew name text = some regexp →
      ∀ other ∈ regexps ++ [regexp], cString other.name ≠ [] := by
    intro regexps regexp name text named begun new other mem
    rcases List.mem_append.mp mem with mem | mem
    · exact named other mem
    · rw [List.mem_singleton.mp mem, regexpNew_name new]
      exact begun
  -- By induction on the file, one case for each state of the reader.
  induction source generalizing regexps state with
  | nil =>
    cases state with
    | readRegexp name text =>
      simp only [regexpReadFrom] at read
      split at read
      · rw [← Option.some.inj read]
        exact named
      · simp only [Option.bind_eq_bind, Option.bind_eq_some_iff] at read
        obtain ⟨regexp, new, read⟩ := read
        rw [← Option.some.inj read]
        exact extended named begun new
    | _ =>
      rw [← Option.some.inj read]
      exact named
  | cons c rest ih =>
    rw [List.mem_cons, not_or] at noNull
    cases state with
    | readFirstBlanks =>
      simp only [regexpReadFrom] at read
      split at read
      · exact ih noNull.2 (by trivial) named read
      · split at read
        · refine ih noNull.2 ?_ named read
          -- The first character of a name is neither a blank nor a null.
          simp [FileState.Named, cString, Ne.symm noNull.1]
        · exact ih noNull.2 (by trivial) named read
    | readingName text =>
      simp only [regexpReadFrom] at read
      split at read
      · exact ih noNull.2 (by trivial) named read
      · split at read
        · exact ih noNull.2 (by exact begun) named read
        · refine ih noNull.2 ?_ named read
          rw [FileState.Named, List.reverse_cons]
          exact cString_append_ne_nil begun [c]
    | readSecondBlanks name =>
      simp only [regexpReadFrom] at read
      split at read
      · exact ih noNull.2 (by exact begun) named read
      · exact ih noNull.2 (by exact begun) named read
    | readRegexp name text =>
      simp only [regexpReadFrom] at read
      split at read
      · rw [Option.bind_eq_some_iff] at read
        obtain ⟨regexp, new, read⟩ := read
        exact ih noNull.2 (by trivial) (extended named begun new) read
      · exact ih noNull.2 (by exact begun) named read
    | skipComment =>
      simp only [regexpReadFrom] at read
      split at read
      · exact ih noNull.2 (by trivial) named read
      · exact ih noNull.2 (by trivial) named read

/-- Every expression that a file without nulls describes has a name. -/
theorem regexpRead_named {content : CStr} (noNull : '\x00' ∉ content)
    (read : regexpRead content = some regexps) :
    ∀ regexp ∈ regexps, cString regexp.name ≠ [] := by
  have begun : FileState.Named .readFirstBlanks := trivial
  exact regexpReadFrom_named noNull begun (by simp) read

end Named

end MiniRiscV
