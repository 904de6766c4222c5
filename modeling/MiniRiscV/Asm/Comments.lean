import MiniRiscV.Asm.Joined
import MiniRiscV.Asm.Respelling

/-! Lines that hold a comment or blanks only, anywhere in a program: they change nothing. -/

namespace MiniRiscV

section Parsing

variable {newline : Lexem} {front ends lexems rest more more' : List Lexem}
  {lines : List AsmLine} {addr addr' : ℤ}

/-- A newline is never skipped. -/
theorem skip_newline {type : String} (mem : type ∈ ["blank", "comment"])
    (isNewline : lexemType newline "newline") :
    skip type (front ++ newline :: more) = skip type front ++ newline :: more := by
  -- The types of blanks, comments and newlines are three.
  have known : type ∈ "label" :: endTypes ∧ "newline" ≠ type := by
    simp only [List.mem_cons, List.not_mem_nil, or_false] at mem
    rcases mem with rfl | rfl <;> simp [endTypes]
  have other : lexemType newline type = false :=
    lexemType_other (by simp [endTypes]) known.1 known.2 isNewline
  cases front with
  | nil => simp [skip, startsWith, other]
  | cons lex front => exact skip_append type (by simp) _

/-- An end of line ends in front of a newline further on, or with it. -/
theorem readEnd_behind (isNewline : lexemType newline "newline")
    (read : readEnd (front ++ newline :: more) = some rest) :
    (∃ front', rest = front' ++ newline :: more ∧
      ∀ more', readEnd (front ++ newline :: more') = some (front' ++ newline :: more')) ∨
    rest = skip "blank" more ∧
      ∀ more', readEnd (front ++ newline :: more') = some (skip "blank" more') := by
  -- What may stand in front of the newline is skipped as before.
  have passed (more : List Lexem) : skip "comment" (skip "blank" (front ++ newline :: more)) =
      skip "comment" (skip "blank" front) ++ newline :: more := by
    rw [skip_newline (by simp) isNewline, skip_newline (by simp) isNewline]
  simp only [readEnd, passed] at read ⊢
  generalize skip "comment" (skip "blank" front) = before at read ⊢
  cases before with
  | nil =>
    -- The newline is that of this line.
    simp only [List.nil_append, isNewline, if_true, Option.some.injEq] at read ⊢
    exact .inr ⟨read.symm, fun _ => trivial⟩
  | cons lex behind =>
    -- The line ends at an earlier lexeme, if it ends.
    have blanks (more : List Lexem) : skip "blank" (behind ++ newline :: more) =
        skip "blank" behind ++ newline :: more := skip_newline (by simp) isNewline
    simp only [List.cons_append, blanks] at read ⊢
    split at read
    case isTrue isEnd =>
      simp only [isEnd, if_true, Option.some.injEq] at read ⊢
      exact .inl ⟨skip "blank" behind, read.symm, fun _ => rfl⟩
    case isFalse => cases read

/-- No instruction holds a newline. -/
theorem Fit.no_newline {prod : Production} (mem : prod ∈ productions) (fit : Fit prod.terms front) :
    ∀ lex ∈ front, lexemType lex "newline" = false := by
  -- A check of all productions: none has a term that a newline would fit.
  have others : ∀ prod ∈ productions, ∀ types ∈ prod.terms, ∀ type ∈ types,
      apart type "newline" := by
    decide +kernel
  intro lex inFront
  -- The lexeme stands at the place of some term.
  obtain ⟨i, inside, rfl⟩ := List.getElem_of_mem inFront
  have inside' : i < prod.terms.length := by
    rw [fit.length_eq]
    exact inside
  obtain ⟨type, inTypes, isType⟩ := List.any_eq_true.mp (fit.get inside' inside)
  exact lexemType_of_apart (others prod mem _ (List.get_mem _ _) type inTypes) isType

/-- Behind a newline, only what is read behind it matters. -/
theorem Items.behind_newline (isNewline : lexemType newline "newline")
    (behind : ∀ addr lines, Items (skip "blank" more) addr lines addr' →
      Items (skip "blank" more') addr lines addr')
    (items : Items (front ++ newline :: more) addr lines addr') :
    Items (front ++ newline :: more') addr lines addr' := by
  generalize shape : front ++ newline :: more = lexems at items
  -- By induction on the items, up to the end of line with the newline.
  induction items generalizing front with
  | nil => simp at shape
  | label isLabel _ ih =>
    cases front with
    | nil =>
      obtain ⟨rfl, -⟩ := List.cons.inj shape
      -- A newline is no label.
      rw [lexemType_other (by simp [endTypes]) (by simp) (by simp) isNewline] at isLabel
      cases isLabel
    | cons lex front =>
      obtain ⟨rfl, later⟩ := List.cons.inj shape
      exact .label isLabel (ih behind later)
  | @insn prod lexems taken rest _ _ _ mem matched _ ih =>
    obtain ⟨rfl, fit⟩ := matchTerms_eq_some.mp matched
    rcases List.append_eq_append_iff.mp shape with ⟨inside, rfl, later⟩ | ⟨front', rfl, later⟩
    · -- The newline would belong to the instruction, or else comes next.
      cases inside with
      | nil =>
        rw [List.append_nil] at fit ih ⊢
        exact .insn mem (matchTerms_eq_some.mpr ⟨rfl, fit⟩) (@ih [] behind later)
      | cons lex inside =>
        obtain ⟨rfl, -⟩ := List.cons.inj later
        have other := Fit.no_newline mem fit newline (by simp)
        rw [isNewline] at other
        cases other
    · -- The instruction ends in front of the newline.
      rw [List.append_assoc]
      exact .insn mem (matchTerms_eq_some.mpr ⟨rfl, fit⟩) (ih behind later.symm)
  | eol read items ih =>
    subst shape
    -- The line ends before the newline, or with it.
    rcases readEnd_behind isNewline read with ⟨front', rfl, reads⟩ | ⟨rfl, reads⟩
    · exact .eol (reads more') (ih behind rfl)
    · exact .eol (reads more') (behind _ _ items)

/-- An end of line behind a newline can be left out. -/
theorem items_behind_iff (isNewline : lexemType newline "newline")
    (only : readEnd (front ++ [newline]) = some []) :
    Items (skip "blank" (front ++ newline :: more)) addr lines addr' ↔
      Items (skip "blank" more) addr lines addr' := by
  -- The end of line is read up to its newline, with the blanks behind it.
  have read : readEnd (skip "blank" (front ++ newline :: more)) = some (skip "blank" more) := by
    rcases readEnd_behind isNewline only with ⟨front', nothing, -⟩ | ⟨-, reads⟩
    · simp at nothing
    · exact readEnd_skip (.inl rfl) (reads more)
  rw [items_end_iff (startsWith_readEnd read), read]
  simp

/-- Items stay items when an end of line comes behind a newline, and when it is left out. -/
theorem items_ended_iff {newline' : Lexem} (isNewline : lexemType newline "newline")
    (isNewline' : lexemType newline' "newline") (only : readEnd (ends ++ [newline']) = some []) :
    Items (front ++ newline :: (ends ++ newline' :: more)) addr lines addr' ↔
      Items (front ++ newline :: more) addr lines addr' := by
  -- Behind the first newline, the end of line makes no difference.
  have same (addr : ℤ) (lines : List AsmLine) :
      Items (skip "blank" (ends ++ newline' :: more)) addr lines addr' ↔
        Items (skip "blank" more) addr lines addr' := items_behind_iff isNewline' only
  constructor
  · exact Items.behind_newline isNewline fun addr lines => (same addr lines).mp
  · exact Items.behind_newline isNewline fun addr lines => (same addr lines).mpr

/-- So a program is accepted with the same lines. -/
theorem assemble_ended {newline' : Lexem} (isNewline : lexemType newline "newline")
    (isNewline' : lexemType newline' "newline") (only : readEnd (ends ++ [newline']) = some [])
    (fs : FileSystem) (verbose : Bool) (binfile : CStr) :
    assemble fs verbose (front ++ newline :: (ends ++ newline' :: more)) binfile =
      assemble fs verbose (front ++ newline :: more) binfile := by
  -- A comment at the very beginning is skipped in both.
  have same (lines : List AsmLine) (addr : ℤ) :
      Items (skip "comment" (front ++ newline :: (ends ++ newline' :: more))) 0 lines addr ↔
        Items (skip "comment" (front ++ newline :: more)) 0 lines addr := by
    rw [skip_newline (by simp) isNewline, skip_newline (by simp) isNewline]
    exact items_ended_iff isNewline isNewline' only
  -- Either program is accepted with the lines of the other one.
  refine assemble_congr ⟨fun accepted => ?_, fun accepted => ?_⟩ fun accepted => ?_
  · obtain ⟨lines, addr, items⟩ := accepted_items accepted
    exact ((same lines addr).mp items).parsed.1
  · obtain ⟨lines, addr, items⟩ := accepted_items accepted
    exact ((same lines addr).mpr items).parsed.1
  · obtain ⟨lines, addr, items⟩ := accepted_items accepted
    exact ((same lines addr).mpr items).parsed.2.trans items.parsed.2.symm

end Parsing

section Places

variable {lexems lexems' : List Lexem}

/-- The lexeme without its place in the source. -/
def Lexem.unplaced (lex : Lexem) : Lexem := { lex with line := 0, column := 0 }

/-- The parser reads the lexemes without their places as it reads them with these. -/
theorem follows_unplaced : Follows Lexem.unplaced id := .of_values (fun _ => rfl) fun _ => rfl

/-- A program is assembled as its lexemes say, wherever they stand in the source. -/
theorem assemble_unplaced (fs : FileSystem) (verbose : Bool) (binfile : CStr) :
    assemble fs verbose (lexems.map Lexem.unplaced) binfile =
      assemble fs verbose lexems binfile :=
  -- Neither the parser nor the lines depend on the places.
  assemble_congr follows_unplaced.accepted_iff follows_unplaced.parsedLines_id

/-- The lexeme without its place, and without its text when it is a run of newlines. -/
def Lexem.bare (lex : Lexem) : Lexem :=
  if lexemType lex "newline" then { lex.unplaced with value := [] } else lex.unplaced

/-- A lexeme that is no newline keeps its text. -/
theorem Lexem.bare_of_other {lex : Lexem} (other : lexemType lex "newline" = false) :
    lex.bare = lex.unplaced := if_neg (by simp [other])

/-- The parser does not read how many newlines a lexeme of them has. -/
theorem follows_bare : Follows Lexem.bare id where
  types lex := by
    rw [Lexem.bare]
    split <;> rfl
  label lex addr isLabel := by
    have other : lexemType lex "newline" = false :=
      lexemType_other (by simp) (by simp [endTypes]) (by simp) isLabel
    rw [Lexem.bare_of_other other]
    exact follows_unplaced.label lex addr isLabel
  emit prod mem taken addr fit := by
    -- None of the lexemes of an instruction is a newline.
    have same : taken.map Lexem.bare = taken.map Lexem.unplaced :=
      List.map_congr_left fun lex inTaken => Lexem.bare_of_other (fit.no_newline mem lex inTaken)
    rw [same]
    exact follows_unplaced.emit prod mem taken addr fit

/-- So a program is assembled without reading that. -/
theorem assemble_bare (fs : FileSystem) (verbose : Bool) (binfile : CStr) :
    assemble fs verbose (lexems.map Lexem.bare) binfile = assemble fs verbose lexems binfile :=
  assemble_congr follows_bare.accepted_iff follows_bare.parsedLines_id

/-- A lexeme some lines further down differs in its place only. -/
theorem Lexem.bare_shifted (lex : Lexem) (lines : ℕ) : (lex.shifted lines).bare = lex.bare := rfl

/-- Lexemes some lines further down are the same ones when the places are left out. -/
theorem map_bare_shifted (lines : ℕ) :
    (lexems.map (Lexem.shifted lines)).map Lexem.bare = lexems.map Lexem.bare :=
  List.map_map

end Places

section Lexing

variable {before source rest stops : CStr} {code code' : ℤ} {lexems lexems' : List Lexem}
  {regexp : Regexp}

/-- What is taken up to the last newline of a source is a run of newlines. -/
theorem newlineRegexp_of_whole (first : IsFirstMatch database regexp source [])
    (last : source.getLast? = some '\n') : regexp = newlineRegexp := by
  by_contra other
  -- Every other expression stops in front of the newline.
  obtain ⟨left, matched⟩ := exists_reMatch first.mem (rejects_newline first.mem other)
    source.dropLast
  have found := (matched []).symm
  rw [show source.dropLast ++ ['\n'] = source from List.dropLast_append_getLast? _ last,
    first.reMatch_eq] at found
  obtain ⟨left, -, nothing⟩ := Option.map_eq_some_iff.mp (Option.some.inj found)
  simp at nothing

/-- A source with a newline at its end has the lexeme of one at its end. -/
theorem Lexes.last_newline (lexes : Lexes database before source 0 lexems)
    (last : source.getLast? = some '\n') :
    ∃ front newline, lexems = front ++ [newline] ∧ lexemType newline "newline" := by
  generalize whole : (0 : ℤ) = code at lexes
  -- By induction on the lexemes, the last of which takes the newline.
  induction lexes with
  | done => cases last
  | stuck => cases whole
  | @lexem before text next regexp code lexems first some_text behind ih =>
    -- This is the last lexeme, or the newline is further on.
    by_cases empty : next = []
    · subst empty
      obtain ⟨-, rfl⟩ := behind.of_nil
      rw [List.append_nil] at last first
      obtain rfl := newlineRegexp_of_whole first last
      exact ⟨[], _, rfl, rfl⟩
    · rw [List.getLast?_append_of_ne_nil _ empty] at last
      obtain ⟨front, newline, rfl, isNewline⟩ := ih last whole
      exact ⟨_ :: front, newline, rfl, isNewline⟩

/-- What is left of a source behind which newlines are added, which a last run of them takes. -/
def ranOn (stops left : CStr) : CStr := if left = [] then [] else left ++ stops

/-- Ended lines are ended with more newlines behind them. -/
theorem EndsLine.newlines (ends : EndsLine source) (newlines : ∀ c ∈ stops, c = '\n') :
    EndsLine (source ++ stops) := by
  intro c mem
  cases stops with
  | nil => exact ends c (by simpa using mem)
  | cons d stops =>
    rw [List.getLast?_append_of_ne_nil _ (List.cons_ne_nil d stops)] at mem
    exact newlines c (List.mem_of_getLast? mem)

/-- Every match on ended lines is the same with more newlines behind them. -/
theorem reMatch_newlines (mem : regexp ∈ database) (last : source.getLast? = some '\n')
    (newlines : ∀ c ∈ stops, c = '\n') :
    reMatch regexp (source ++ stops) = (reMatch regexp source).map (Option.map (ranOn stops)) := by
  by_cases other : regexp = newlineRegexp
  case neg =>
    -- The match is decided in front of the last newline.
    obtain ⟨left, matched⟩ := exists_reMatch mem (rejects_newline mem other) source.dropLast
    rw [← List.dropLast_append_getLast? _ last, List.append_assoc, List.singleton_append, matched,
      matched]
    cases left with
    | none => rfl
    | some left => simp [ranOn]
  case pos =>
    subst other
    cases source with
    | nil => cases last
    | cons c rest =>
      by_cases newline : c = '\n'
      · subst newline
        -- A run up to the end takes the other newlines as well.
        have taken : stops.dropWhile (· = '\n') = [] :=
          List.dropWhile_eq_nil_iff.mpr fun c inStops => by simp [newlines c inStops]
        rw [List.cons_append, reMatch_newline, reMatch_newline, List.dropWhile_append, taken]
        simp [ranOn]
      · rw [List.cons_append, reMatch_newlineRegexp newline, reMatch_newlineRegexp newline]
        rfl

/-- So the first match is that of the same expression. -/
theorem IsFirstMatch.newlines {next : CStr} (first : IsFirstMatch database regexp source next)
    (last : source.getLast? = some '\n') (newlines : ∀ c ∈ stops, c = '\n') :
    IsFirstMatch database regexp (source ++ stops) (ranOn stops next) := by
  have mem := first.mem
  obtain ⟨tried, untried, order, vain, found⟩ := first
  refine ⟨tried, untried, order, fun other before => ?_, ?_⟩
  · rw [reMatch_newlines (by simp [order, before]) last newlines, vain other before]
    rfl
  · rw [reMatch_newlines mem last newlines, found]
    rfl

/-- A source with more newlines at its end is read as before, the last lexeme having them. -/
theorem Lexes.newlines (lexes : Lexes database before source code lexems)
    (last : source.getLast? = some '\n') (newlines : ∀ c ∈ stops, c = '\n') :
    ∃ lexems', Lexes database before (source ++ stops) code lexems' ∧
      lexems'.map Lexem.bare = lexems.map Lexem.bare := by
  -- By induction on the lexemes, up to the one that takes the last newline.
  induction lexes with
  | done => cases last
  | stuck some_char vain =>
    refine ⟨[], .stuck (by simp [some_char]) fun regexp mem => ?_, rfl⟩
    rw [reMatch_newlines mem last newlines, vain regexp mem]
    rfl
  | @lexem before text next regexp code lexems first some_text behind ih =>
    have further := first.newlines last newlines
    by_cases empty : next = []
    · subst empty
      obtain ⟨rfl, rfl⟩ := behind.of_nil
      rw [List.append_nil] at last first further ⊢
      obtain rfl := newlineRegexp_of_whole first last
      -- The last lexeme has the other newlines too.
      rw [← List.append_nil (text ++ stops)] at further ⊢
      exact ⟨_, .lexem further (by simp [some_text]) (.done _), rfl⟩
    · rw [List.getLast?_append_of_ne_nil _ empty] at last
      obtain ⟨lexems', lexes', same⟩ := ih last
      rw [ranOn, if_neg empty, List.append_assoc] at further
      rw [List.append_assoc]
      refine ⟨_, .lexem further some_text lexes', ?_⟩
      rw [List.map_cons, List.map_cons, same]

/-- Where a source in ended lines is stuck at some character, so it is in front of more lines. -/
theorem Lexes.append_stuck (lexes : Lexes database before source code lexems) (stuck : code ≠ 0)
    (ends : EndsLine source) (noNewline : rest.head? ≠ some '\n') :
    Lexes database before (source ++ rest) code lexems := by
  -- By induction on the lexemes in front of the character.
  induction lexes with
  | done => exact absurd rfl stuck
  | stuck some_char vain =>
    -- No expression matches here, and none does with more lines behind the source.
    refine .stuck (by simp [some_char]) fun regexp mem => ?_
    rw [(database_local regexp mem).append some_char ends noNewline, vain regexp mem]
    rfl
  | lexem first some_text _ ih =>
    have here := first.append database_local (by simp [some_text]) ends noNewline
    rw [List.append_assoc] at here ⊢
    exact .lexem here some_text (ih stuck ends.behind)

end Lexing

/-- Further lines behind a newline that are read as an end of line change nothing. -/
theorem assemble_inserted {lexems ends lexems' : List Lexem} {newline newline' : Lexem}
    (isNewline : lexemType newline "newline") (isNewline' : lexemType newline' "newline")
    (only : readEnd (ends ++ [newline']) = some []) (here line : ℕ) (fs : FileSystem)
    (verbose : Bool) (binfile : CStr) :
    assemble fs verbose (lexems ++ [newline] ++
        (ends ++ [newline'] ++ lexems'.map (Lexem.shifted line)).map (Lexem.shifted here)) binfile =
      assemble fs verbose (lexems ++ [newline] ++ lexems'.map (Lexem.shifted here)) binfile := by
  -- The inserted lexemes are an end of line wherever they stand.
  have only' : readEnd (ends.map Lexem.bare ++ [newline'.bare]) = some [] := by
    have same := @Follows.readEnd_eq _ _ (ends ++ [newline']) follows_bare
    rw [only, List.map_append] at same
    exact same
  have isNewline_bare : lexemType newline.bare "newline" := by
    rwa [follows_bare.lexemType_eq]
  have isNewline_bare' : lexemType newline'.bare "newline" := by
    rwa [follows_bare.lexemType_eq]
  -- The places of the lexemes behind it are the only difference that is left.
  have ended := @assemble_ended newline.bare (lexems.map Lexem.bare) (ends.map Lexem.bare)
    (lexems'.map Lexem.bare) newline'.bare isNewline_bare isNewline_bare' only' fs verbose binfile
  rw [← assemble_bare, ← @assemble_bare (lexems ++ [newline] ++ _)]
  simpa only [List.map_append, map_bare_shifted, Lexem.bare_shifted, List.map_cons, List.map_nil,
    List.append_assoc, List.cons_append, List.nil_append] using ended

section Sources

variable {fs : FileSystem} {verbose : Bool} {binfile first line second stops : CStr}
  {ends : List Lexem}

/-- What becomes of a source that is read with the expressions of `database.txt`. -/
def assembleSource (fs : FileSystem) (verbose : Bool) (binfile content : CStr) :
    Option (ExitCode × FileSystem) :=
  (lexemRead content database).bind fun tokens => assemble fs verbose tokens.2 binfile

/-- A run of the assembler is one on the content of its source file. -/
theorem main_eq_assembleSource {sourceFile regexpsFile content : CStr}
    (table : fs.read regexpsFile = some databaseText)
    (source : fs.read sourceFile = some content) :
    main fs (arguments sourceFile regexpsFile binfile verbose) =
      assembleSource fs verbose binfile content := by
  have tokens : tokenise fs sourceFile regexpsFile = lexemRead content database := by
    simp [tokenise, source, table, regexpRead_databaseText]
  rw [main_arguments, tokens, assembleSource]

/-- A reading tells what becomes of the source. -/
theorem assembleSource_of_lexes {content : CStr} {code : ℤ} {lexems : List Lexem}
    (lexes : Lexes database [] content code lexems) :
    assembleSource fs verbose binfile content = assemble fs verbose lexems binfile := by
  rw [assembleSource, lexemRead_of_lexes lexes, Option.bind_some]

/-- More newlines behind a line change nothing. -/
theorem assembleSource_newlines (lastOfFirst : first.getLast? = some '\n')
    (newlines : ∀ c ∈ stops, c = '\n') (headOfSecond : second.head? ≠ some '\n') :
    assembleSource fs verbose binfile (first ++ stops ++ second) =
      assembleSource fs verbose binfile (first ++ second) := by
  obtain ⟨code, lexems, read, -⟩ := lexemRead_database first
  have lexes := lexemRead_lexes read
  -- The first lines are read alike, to their end or to the same character.
  obtain ⟨lexems', lexes', same⟩ := lexes.newlines lastOfFirst newlines
  have ended := endsLine_of_getLast lastOfFirst
  have ended' := ended.newlines newlines
  by_cases stuck : code = 0
  case neg =>
    rw [assembleSource_of_lexes (lexes'.append_stuck stuck ended' headOfSecond),
      assembleSource_of_lexes (lexes.append_stuck stuck ended headOfSecond), ← assemble_bare,
      same, assemble_bare]
  case pos =>
    subst stuck
    obtain ⟨code', behind, read', -⟩ := lexemRead_database second
    -- The lexemes of the second source differ in their places only.
    have joined := lexes_joined (lexemRead_of_lexes lexes') read' ended' headOfSecond
    rw [assembleSource_of_lexes joined,
      assembleSource_of_lexes (lexes_joined read read' ended headOfSecond), ← assemble_bare,
      ← @assemble_bare (lexems ++ _), List.map_append, List.map_append, same, map_bare_shifted,
      map_bare_shifted]

/-- A line that begins with a newline and is an end of line holds newlines only. -/
theorem newlines_of_readEnd (lexes : Lexes database [] ('\n' :: line) 0 ends)
    (lastOfLine : ('\n' :: line).getLast? = some '\n') (only : readEnd ends = some []) :
    ∀ c ∈ line, c = '\n' := by
  generalize shape : '\n' :: line = source at lexes lastOfLine
  cases lexes with
  | done => cases shape
  | @lexem _ text next regexp _ lexems first some_text behind =>
    rw [← shape] at first
    by_cases other : regexp = newlineRegexp
    case neg =>
      -- Every other expression takes nothing here.
      exact absurd (take_nothing (rejects_newline first.mem other) first shape) some_text
    case pos =>
      subst other
      have found := (reMatch_newline line).symm.trans first.reMatch_eq
      rw [Option.some.injEq, Option.some.injEq] at found
      by_cases empty : next = []
      case pos =>
        intro c inLine
        simpa using List.dropWhile_eq_nil_iff.mp (found.trans empty) c inLine
      case neg =>
        -- What is left would end in a second lexeme of newlines, behind that of the line.
        rw [List.getLast?_append_of_ne_nil _ empty] at lastOfLine
        obtain ⟨front, newline, rfl, isNewline⟩ := behind.last_newline lastOfLine
        have begins : lexemType (lexemBehind [] newlineRegexp text) "newline" := rfl
        rcases @readEnd_behind _ [] _ _ begins only with ⟨front', nothing, -⟩ | ⟨nothing, -⟩
        · simp at nothing
        · rw [skip_newline (by simp) isNewline] at nothing
          simp at nothing

/-- A line that is an end of line, and does not begin with its newline, changes nothing. -/
theorem assembleSource_inserted (lastOfFirst : first.getLast? = some '\n')
    (lastOfLine : line.getLast? = some '\n') (headOfLine : line.head? ≠ some '\n')
    (headOfSecond : second.head? ≠ some '\n')
    (readLine : lexemRead line database = some (0, ends)) (only : readEnd ends = some []) :
    assembleSource fs verbose binfile (first ++ (line ++ second)) =
      assembleSource fs verbose binfile (first ++ second) := by
  have endsFirst := endsLine_of_getLast lastOfFirst
  have endsLine := endsLine_of_getLast lastOfLine
  -- An empty line would leave the second source, and any other begins with no newline.
  have headOfBoth : (line ++ second).head? ≠ some '\n' := by
    cases line with
    | nil => exact headOfSecond
    | cons c line => exact headOfLine
  obtain ⟨code, lexems, read, -⟩ := lexemRead_database first
  by_cases stuck : code = 0
  case neg =>
    -- Neither source is read further than to a character in its first lines.
    have lexes := lexemRead_lexes read
    rw [assembleSource_of_lexes (lexes.append_stuck stuck endsFirst headOfSecond),
      assembleSource_of_lexes (lexes.append_stuck stuck endsFirst headOfBoth)]
  case pos =>
    subst stuck
    obtain ⟨code', lexems', read', -⟩ := lexemRead_database second
    -- Behind the first lines, both sources are read in their pieces.
    have behind := lexemRead_of_lexes (lexes_joined readLine read' endsLine headOfSecond)
    rw [assembleSource_of_lexes (lexes_joined read read' endsFirst headOfSecond),
      assembleSource_of_lexes (lexes_joined read behind endsFirst headOfBoth)]
    -- The first lines and the inserted one end with a lexeme of newlines.
    obtain ⟨front, newline, rfl, isNewline⟩ := (lexemRead_lexes read).last_newline lastOfFirst
    obtain ⟨blanks, newline', rfl, isNewline'⟩ := (lexemRead_lexes readLine).last_newline lastOfLine
    exact assemble_inserted isNewline isNewline' only _ _ fs verbose binfile

/-- Any source begins with some newlines, or with none. -/
theorem exists_newlines (second : CStr) : ∃ stops rest : CStr, second = stops ++ rest ∧
    (∀ c ∈ stops, c = '\n') ∧ rest.head? ≠ some '\n' := by
  refine ⟨second.takeWhile (· = '\n'), second.dropWhile (· = '\n'),
    List.takeWhile_append_dropWhile.symm, fun c mem => ?_, fun newline => ?_⟩
  · simpa using List.mem_takeWhile_imp mem
  · have stops := List.head?_dropWhile_not (fun c : Char => decide (c = '\n')) second
    rw [newline] at stops
    simp at stops

end Sources

/--
A line that is read as an end of line only can be put behind any line of any source.

The line is empty, or it holds a blank, a comment or both in front of its newline. The run ends as
before, and with the same file. The source need neither be accepted nor be read to its end.
-/
theorem main_commented {fs : FileSystem}
    {sourceFile sourceFile' regexpsFile binfile first line second : CStr} {ends : List Lexem}
    (table : fs.read regexpsFile = some databaseText)
    (content : fs.read sourceFile = some (first ++ second))
    (content' : fs.read sourceFile' = some (first ++ (line ++ second)))
    (lastOfFirst : first.getLast? = some '\n') (lastOfLine : line.getLast? = some '\n')
    (readLine : lexemRead line database = some (0, ends)) (only : readEnd ends = some [])
    (verbose : Bool) :
    main fs (arguments sourceFile' regexpsFile binfile verbose) =
      main fs (arguments sourceFile regexpsFile binfile verbose) := by
  rw [main_eq_assembleSource table content, main_eq_assembleSource table content']
  -- The newlines in front of the second source belong to the last lexeme before it.
  obtain ⟨stops, rest, rfl, newlines, headOfRest⟩ := exists_newlines second
  have without : assembleSource fs verbose binfile (first ++ stops ++ rest) = _ :=
    assembleSource_newlines lastOfFirst newlines headOfRest
  rw [← List.append_assoc first stops, without]
  cases line with
  | nil => cases lastOfLine
  | cons c line =>
    by_cases newline : c = '\n'
    case pos =>
      -- An empty line is one newline more, or some.
      subst newline
      have all := newlines_of_readEnd (lexemRead_lexes readLine) lastOfLine only
      rw [← List.append_assoc ('\n' :: line), ← List.append_assoc first]
      refine assembleSource_newlines lastOfFirst (fun c mem => ?_) headOfRest
      simp only [List.cons_append, List.mem_cons, List.mem_append] at mem
      rcases mem with rfl | inLine | inStops
      · rfl
      · exact all c inLine
      · exact newlines c inStops
    case neg =>
      -- Any other line comes behind the first ones without the newlines.
      have lastOfBoth : (first ++ c :: line).getLast? = some '\n' := by
        rw [List.getLast?_append_of_ne_nil _ (by simp), lastOfLine]
      rw [← List.append_assoc (c :: line), ← List.append_assoc first, ← List.append_assoc first,
        assembleSource_newlines lastOfBoth newlines headOfRest, List.append_assoc]
      exact assembleSource_inserted lastOfFirst lastOfLine (by simpa using newline) headOfRest
        readLine only

/-- The files with a second source, which has a comment more, in front of an empty line. -/
def commentedFiles : FileSystem :=
  (filesOf "li r1,5\n\nend: j end\n").write "prog2.s".toList
    "li r1,5\n ; loop\n\nend: j end\n".toList

/-- Both sources are assembled alike. -/
theorem main_commented_loop :
    main commentedFiles
        (arguments "prog2.s".toList "database.txt".toList "prog.bin".toList true) =
      main commentedFiles
        (arguments "prog.s".toList "database.txt".toList "prog.bin".toList true) := by
  -- The line is read and passed by evaluation.
  have line : (lexemRead " ; loop\n".toList database).map (fun tokens =>
      (tokens.1, readEnd tokens.2)) = some (0, some []) := by
    decide +kernel
  obtain ⟨⟨code, ends⟩, readLine, is⟩ := Option.map_eq_some_iff.mp line
  obtain ⟨rfl, only⟩ := Prod.mk.inj is
  exact @main_commented _ _ _ _ _ "li r1,5\n".toList " ; loop\n".toList "\nend: j end\n".toList _
    rfl rfl rfl (by decide) (by decide) readLine only true

end MiniRiscV
