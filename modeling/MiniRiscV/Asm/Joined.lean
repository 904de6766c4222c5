import Mathlib.Data.List.ReduceOption
import MiniRiscV.Asm.Mapped
import MiniRiscV.Asm.References
import MiniRiscV.Lib.Delimiter

/-! Sources one behind the other: the lexemes of the second are those that it has alone. -/

namespace MiniRiscV

open Greedy

/-- The match of an expression up to the end of a line does not depend on the next line. -/
def Regexp.Local (regexp : Regexp) : Prop :=
  ∀ source rest : CStr, rest.head? ≠ some '\n' →
    reMatch regexp (source ++ '\n' :: rest) =
      (reMatch regexp (source ++ ['\n'])).map (Option.map (· ++ rest))

section Matching

variable {regexp : Regexp} {groups : List CharGroup} {source : CStr}

/-- The groups of an expression that are assigned hold no such character. -/
def Regexp.Rejects (regexp : Regexp) (stop : Char) : Prop :=
  ∀ group ∈ regexp.groups.reduceOption, charGroupIn group stop = false

/-- No expression of `database.txt` has a group that is missing. -/
theorem database_assigned : ∀ regexp ∈ database,
    regexp.groups = regexp.groups.reduceOption.map some ∧ regexp.groups ≠ [] := by
  decide +kernel

/-- An expression of `database.txt` matches in front of such a character as it does alone. -/
theorem exists_reMatch (mem : regexp ∈ database) {stop : Char} (rejects : regexp.Rejects stop)
    (source : CStr) : ∃ left : Option CStr, ∀ rest,
      reMatch regexp (source ++ stop :: rest) = some (left.map (· ++ stop :: rest)) := by
  -- The groups of the expression are all assigned, and none of them accepts the character.
  obtain ⟨assigned, some_group⟩ := database_assigned regexp mem
  obtain ⟨name, groups⟩ := regexp
  rw [Regexp.Rejects] at rejects
  dsimp only at assigned some_group rejects
  generalize groups.reduceOption = found at assigned rejects
  subst assigned
  have none_accepts : ∀ place ∈ found.map CharGroup.placeIn, place.accepts stop = false :=
    List.forall_mem_map.mpr rejects
  obtain ⟨left, walks⟩ := exists_walk none_accepts source
  refine ⟨left, fun rest => ?_⟩
  -- The source does not run out, so the outcome is that of the walk.
  rw [reMatch_map_some name _ (by simpa using some_group), outcome,
    runsOut_of_rejects none_accepts, walks]

/-- Where it rejects the next character, an expression takes nothing. -/
theorem take_nothing {text next : CStr} {stop : Char} (rejects : regexp.Rejects stop)
    (first : IsFirstMatch database regexp (stop :: source) next)
    (whole : stop :: source = text ++ next) : text = [] := by
  -- In front of the character the expression matches as it does on an empty source.
  obtain ⟨left, matched⟩ := exists_reMatch first.mem rejects []
  have found := (matched source).symm.trans first.reMatch_eq
  obtain ⟨left, rfl, rfl⟩ := Option.map_eq_some_iff.mp (Option.some.inj found)
  have lengths := congrArg List.length whole
  simp only [List.length_cons, List.length_append] at lengths
  exact List.eq_nil_of_length_eq_zero (by omega)

/-- Only the expression of the newlines holds one. -/
theorem rejects_newline (mem : regexp ∈ database) (other : regexp ≠ newlineRegexp) :
    regexp.Rejects '\n' := by
  have each : ∀ regexp ∈ database, regexp ≠ newlineRegexp →
      ∀ group ∈ regexp.groups.reduceOption, charGroupIn group '\n' = false := by
    decide +kernel
  exact each regexp mem other

/-- A run of newlines ends in front of a line that is not empty. -/
theorem local_newlineRegexp : newlineRegexp.Local := by
  intro source rest noNewline
  -- Nothing is dropped of the next line.
  have keeps : rest.dropWhile (· = '\n') = rest := by
    cases rest with
    | nil => rfl
    | cons c rest =>
      have other : c ≠ '\n' := fun newline => noNewline (by rw [newline]; rfl)
      simp [other]
  cases source with
  | nil =>
    rw [List.nil_append, List.nil_append, reMatch_newline, reMatch_newline, keeps]
    rfl
  | cons c source =>
    rw [List.cons_append, List.cons_append]
    by_cases newline : c = '\n'
    · subst newline
      have split : source ++ '\n' :: rest = (source ++ ['\n']) ++ rest := by simp
      rw [reMatch_newline, reMatch_newline, split, List.dropWhile_append, keeps]
      split
      case isTrue empty => simp [List.isEmpty_iff.mp empty]
      case isFalse => rfl
    · rw [reMatch_newlineRegexp newline, reMatch_newlineRegexp newline]
      rfl

/-- The match of every expression of `database.txt` is decided by the line, but for its end. -/
theorem database_local : ∀ regexp ∈ database, regexp.Local := by
  intro regexp mem
  by_cases other : regexp = newlineRegexp
  · rw [other]
    exact local_newlineRegexp
  · intro source rest _
    -- Every other expression stops at the newline.
    obtain ⟨left, matched⟩ := exists_reMatch mem (rejects_newline mem other) source
    rw [matched, matched]
    cases left with
    | none => rfl
    | some left => simp

/-- A comment takes the characters up to the first that its group rejects. -/
theorem reMatch_comment (source : CStr) : reMatch commentRegexp (';' :: source) =
    some (some (source.dropWhile (charGroupIn (charGroupSingleChar '\n' true .nop)))) := by
  have semicolon : charGroupIn (charGroupSingleChar ';' false .nop) ';' := by decide
  -- A comment is a semicolon and a run of what is no newline.
  have whole : reMatch commentRegexp (';' :: source) = some (outcome
      [(charGroupSingleChar ';' false .nop).placeIn,
        { charGroupSingleChar '\n' true .nop with operator := .zom }.placeIn] (';' :: source)) :=
    reMatch_map_some "comment".toList [charGroupSingleChar ';' false .nop,
      { charGroupSingleChar '\n' true .nop with operator := .zom }] (by simp) (';' :: source)
  rw [whole, outcome_takes (.inl rfl) semicolon]
  exact congrArg some (outcome_last_run _ source)

end Matching

/-- The source is empty, or its last line is ended. -/
def EndsLine (source : CStr) : Prop := ∀ c ∈ source.getLast?, c = '\n'

instance (source : CStr) : Decidable (EndsLine source) :=
  Option.decidableForallMem source.getLast?

/-- A source with a newline at its end has ended lines. -/
theorem endsLine_of_getLast {source : CStr} (last : source.getLast? = some '\n') :
    EndsLine source := fun _ mem => Option.some.inj (mem.symm.trans last)

/-- The lexeme some lines further down. -/
def Lexem.shifted (lines : ℕ) (lex : Lexem) : Lexem := { lex with line := lex.line + lines }

section Lexemes

variable {reg : List Regexp} {regexp : Regexp} {front before source next rest : CStr}
  {code : ℤ} {lexems lexems' : List Lexem}

/-- What is left of a source whose last line is ended is such a source. -/
theorem EndsLine.behind (ends : EndsLine (before ++ rest)) : EndsLine rest := by
  intro c mem
  refine ends c ?_
  rw [List.getLast?_append, mem]
  rfl

/-- Behind ended lines, the position in the line is the same. -/
theorem columnBehind_append (ends : EndsLine front) (before : CStr) :
    columnBehind (front ++ before) = columnBehind before := by
  rw [columnBehind, columnBehind, List.reverse_append, List.takeWhile_append]
  split
  case isFalse => rfl
  case isTrue whole =>
    -- The line goes back to the end of the lines in front.
    have stops : front.reverse.takeWhile (· ≠ '\n') = [] := by
      cases shape : front.reverse with
      | nil => rfl
      | cons c others =>
        have last : front.getLast? = some c := by
          rw [List.getLast?_eq_head?_reverse, shape]
          rfl
        simp [ends c last]
    have same := (List.takeWhile_prefix (l := before.reverse) (· ≠ '\n')).eq_of_length whole
    rw [stops, List.append_nil, same]

/-- The lines in front are counted. -/
theorem lineBehind_append (front before : CStr) :
    lineBehind (front ++ before) = lineBehind before + front.count '\n' := by
  rw [lineBehind, lineBehind, List.count_append]
  push_cast
  omega

/-- Behind ended lines, a source has the same lexemes further down. -/
theorem Lexes.shifted (lexes : Lexes reg before source code lexems) (ends : EndsLine front) :
    Lexes reg (front ++ before) source code (lexems.map (Lexem.shifted (front.count '\n'))) := by
  -- By induction on the lexemes.
  induction lexes with
  | done before => exact .done _
  | stuck some_char vain => exact .stuck some_char vain
  | @lexem before text next regexp code lexems first some_text _ ih =>
    rw [← List.append_assoc] at ih
    have here : (lexemBehind before regexp text).shifted (front.count '\n') =
        lexemBehind (front ++ before) regexp text := by
      simp [lexemBehind, Lexem.shifted, columnBehind_append ends, lineBehind_append]
    rw [List.map_cons, here]
    exact .lexem first some_text ih

/-- Up to the end of the last line, every match is decided without what comes behind. -/
theorem Regexp.Local.append (isLocal : regexp.Local) (some_char : source ≠ [])
    (ends : EndsLine source) (noNewline : rest.head? ≠ some '\n') :
    reMatch regexp (source ++ rest) = (reMatch regexp source).map (Option.map (· ++ rest)) := by
  have last : source = source.dropLast ++ ['\n'] := by
    rw [← ends _ (List.getLast?_eq_some_getLast some_char), List.dropLast_append_getLast]
  rw [last, List.append_assoc]
  exact isLocal _ _ noNewline

/-- A match on ended lines is one on them with more lines behind. -/
theorem IsFirstMatch.append (first : IsFirstMatch reg regexp source next)
    (each : ∀ regexp ∈ reg, regexp.Local) (some_char : source ≠ []) (ends : EndsLine source)
    (noNewline : rest.head? ≠ some '\n') :
    IsFirstMatch reg regexp (source ++ rest) (next ++ rest) := by
  obtain ⟨tried, untried, rfl, vain, found⟩ := first
  refine ⟨tried, untried, rfl, fun other mem => ?_, ?_⟩
  · rw [(each other (List.mem_append_left _ mem)).append some_char ends noNewline, vain other mem]
    rfl
  · rw [(each regexp (by simp)).append some_char ends noNewline, found]
    rfl

/-- A source in ended lines is read in front of more lines as it is alone. -/
theorem Lexes.append (lexes : Lexes reg before source 0 lexems)
    (each : ∀ regexp ∈ reg, regexp.Local) (ends : EndsLine source)
    (noNewline : rest.head? ≠ some '\n')
    (lexes' : Lexes reg (before ++ source) rest code lexems') :
    Lexes reg before (source ++ rest) code (lexems ++ lexems') := by
  -- By induction on the lexemes, behind each of which ended lines are left.
  generalize whole : (0 : ℤ) = done at lexes
  induction lexes with
  | done before => simpa using lexes'
  | stuck some_char vain => cases whole
  | @lexem before text next regexp code' lexems first some_text _ ih =>
    rw [← List.append_assoc] at lexes'
    have behind := ih ends.behind lexes' whole
    -- The first lexeme is the same with the other lines behind it.
    have here := first.append each (by simp [some_text]) ends noNewline
    rw [List.append_assoc] at here ⊢
    exact .lexem here some_text behind

/-- A source has one reading. -/
theorem Lexes.unique {code' : ℤ} (lexes : Lexes reg before source code lexems)
    (lexes' : Lexes reg before source code' lexems') : code = code' ∧ lexems = lexems' := by
  -- By induction on the lexemes, each of which leaves the same source.
  induction lexes generalizing lexems' with
  | done before =>
    obtain ⟨rfl, rfl⟩ := lexes'.of_nil
    exact ⟨rfl, rfl⟩
  | stuck some_char vain =>
    cases lexes' with
    | done => exact absurd rfl some_char
    | stuck => exact ⟨rfl, rfl⟩
    | lexem first => exact (first.false_of_none vain).elim
  | lexem first some_text _ ih =>
    obtain ⟨later, rfl, behind⟩ := lexes'.passes first some_text
    obtain ⟨rfl, rfl⟩ := ih behind
    exact ⟨rfl, rfl⟩

/-- A reading with the expressions of `database.txt` is the one that is made. -/
theorem lexemRead_of_lexes {content : CStr} (lexes : Lexes database [] content code lexems) :
    lexemRead content database = some (code, lexems) := by
  -- The source is read in some way, which is this one.
  obtain ⟨code', all, whole, -⟩ := lexemRead_database content
  obtain ⟨rfl, rfl⟩ := (lexemRead_lexes whole).unique lexes
  exact whole

/-- Two sources, the first in ended lines, are read one behind the other. -/
theorem lexes_joined {first second : CStr} (read : lexemRead first database = some (0, lexems))
    (read' : lexemRead second database = some (code, lexems'))
    (ends : EndsLine first) (noNewline : second.head? ≠ some '\n') :
    Lexes database [] (first ++ second) code
      (lexems ++ lexems'.map (Lexem.shifted (first.count '\n'))) := by
  -- The second source is read behind the first one, where only its lines differ.
  have behind := (lexemRead_lexes read').shifted ends
  rw [List.append_nil] at behind
  exact (lexemRead_lexes read).append database_local ends noNewline behind

/--
A source in ended lines and one behind it are read as the lexemes of the one and of the other.

The first one is read to its end. The second one does not begin with a newline, which would be read
together with the last one of the first. Its lexemes are found as many lines further down as the
first one has, and its code is that of the whole.
-/
theorem lexemRead_append {first second : CStr}
    (read : lexemRead first database = some (0, lexems))
    (read' : lexemRead second database = some (code, lexems'))
    (ends : EndsLine first) (noNewline : second.head? ≠ some '\n') :
    lexemRead (first ++ second) database =
      some (code, lexems ++ lexems'.map (Lexem.shifted (first.count '\n'))) :=
  lexemRead_of_lexes (lexes_joined read read' ends noNewline)

/-- The label of a comment's line is found on the second line behind a first one. -/
theorem lexemRead_append_label : ∃ lexems lexems',
    lexemRead "li r1,5\n".toList database = some (0, lexems) ∧
    lexemRead "end: ; done\n$".toList database = some (-1, lexems') ∧
    lexemRead ("li r1,5\n".toList ++ "end: ; done\n$".toList) database =
      some (-1, lexems ++ lexems'.map (Lexem.shifted 1)) := by
  have codes : (lexemRead "li r1,5\n".toList database).map Prod.fst = some 0 ∧
      (lexemRead "end: ; done\n$".toList database).map Prod.fst = some (-1) := by
    decide +kernel
  obtain ⟨⟨_, lexems⟩, read, rfl⟩ := Option.map_eq_some_iff.mp codes.1
  obtain ⟨⟨_, lexems'⟩, read', rfl⟩ := Option.map_eq_some_iff.mp codes.2
  exact ⟨lexems, lexems', read, read', lexemRead_append read read' (by decide) (by decide)⟩

/-- Only a newline, and what is no character of seven bits, is not part of a comment. -/
theorem rejected_by_comment {c : Char}
    (rejected : charGroupIn (charGroupSingleChar '\n' true .nop) c = false) :
    c = '\n' ∨ 128 ≤ c.toNat := by
  by_contra others
  rw [not_or, Nat.not_le] at others
  have apart : c.toNat ≠ 10 := fun value => others.1 (Char.toNat_inj.mp value)
  have flag : (charGroupSingleChar '\n' true .nop).group = ~~~(1#256 <<< 10) := by decide
  -- The flag of every other character is set.
  rw [charGroupIn, flag, BitVec.getLsbD_not, getLsbD_single (by omega)] at rejected
  simp [others.2, apart, show c.toNat < 256 by omega] at rejected

/-- Where a comment ends in front of a newline further on, a lexeme of newlines comes next. -/
theorem newline_behind {chars : CStr} (newline : '\n' ∈ chars ++ next)
    (ends : (chars ++ next).dropWhile (charGroupIn (charGroupSingleChar '\n' true .nop)) = next)
    (lexes : Lexes database before next 0 lexems) :
    ∃ newline behind, lexems = newline :: behind ∧ lexemType newline "newline" := by
  cases next with
  | nil =>
    -- The comment would go over the newline.
    have all := List.dropWhile_eq_nil_iff.mp ends '\n' newline
    exact absurd all (by decide)
  | cons d rest =>
    have rejected : charGroupIn (charGroupSingleChar '\n' true .nop) d = false := by
      have head := List.head?_dropWhile_not
        (charGroupIn (charGroupSingleChar '\n' true .nop)) (chars ++ d :: rest)
      rw [ends] at head
      simpa using head
    generalize shape : d :: rest = source at lexes
    cases lexes with
    | done => cases shape
    | @lexem _ text next regexp _ _ first some_text _ =>
      rw [← shape] at first
      by_cases other : regexp = newlineRegexp
      · subst other
        exact ⟨_, _, rfl, rfl⟩
      · -- Every other expression takes nothing here.
        refine absurd (take_nothing ?_ first shape) some_text
        rcases rejected_by_comment rejected with rfl | wide
        · exact rejects_newline first.mem other
        · intro group _
          simp [charGroupIn, Nat.not_lt.mpr wide]

/-- A comment that a newline comes behind is followed by its lexeme. -/
theorem Lexes.behind_comment {lex : Lexem} (lexes : Lexes database before source 0 (lex :: lexems))
    (isComment : lexemType lex "comment") (ended : source.head? = some ';' → '\n' ∈ source) :
    ∃ newline behind, lexems = newline :: behind ∧ lexemType newline "newline" := by
  -- The lexeme is read by the expression of comments.
  have named : ∀ regexp ∈ database, "comment".toList.isPrefixOf (cString regexp.name) →
      regexp = commentRegexp := by
    decide +kernel
  generalize shape : lex :: lexems = all at lexes
  cases lexes with
  | done => cases shape
  | @lexem _ text next regexp _ _ first some_text behind =>
    obtain ⟨rfl, rfl⟩ := List.cons.inj shape
    obtain rfl := named regexp first.mem isComment
    obtain ⟨c, chars, rfl⟩ := List.exists_cons_of_ne_nil some_text
    have found := first.reMatch_eq
    rw [List.cons_append] at found ended
    by_cases semicolon : c = ';'
    case neg =>
      rw [reMatch_commentRegexp semicolon] at found
      cases found
    case pos =>
      subst semicolon
      rw [reMatch_comment, Option.some.injEq, Option.some.injEq] at found
      have newline : '\n' ∈ chars ++ next := by simpa using ended rfl
      exact newline_behind newline found behind

end Lexemes

section Programs

variable {lexems first second : List Lexem} {words words' : List Word} {loop loop' : Word} {k : ℕ}

/-- The lines of a program do not depend on the places of its lexemes. -/
theorem follows_shifted : Follows (Lexem.shifted k) id :=
  .of_values (fun _ => rfl) fun _ => rfl

/-- Further down, a program is parsed as before. -/
theorem parsedLines_shifted (accepted : Accepted lexems) :
    parsedLines (lexems.map (Lexem.shifted k)) = parsedLines lexems :=
  follows_shifted.parsedLines_id accepted

/-- Further down, a program is assembled as before. -/
theorem Assembled.shifted (assembled : Assembled lexems words) :
    Assembled (lexems.map (Lexem.shifted k)) words := by
  obtain ⟨accepted, resolved, written⟩ := assembled
  have same := parsedLines_shifted (k := k) accepted
  refine ⟨follows_shifted.accepted_iff.mpr accepted, by rw [same, resolved], ?_⟩
  rw [← written, writtenLines, writtenLines, same]

/-- Lexemes further down are items as before. -/
theorem Continues.shifted (continues : Continues lexems) :
    Continues (lexems.map (Lexem.shifted k)) := by
  obtain ⟨lines, addr, items⟩ := continues
  exact ⟨_, _, follows_shifted.items items⟩

/-- The labels of a program stay apart from another one when it comes to lie further down. -/
theorem Separate.shifted (separate : Separate first second) (accepted : Accepted second) :
    Separate first (second.map (Lexem.shifted k)) := by
  have same : bodyLines (second.map (Lexem.shifted k)) = bodyLines second := by
    rw [bodyLines, bodyLines, parsedLines_shifted accepted]
  exact ⟨by rw [same]; exact separate.kept, by rw [same]; exact separate.own⟩

/-- A program that is read to its end goes on from any line, but for a comment without an end. -/
theorem continues_of_read {content : CStr} (read : lexemRead content database = some (0, lexems))
    (accepted : Accepted lexems) (ended : content.head? = some ';' → '\n' ∈ content) :
    Continues lexems := by
  obtain ⟨lines, addr, items⟩ := accepted_items accepted
  by_cases starts : startsWith ["comment"] lexems
  · cases lexems with
    | nil => cases starts
    | cons lex lexems =>
      have isComment : lexemType lex "comment" := by simpa [startsWith] using starts
      -- The comment is part of the end of line that the newline behind it makes.
      obtain ⟨newline, behind, rfl, isNewline⟩ :=
        (lexemRead_lexes read).behind_comment isComment ended
      have passed : skip "comment" (lex :: newline :: behind) = newline :: behind := by
        simp [skip, startsWith, isComment]
      rw [passed] at items
      have noBlank : lexemType lex "blank" = false :=
        lexemType_other (by simp [endTypes]) (by simp [endTypes]) (by simp) isComment
      have noBlank' : lexemType newline "blank" = false :=
        lexemType_other (by simp [endTypes]) (by simp [endTypes]) (by simp) isNewline
      have noComment : lexemType newline "comment" = false :=
        lexemType_other (by simp [endTypes]) (by simp [endTypes]) (by simp) isNewline
      have starts' : startsWith endTypes (newline :: behind) := by
        simp [startsWith, endTypes, isNewline]
      obtain ⟨rest, ends, items⟩ := (items_end_iff starts').mp items
      refine ⟨lines, addr, @Items.eol _ rest _ _ _ ?_ items⟩
      simpa [readEnd, skip, startsWith, isComment, isNewline, noBlank, noBlank', noComment]
        using ends
  · rw [skip, if_neg starts] at items
    exact ⟨lines, addr, items⟩

end Programs

/--
The concatenation of two sources is assembled as the words of the one and those of the other.

Each of the two is read to its end and assembled on its own. The first one ends its last line. The
second one does not begin with a newline, has one behind a comment that it begins with, and defines
the labels that it uses and none of the first. No word of it depends on where it comes to lie.
-/
theorem main_joined {fs : FileSystem} {sourceFile regexpsFile binfile first second : CStr}
    {lexems lexems' : List Lexem} {words words' : List Word} {loop loop' : Word}
    (table : fs.read regexpsFile = some databaseText) (writable : fs.writable binfile)
    (content : fs.read sourceFile = some (first ++ second))
    (read : lexemRead first database = some (0, lexems))
    (read' : lexemRead second database = some (0, lexems'))
    (ends : EndsLine first) (noNewline : second.head? ≠ some '\n')
    (ended : second.head? = some ';' → '\n' ∈ second)
    (assembled : Assembled lexems (words ++ [loop]))
    (assembled' : Assembled lexems' (words' ++ [loop'])) (separate : Separate lexems lexems') :
    ∃ last, main fs (arguments sourceFile regexpsFile binfile true) =
        some (.success, fs.write binfile
          (fileText ((words ++ words' ++ [last]).map BitVec.binaryText))) ∧
      (definitions (bodyLines lexems ++ bodyLines lexems') (stringConvert "PROG_START") = [] →
        last = loopWord (-4 * (words.length + words'.length))) := by
  -- The lexemes of the second source are only found further down.
  have whole := lexemRead_of_lexes (lexes_joined read read' ends noNewline)
  have accepted' := assembled'.accepted
  have continues := (continues_of_read read' accepted' ended).shifted (k := first.count '\n')
  obtain ⟨last, joined, jumps⟩ :=
    assembled_append assembled assembled'.shifted continues (separate.shifted accepted')
  have tokens : tokenise fs sourceFile regexpsFile =
      some (0, lexems ++ lexems'.map (Lexem.shifted (first.count '\n'))) := by
    simp [tokenise, content, table, regexpRead_databaseText, whole]
  refine ⟨last, ?_, ?_⟩
  · rw [main_arguments, tokens, Option.bind_some, assemble_of_accepted joined.accepted fun _ =>
      (asmLineUpdateAdress_code _).mp joined.resolved, if_pos writable, joined.written]
    rfl
  · intro undefined
    refine jumps ?_
    rw [bodyLines, bodyLines] at undefined ⊢
    rwa [parsedLines_shifted accepted']

/-- What is read, assembled and linked of `li` and of an endless loop behind a comment. -/
private theorem joinedRuns :
    (lexemRead "li r1,5\n".toList database).map (fun read =>
        (read.1, decide (Accepted read.2), (asmLineUpdateAdress (parsedLines read.2)).1,
          asmLineText (writtenLines true read.2) =
              some (fileText ([0x00500093#32, 0x7FD7F36F#32].map BitVec.binaryText)) &&
            (insnLines (bodyLines read.2)).all fun line => !line.isControl)) =
      some (0, true, 0, true) ∧
    (lexemRead "; loop\nend:\nj end\n".toList database).map (fun read =>
        (read.1, decide (Accepted read.2), (asmLineUpdateAdress (parsedLines read.2)).1,
          asmLineText (writtenLines true read.2) =
              some (fileText ([0x0000036F#32, 0x7FD7F36F#32].map BitVec.binaryText)) &&
            (insnLines (bodyLines read.2)).all fun line =>
              !(definitions (bodyLines read.2) line.label).isEmpty)) =
      some (0, true, 0, true) := by
  -- Both programs are read, parsed and written.
  decide +kernel

/-- The loop has the word that it has alone, and the closing jump leads back to the `li`. -/
theorem main_joined_loop : ∃ last,
    main (filesOf ("li r1,5\n" ++ "; loop\nend:\nj end\n"))
        (arguments "prog.s".toList "database.txt".toList "prog.bin".toList true) =
      some (.success, (filesOf ("li r1,5\n" ++ "; loop\nend:\nj end\n")).write "prog.bin".toList
        (fileText ([0x00500093#32, 0x0000036F#32, last].map BitVec.binaryText))) := by
  obtain ⟨⟨code, lexems⟩, read, same⟩ := Option.map_eq_some_iff.mp joinedRuns.1
  obtain ⟨⟨code', lexems'⟩, read', same'⟩ := Option.map_eq_some_iff.mp joinedRuns.2
  simp only [Prod.mk.injEq, decide_eq_true_eq, Bool.and_eq_true, List.all_eq_true,
    Bool.not_eq_true', List.isEmpty_eq_false_iff] at same same'
  obtain ⟨rfl, accepted, resolved, written, free⟩ := same
  obtain ⟨rfl, accepted', resolved', written', own⟩ := same'
  -- The first program uses no label, and the second only its own.
  have separate : Separate lexems lexems' :=
    ⟨fun line mem control => absurd control (by simp [free line mem]),
      fun line mem _ => own line mem⟩
  obtain ⟨last, run, -⟩ := @main_joined (filesOf ("li r1,5\n" ++ "; loop\nend:\nj end\n"))
    "prog.s".toList "database.txt".toList "prog.bin".toList "li r1,5\n".toList
    "; loop\nend:\nj end\n".toList lexems lexems' [0x00500093#32] [0x0000036F#32] 0x7FD7F36F#32
    0x7FD7F36F#32 rfl rfl rfl read read' (by decide) (by decide)
    (by decide) ⟨accepted, resolved, written⟩ ⟨accepted', resolved', written'⟩ separate
  exact ⟨last, run⟩

end MiniRiscV
