import MiniRiscV.Asm.Parser
import MiniRiscV.Asm.Regexp

/-! `lexem.c`: the lexemes of a source text, each by the first regular expression that fits. -/

namespace MiniRiscV

/-- The part of some bytes that is a C string. -/
def cString (text : CStr) : CStr := text.takeWhile (· ≠ '\x00')

/-- `lexem_new`, none when it leaves a text of the lexeme unassigned. -/
def lexemNew (type value : CStr) (line column : ℤ) : Option Lexem :=
  if cString type = [] ∨ cString value = [] then none
  else some { type := cString type, value := cString value, line, column }

/-- The inner loop of `lexem_read`: the first expression that matches, and what it leaves. -/
def firstRegexp : List Regexp → CStr → Option (Option (Regexp × CStr))
  | [], _ => some none
  | reg :: regs, source => do
    match ← reMatch reg source with
    | some next => return some (reg, next)
    | none => firstRegexp regs source

/-- The line and the column behind some characters. -/
def advance (line column : ℤ) (text : CStr) : ℤ × ℤ :=
  text.foldl (fun (line, column) c => if c = '\n' then (line + 1, 1) else (line, column + 1))
    (line, column)

/-- The outer loop of `lexem_read`, none when it crashes or takes nothing off the source. -/
def lexemReadFrom (reg : List Regexp) :
    ℕ → List Lexem → ℤ × ℤ → CStr → Option (ℤ × List Lexem)
  | 0, _, _, _ => none
  | fuel + 1, lex, (line, column), source =>
    if source.isEmpty then some (0, lex)
    else do
      match ← firstRegexp reg source with
      -- The lexemes read so far stay in the list.
      | none => return (-1, lex)
      | some (regexp, next) =>
        let value := source.take (source.length - next.length)
        let lexem ← lexemNew regexp.name value line column
        lexemReadFrom reg fuel (lex ++ [lexem]) (advance line column value) next

/-- `lexem_read` on the contents of the file: the code it returns, and the lexemes it leaves. -/
def lexemRead (content : CStr) (reg : List Regexp) : Option (ℤ × List Lexem) :=
  lexemReadFrom reg (content.length + 1) [] (1, 1) content

/-- The line on which the text behind some characters begins. -/
def lineBehind (before : CStr) : ℤ := 1 + before.count '\n'

/-- The column at which the text behind some characters begins. -/
def columnBehind (before : CStr) : ℤ := 1 + (before.reverse.takeWhile (· ≠ '\n')).length

/-- An expression is the first of a list that matches, and leaves a rest of the source. -/
def IsFirstMatch (reg : List Regexp) (regexp : Regexp) (source next : CStr) : Prop :=
  ∃ tried untried, reg = tried ++ regexp :: untried ∧
    (∀ other ∈ tried, reMatch other source = some none) ∧
    reMatch regexp source = some (some next)

/-- The lexeme of an expression for a text, with some characters before it. -/
def lexemBehind (before : CStr) (regexp : Regexp) (text : CStr) : Lexem where
  type := cString regexp.name
  value := cString text
  line := lineBehind before
  column := columnBehind before

/-- The reading of a source behind some characters: the code, and the lexemes it adds. -/
inductive Lexes (reg : List Regexp) : CStr → CStr → ℤ → List Lexem → Prop where
  /-- The source is read to its end. -/
  | done (before : CStr) : Lexes reg before [] 0 []
  /-- No expression matches what is left. -/
  | stuck {before source : CStr} : source ≠ [] →
      (∀ regexp ∈ reg, reMatch regexp source = some none) → Lexes reg before source (-1) []
  /-- The first expression that matches takes a lexeme off the source. -/
  | lexem {before text next : CStr} {regexp : Regexp} {code : ℤ} {lexems : List Lexem} :
      IsFirstMatch reg regexp (text ++ next) next → text ≠ [] →
      Lexes reg (before ++ text) next code lexems →
      Lexes reg before (text ++ next) code (lexemBehind before regexp text :: lexems)

section Positions

variable (before text : CStr)

/-- Characters are passed one text after the other. -/
theorem advance_append (line column : ℤ) :
    advance line column (before ++ text) =
      advance (advance line column before).1 (advance line column before).2 text :=
  List.foldl_append

/-- The line and the column are those behind the characters passed. -/
theorem advance_start : advance 1 1 before = (lineBehind before, columnBehind before) := by
  -- By induction from the last character, which is a newline or is not.
  induction before using List.reverseRecOn with
  | nil => rfl
  | append_singleton before c ih =>
    rw [advance_append, ih]
    by_cases newline : c = '\n'
    · simp [advance, newline, lineBehind, columnBehind]
      omega
    · simp [advance, newline, lineBehind, columnBehind]
      omega

end Positions

section Reading

variable {reg : List Regexp} {regexp : Regexp} {source next before : CStr} {lex lexems : List Lexem}
  {fuel : ℕ} {code : ℤ}

/-- The first match is by an expression of the list. -/
theorem IsFirstMatch.mem (first : IsFirstMatch reg regexp source next) : regexp ∈ reg := by
  obtain ⟨tried, untried, rfl, -, -⟩ := first
  simp

/-- The first match is a match. -/
theorem IsFirstMatch.reMatch_eq (first : IsFirstMatch reg regexp source next) :
    reMatch regexp source = some (some next) := by
  obtain ⟨-, -, -, -, found⟩ := first
  exact found

/-- The inner loop stops at the first match. -/
theorem firstRegexp_eq_some (found : firstRegexp reg source = some (some (regexp, next))) :
    IsFirstMatch reg regexp source next := by
  -- By induction on the list of expressions, as the loop goes through it.
  induction reg with
  | nil => cases found
  | cons first reg ih =>
    rw [firstRegexp] at found
    cases matched : reMatch first source with
    | none => simp [matched] at found
    | some result =>
      cases result with
      | none =>
        -- The first expression is tried in vain, and the match is behind it.
        obtain ⟨tried, untried, rfl, vain, matches'⟩ := ih (by simpa [matched] using found)
        exact ⟨first :: tried, untried, rfl, List.forall_mem_cons.mpr ⟨matched, vain⟩, matches'⟩
      | some left =>
        obtain ⟨rfl, rfl⟩ : first = regexp ∧ left = next := by simpa [matched] using found
        exact ⟨[], reg, rfl, by simp, matched⟩

/-- A first match is where the inner loop stops. -/
theorem IsFirstMatch.firstRegexp_eq (first : IsFirstMatch reg regexp source next) :
    firstRegexp reg source = some (some (regexp, next)) := by
  -- By induction on the expressions that are tried before.
  obtain ⟨tried, untried, rfl, vain, found⟩ := first
  induction tried with
  | nil => simp [firstRegexp, found]
  | cons other tried ih =>
    rw [List.forall_mem_cons] at vain
    simpa [firstRegexp, vain.1] using ih vain.2

/-- The inner loop comes to the end of the list when nothing matches. -/
theorem firstRegexp_eq_none (found : firstRegexp reg source = some none) :
    ∀ regexp ∈ reg, reMatch regexp source = some none := by
  -- Each expression that is passed did not match.
  induction reg with
  | nil => simp
  | cons first reg ih =>
    rw [firstRegexp] at found
    cases matched : reMatch first source with
    | none => simp [matched] at found
    | some result =>
      cases result with
      | none => exact List.forall_mem_cons.mpr ⟨matched, ih (by simpa [matched] using found)⟩
      | some left => simp [matched] at found

/-- Expressions that all match or not are tried without a crash. -/
theorem firstRegexp_isSome (total : ∀ regexp ∈ reg, (reMatch regexp source).isSome) :
    (firstRegexp reg source).isSome := by
  -- By induction on the list, with the result of its first expression.
  induction reg with
  | nil => rfl
  | cons first reg ih =>
    rw [List.forall_mem_cons] at total
    obtain ⟨result, matched⟩ := Option.isSome_iff_exists.mp total.1
    rw [firstRegexp]
    cases result with
    | none => simpa [matched] using ih total.2
    | some left => simp [matched]

/-- The outer loop reads the source as the lexemes that it adds. -/
theorem lexemReadFrom_lexes
    (read : lexemReadFrom reg fuel lex (advance 1 1 before) source = some (code, lexems)) :
    ∃ added, lexems = lex ++ added ∧ Lexes reg before source code added := by
  -- By induction on the fuel, with the characters passed so far.
  induction fuel generalizing lex before source with
  | zero => cases read
  | succ fuel ih =>
    rw [advance_start, lexemReadFrom] at read
    by_cases done : source = []
    · obtain ⟨rfl, rfl⟩ : 0 = code ∧ lex = lexems := by simpa [done] using read
      rw [done]
      exact ⟨[], (List.append_nil _).symm, .done before⟩
    · cases first : firstRegexp reg source with
      | none => simp [done, first] at read
      | some result =>
        cases result with
        | none =>
          obtain ⟨rfl, rfl⟩ : -1 = code ∧ lex = lexems := by simpa [done, first] using read
          exact ⟨[], (List.append_nil _).symm, .stuck done (firstRegexp_eq_none first)⟩
        | some found =>
          obtain ⟨regexp, next⟩ := found
          have isFirst := firstRegexp_eq_some first
          simp only [done, first, List.isEmpty_iff, if_false, Option.bind_eq_bind,
            Option.bind_some, Option.bind_eq_some_iff] at read
          obtain ⟨lexem, new, read⟩ := read
          -- The lexeme has the text before what the match leaves.
          obtain ⟨text, rfl⟩ := reMatch_suffix isFirst.reMatch_eq
          rw [List.length_append, Nat.add_sub_cancel, List.take_left] at new read
          have position := advance_append before text 1 1
          rw [advance_start before] at position
          rw [← position] at read
          obtain ⟨added, rfl, behind⟩ := ih read
          -- A lexeme is only built when its name and its text are not empty.
          unfold lexemNew at new
          split at new
          · cases new
          · rename_i assigned
            obtain rfl := Option.some.inj new
            have some_text : text ≠ [] := by
              rintro rfl
              exact assigned (.inr rfl)
            exact ⟨_, List.append_assoc .., .lexem isFirst some_text behind⟩

/-- Expressions that match or not on every end of a source, a match taking its first character. -/
def Progress (reg : List Regexp) (content : CStr) : Prop :=
  ∀ regexp ∈ reg, ∀ source, source <:+ content → (reMatch regexp source).isSome ∧
    ∀ c rest next, source = c :: rest → reMatch regexp source = some (some next) →
      next.length < source.length ∧ c ≠ '\x00'

/-- An expression that makes progress in a source does so in every rest of it. -/
theorem Progress.suffix {content : CStr} (progress : Progress reg content)
    (suffix : source <:+ content) : Progress reg source :=
  fun regexp mem _ end_ => progress regexp mem _ (end_.trans suffix)

/-- With expressions that take characters, and are named, the outer loop comes to an end. -/
theorem lexemReadFrom_isSome {position : ℤ × ℤ} (progress : Progress reg source)
    (named : ∀ regexp ∈ reg, cString regexp.name ≠ []) (enough : source.length < fuel) :
    (lexemReadFrom reg fuel lex position source).isSome := by
  -- By induction on the fuel, which the characters left bound.
  induction fuel generalizing lex position source with
  | zero => omega
  | succ fuel ih =>
    obtain ⟨line, column⟩ := position
    rw [lexemReadFrom]
    cases source with
    | nil => rfl
    | cons c rest =>
      have total : (firstRegexp reg (c :: rest)).isSome :=
        firstRegexp_isSome fun regexp mem => (progress regexp mem _ List.suffix_rfl).1
      obtain ⟨result, first⟩ := Option.isSome_iff_exists.mp total
      cases result with
      | none => simp [first]
      | some found =>
        obtain ⟨regexp, next⟩ := found
        have isFirst := firstRegexp_eq_some first
        obtain ⟨shorter, noNull⟩ :=
          (progress regexp isFirst.mem _ List.suffix_rfl).2 c rest next rfl isFirst.reMatch_eq
        -- The lexeme has a first character, which begins its C string.
        obtain ⟨k, taken⟩ := Nat.exists_eq_add_of_lt shorter
        have value : cString ((c :: rest).take ((c :: rest).length - next.length)) ≠ [] := by
          rw [taken, show next.length + k + 1 - next.length = k + 1 by omega, List.take_succ_cons,
            cString, List.takeWhile_cons]
          simp [noNull]
        simp only [first, List.isEmpty_cons, Bool.false_eq_true, if_false, Option.bind_eq_bind,
          Option.bind_some, lexemNew, named regexp isFirst.mem, value, or_self]
        exact ih (progress.suffix (reMatch_suffix isFirst.reMatch_eq)) (by omega)

/-- The lexemes of a source are those of the first matches, one behind the other. -/
theorem lexemRead_lexes {content : CStr} (read : lexemRead content reg = some (code, lexems)) :
    Lexes reg [] content code lexems := by
  -- The reading begins at the first line and column, which are those behind nothing.
  have started : lexemReadFrom reg (content.length + 1) [] (advance 1 1 []) content =
      some (code, lexems) := read
  obtain ⟨added, rfl, lexes⟩ := lexemReadFrom_lexes started
  exact lexes

/-- With expressions that take characters, and are named, the reading comes to an end. -/
theorem lexemRead_isSome {content : CStr} (progress : Progress reg content)
    (named : ∀ regexp ∈ reg, cString regexp.name ≠ []) : (lexemRead content reg).isSome :=
  lexemReadFrom_isSome progress named (Nat.lt_succ_self _)

/-- Sound expressions take characters of every source. -/
theorem progress_of_sound (sound : ∀ regexp ∈ reg, regexp.sound) (content : CStr) :
    Progress reg content := by
  -- A sound expression makes progress on every source, not only on ends of the contents.
  intro regexp mem source _
  refine ⟨reMatch_isSome (sound regexp mem) source, ?_⟩
  rintro c rest next rfl found
  exact reMatch_takesFirst (sound regexp mem) found

/-- Every lexeme has the name of an expression for its type. -/
theorem Lexes.types (lexes : Lexes reg before source code lexems) :
    ∀ lexem ∈ lexems, ∃ regexp ∈ reg, lexem.type = cString regexp.name := by
  induction lexes with
  | done => simp
  | stuck => simp
  | lexem first _ _ ih => exact List.forall_mem_cons.mpr ⟨⟨_, first.mem, rfl⟩, ih⟩

end Reading

end MiniRiscV
