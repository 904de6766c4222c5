import MiniRiscV.Asm.Regexp

/-! `regexp_read`, with its pointer into the file and its buffers, on files made of lines. -/

namespace MiniRiscV

/-- `string_set`, from the front of other bytes, none when there are not as many of them. -/
def stringSet (str : StringT) (content : CStr) (length : ℕ) : Option StringT :=
  if fits : length ≤ content.length then
    -- A content that is not longer than the old one is written over it.
    if shorter : length ≤ str.length then
      some {
        content := content.take length ++ str.content.drop length
        length
        bounded := by
          have := str.bounded
          simp only [List.length_append, List.length_take, List.length_drop]
          omega }
    else
      some {
        content := content.take length
        length
        bounded := by
          simp only [List.length_take]
          omega }
  else none

/-- The bytes in use are those that were asked for, whichever buffer they are in. -/
theorem stringSet_eq_some (str : StringT) {content : CStr} {length : ℕ}
    (fits : length ≤ content.length) :
    ∃ str', stringSet str content length = some str' ∧ str'.text = content.take length := by
  -- The buffer is written in place or made anew, with the same text.
  rw [stringSet, dif_pos fits]
  split
  · refine ⟨_, rfl, ?_⟩
    simp [StringT.text, fits]
  · refine ⟨_, rfl, ?_⟩
    simp [StringT.text]

/-- The states in which `regexp_read` reads. -/
inductive FileReadingState where
  | readFirstBlanks | readingName | readSecondBlanks | readRegexp | skipComment
  deriving DecidableEq

/-- The variables of `regexp_read`, with pointers into the file as indices. -/
structure FileReader where
  readingState : FileReadingState
  startPoint : Option ℕ
  name : StringT
  expr : StringT
  regexps : List Regexp

namespace FileReader

/-- The variables before the loop. -/
def start : FileReader where
  readingState := .readFirstBlanks
  startPoint := none
  name := stringEmpty
  expr := stringEmpty
  regexps := []

variable (content : CStr)

/-- The bytes from `start_point` up to a pointer, as a string is set to them. -/
def setFrom (s : FileReader) (str : StringT) (c : ℕ) : Option StringT := do
  let startPoint ← s.startPoint
  stringSet str (content.drop startPoint) (c - startPoint)

/-- The regular expression up to a pointer is read and put behind the others. -/
def addRegexp (s : FileReader) (c : ℕ) : Option FileReader := do
  let expr ← s.setFrom content s.expr c
  let regexp ← regexpNew s.name.text expr.text
  return { s with expr, regexps := s.regexps ++ [regexp] }

/-- A turn of the loop of `regexp_read`, at one character of the file. -/
def turn (s : FileReader) (c : ℕ) : Option FileReader := do
  let char ← content[c]?
  match s.readingState with
  | .readFirstBlanks =>
    let s := if char ≠ ' ' ∧ char ≠ '\t' ∧ char ≠ '\n' then
      { s with readingState := .readingName, startPoint := some c } else s
    return if char = '#' then { s with readingState := .skipComment } else s
  | .readingName =>
    let s ← if char = ' ' ∨ char = '\t' then do
        let name ← s.setFrom content s.name c
        pure { s with name, readingState := .readSecondBlanks }
      else pure s
    return if char = '#' then { s with readingState := .skipComment } else s
  | .readSecondBlanks =>
    return if char ≠ ' ' ∧ char ≠ '\t' then
      { s with readingState := .readRegexp, startPoint := some c } else s
  | .readRegexp =>
    if char = '\n' then do
      let s ← s.addRegexp content c
      return { s with readingState := .readFirstBlanks }
    else return s
  | .skipComment => return if char = '\n' then { s with readingState := .readFirstBlanks } else s

/-- Behind the loop, a regular expression that no newline ends. -/
def finish (s : FileReader) : Option (List Regexp) := do
  if s.readingState = .readRegexp then
    let first ← s.name.content.head?
    if first ≠ '#' then
      let s ← s.addRegexp content content.length
      return s.regexps
    else return s.regexps
  else return s.regexps

end FileReader

section Refinement

variable {content text rest : CStr} {c : ℕ} {char : Char} {s : FileReader} {state : FileState}

namespace FileReader

/-- From `start_point` up to a pointer the file has a text, last character first. -/
def Marks (content : CStr) (s : FileReader) (c : ℕ) (text : CStr) : Prop :=
  ∃ startPoint ≤ c, s.startPoint = some startPoint ∧
    (content.drop startPoint).take (c - startPoint) = text.reverse

/-- The variables say what a state with its texts says, in front of a character. -/
def Follows (content : CStr) (s : FileReader) (c : ℕ) : FileState → Prop
  | .readFirstBlanks => s.readingState = .readFirstBlanks
  | .readingName text => s.readingState = .readingName ∧ text ≠ [] ∧ s.Marks content c text
  | .readSecondBlanks name => s.readingState = .readSecondBlanks ∧ s.name.text = name ∧ name ≠ []
  | .readRegexp name text =>
    s.readingState = .readRegexp ∧ s.name.text = name ∧ name ≠ [] ∧ s.Marks content c text
  | .skipComment => s.readingState = .skipComment

/-- A marked text goes on by the next character. -/
theorem Marks.next (marks : s.Marks content c text) (atChar : content[c]? = some char) :
    s.Marks content (c + 1) (char :: text) := by
  -- The slice grows by the character at the cursor.
  obtain ⟨startPoint, before, begins, slice⟩ := marks
  refine ⟨startPoint, by omega, begins, ?_⟩
  have last : (content.drop startPoint)[c - startPoint]? = some char := by
    rwa [List.getElem?_drop, Nat.add_sub_cancel' before]
  rw [Nat.sub_add_comm before, List.take_add_one, slice, last]
  simp

/-- A string is set to the text that is marked. -/
theorem Marks.setFrom (marks : s.Marks content c text) (inside : c ≤ content.length)
    (str : StringT) :
    ∃ str', s.setFrom content str c = some str' ∧ str'.text = text.reverse := by
  -- The slice lies inside the buffer, so it can be copied.
  obtain ⟨startPoint, before, begins, slice⟩ := marks
  have fits : c - startPoint ≤ (content.drop startPoint).length := by
    rw [List.length_drop]
    omega
  obtain ⟨str', set, text_eq⟩ := stringSet_eq_some str fits
  exact ⟨str', by rw [FileReader.setFrom, begins]; exact set, text_eq.trans slice⟩

/-- A regular expression is made of the name and the text that is marked. -/
theorem Marks.addRegexp (marks : s.Marks content c text) (inside : c ≤ content.length) :
    ∃ expr, s.addRegexp content c = (regexpNew s.name.text text.reverse).map fun regexp =>
      { s with expr, regexps := s.regexps ++ [regexp] } := by
  -- The expression is made from the slice that was marked.
  obtain ⟨expr, set, text_eq⟩ := marks.setFrom inside s.expr
  refine ⟨expr, ?_⟩
  rw [FileReader.addRegexp, set]
  simp only [Option.bind_eq_bind, Option.bind_some, text_eq]
  cases regexpNew s.name.text text.reverse <;> rfl

end FileReader

end Refinement

/-- A blank between the parts of a line. -/
def IsFileBlank (c : Char) : Prop := c = ' ' ∨ c = '\t'

/-- A line that describes a regular expression. -/
structure Entry where
  indent : CStr
  name : CStr
  separator : CStr
  pattern : CStr
  indent_blank : ∀ c ∈ indent, IsFileBlank c
  name_ne : name ≠ []
  name_chars : ∀ c ∈ name, ¬ IsFileBlank c ∧ c ≠ '#' ∧ c ≠ '\n'
  separator_ne : separator ≠ []
  separator_blank : ∀ c ∈ separator, IsFileBlank c
  pattern_ne : pattern ≠ []
  pattern_head : ∀ c ∈ pattern.head?, ¬ IsFileBlank c
  pattern_chars : '\n' ∉ pattern

/-- A line of the file, without its newline. -/
inductive Line where
  | empty (blanks : CStr) (blank : ∀ c ∈ blanks, IsFileBlank c)
  | comment (indent text : CStr) (blank : ∀ c ∈ indent, IsFileBlank c) (oneLine : '\n' ∉ text)
  | entry (entry : Entry)

namespace Line

def text : Line → CStr
  | empty blanks _ => blanks
  | comment indent text _ _ => indent ++ '#' :: text
  | .entry e => e.indent ++ e.name ++ e.separator ++ e.pattern

end Line

section Lines

variable {regexps : List Regexp} {rest : CStr}

end Lines

end MiniRiscV
