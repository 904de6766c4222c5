import MiniRiscV.Asm.CharGroup

/-! `regexp.c`: the reading of regular expressions, and their matching without backtracking. -/

namespace MiniRiscV

/-- A `regexp_t`, none standing for a null group or one that was never assigned. -/
structure Regexp where
  name : CStr
  groups : List (Option CharGroup)
  deriving DecidableEq

/-- `process_backslash_out_groups`, on the character behind the backslash. -/
def processBackslashOutGroups (c : Char) : Char :=
  match c with
  | '\\' => '\\'
  | 'n' => '\n'
  | 't' => '\t'
  | '.' => '.'
  | '*' => '*'
  | '+' => '+'
  | '?' => '?'
  | '^' => '^'
  | '[' => '['
  | c => c

/-- The loop of `opti_regexp`, between one group and those behind it. -/
def optiRegexpFrom (prev : CharGroup) : List (Option CharGroup) → Option (List (Option CharGroup))
  | [] => some [some prev]
  | none :: _ => none
  | some curr :: rest =>
    if prev.group = curr.group then
      -- A run that may be empty and one more of the same set: a run of one or more.
      if prev.operator = .zom ∧ (curr.operator = .nop ∨ curr.operator = .oom) then
        optiRegexpFrom { prev with operator := .oom } rest
      -- A run and one more of the same set: the run is put last.
      else if prev.operator = .oom ∧ curr.operator = .nop then
        (optiRegexpFrom { curr with operator := .oom } rest).map
          (some { prev with operator := .nop } :: ·)
      else (optiRegexpFrom curr rest).map (some prev :: ·)
    else (optiRegexpFrom curr rest).map (some prev :: ·)

/-- `opti_regexp`, none when it compares a group that is missing. -/
def optiRegexp (groups : List (Option CharGroup)) : Option (List (Option CharGroup)) :=
  match groups with
  | some prev :: rest => optiRegexpFrom prev rest
  | [] => some []
  | [none] => some [none]
  | none :: _ :: _ => none

/-- The states in which `regexp_new` reads. -/
inductive ReadingState where
  | init
  /-- The text of the group behind its bracket, last character first. -/
  | group (text : CStr)
  | operator

/-- The variables of `regexp_new`. -/
structure RegexpReader where
  groups : List (Option CharGroup)
  readingState : ReadingState
  inverseExp : Bool
  group : Option CharGroup
  saved : Bool
  /-- The next character has been read together with the one before it. -/
  passed : Bool

namespace RegexpReader

/-- The variables before the loop. -/
def start : RegexpReader where
  groups := []
  readingState := .init
  inverseExp := false
  group := none
  saved := false
  passed := false

variable (s : RegexpReader)

/-- The state `INIT` on a character that is a place of its own. -/
def readSingle (group : CharGroup) : RegexpReader :=
  { s with readingState := .operator, group := some group, saved := false }

/-- A turn in the state `INIT`. -/
def readInit (c : Char) (next : Option Char) : RegexpReader :=
  match c, next with
  | '^', _ => { s with inverseExp := true }
  | '[', _ => { s with readingState := .group [], group := none, saved := false }
  | '\\', some next =>
    { s.readSingle (charGroupSingleChar (processBackslashOutGroups next) s.inverseExp .nop) with
      passed := true }
  | '.', _ => s.readSingle { charGroupNew with group := if s.inverseExp then 0 else ~~~0 }
  | c, _ => s.readSingle (charGroupSingleChar c s.inverseExp .nop)

/-- The end of a group, from its text behind the first bracket. -/
def readGroup (text : CStr) : Option RegexpReader := do
  -- The code that `process_char_group` returns is not looked at.
  let (_, group) ← processCharGroup charGroupNew text
  let group := if s.inverseExp then charGroupInverse group else group
  return { s with
    groups := s.groups ++ [some group]
    readingState := .init
    inverseExp := false
    group := some group
    saved := true }

/-- A turn in the state `OPERATOR`, which leaves a character that is none to the next state. -/
def readOperator (c : Char) : RegexpReader :=
  let group := s.group.map fun group =>
    if operatorOf c = .nop then group else { group with operator := operatorOf c }
  { s with
    groups := s.groups ++ [group]
    readingState := .init
    inverseExp := false
    group
    saved := true }

/-- A turn of the loop of `regexp_new`, none when it is undefined. -/
def turn (c : Char) (next : Option Char) : Option RegexpReader :=
  if s.passed then some { s with passed := false }
  else
    match s.readingState with
    | .init => some (s.readInit c next)
    | .group text =>
      if text.head? ≠ some '\\' ∧ c = ']' then
        match next with
        | some op =>
          -- The operator behind the bracket is read with the group, if there is one.
          if operatorOf op = .nop then s.readGroup (text.reverse ++ [c])
          else do return { ← s.readGroup (text.reverse ++ [c, op]) with passed := true }
        | none => s.readGroup (text.reverse ++ [c])
      else some { s with readingState := .group (c :: text) }
    | .operator =>
      -- A character that is no operator begins the next place.
      if operatorOf c = .nop then some ((s.readOperator c).readInit c next)
      else some (s.readOperator c)

/-- The loop of `regexp_new`. -/
def read (s : RegexpReader) : CStr → Option RegexpReader
  | [] => some s
  | c :: rest => (s.turn c rest.head?).bind fun s => s.read rest

end RegexpReader

/-- `regexp_new`. -/
def regexpNew (name source : CStr) : Option Regexp := do
  let s ← RegexpReader.start.read source
  let groups := if s.saved then s.groups else s.groups ++ [s.group]
  return { name, groups := ← optiRegexp groups }

/-- The states in which `regexp_read` reads, with the text from `start_point` in reverse. -/
inductive FileState where
  | readFirstBlanks
  | readingName (text : CStr)
  | readSecondBlanks (name : CStr)
  | readRegexp (name text : CStr)
  | skipComment

/-- The loop of `regexp_read`, the last line of the file needing no newline. -/
def regexpReadFrom (regexps : List Regexp) (state : FileState) : CStr → Option (List Regexp)
  | [] =>
    match state with
    | .readRegexp name text =>
      if name.head? = some '#' then some regexps
      else do return regexps ++ [← regexpNew name text.reverse]
    | _ => some regexps
  | c :: rest =>
    match state with
    | .readFirstBlanks =>
      if c = '#' then regexpReadFrom regexps .skipComment rest
      else if c ≠ ' ' ∧ c ≠ '\t' ∧ c ≠ '\n' then regexpReadFrom regexps (.readingName [c]) rest
      else regexpReadFrom regexps .readFirstBlanks rest
    | .readingName text =>
      if c = '#' then regexpReadFrom regexps .skipComment rest
      else if c = ' ' ∨ c = '\t' then regexpReadFrom regexps (.readSecondBlanks text.reverse) rest
      else regexpReadFrom regexps (.readingName (c :: text)) rest
    | .readSecondBlanks name =>
      if c ≠ ' ' ∧ c ≠ '\t' then regexpReadFrom regexps (.readRegexp name [c]) rest
      else regexpReadFrom regexps (.readSecondBlanks name) rest
    | .readRegexp name text =>
      if c = '\n' then
        (regexpNew name text.reverse).bind fun regexp =>
          regexpReadFrom (regexps ++ [regexp]) .readFirstBlanks rest
      else regexpReadFrom regexps (.readRegexp name (c :: text)) rest
    | .skipComment =>
      if c = '\n' then regexpReadFrom regexps .readFirstBlanks rest
      else regexpReadFrom regexps .skipComment rest

/-- `regexp_read`, on the contents of the file, none when it is undefined. -/
def regexpRead (content : CStr) : Option (List Regexp) :=
  regexpReadFrom [] .readFirstBlanks content

/-- The end of `re_match` when the source is exhausted. -/
def matchesAtEnd : List (Option CharGroup) → Option Bool
  | [] => some true
  | [some group] => some (group.operator = .zom ∨ group.operator = .oom)
  | [none] => none
  | _ :: _ :: _ => some false

/-- A turn of the loop of `re_match`: the list, `first_char` and source behind it, if any. -/
def reMatchTurn (group : CharGroup) (groups : List (Option CharGroup)) (firstChar : Bool)
    (c : Char) (rest : CStr) : Option (List (Option CharGroup) × Bool × CStr) :=
  let inGroup := charGroupIn group c
  match group.operator with
  | .nop => if inGroup then some (groups, firstChar, rest) else none
  | .zom =>
    if inGroup then some (some group :: groups, firstChar, rest)
    else some (groups, firstChar, c :: rest)
  | .oom =>
    if inGroup then some (some group :: groups, true, rest)
    -- Only a run that has begun is passed.
    else if firstChar then some (groups, false, c :: rest)
    else none
  | .zoo => some (groups, firstChar, if inGroup then rest else c :: rest)

/-- The loop of `re_match`: the source left behind a match, or that there is none. -/
def reMatchFrom : ℕ → List (Option CharGroup) → Bool → CStr → Option (Option CStr)
  | 0, _, _, _ => none
  | fuel + 1, groups, firstChar, source =>
    match source, groups with
    | [], groups => (matchesAtEnd groups).map fun complete => if complete then some [] else none
    | _ :: _, [] => none
    | _ :: _, none :: _ => none
    | c :: rest, some group :: groups =>
      match reMatchTurn group groups firstChar c rest with
      | none => some none
      -- Behind the last group the loop returns before it reads another one.
      | some (groups, firstChar, source) =>
        if groups.isEmpty then some (some source) else reMatchFrom fuel groups firstChar source

/-- `re_match`: each turn takes a character or a group, which bounds their number. -/
def reMatch (reg : Regexp) (source : CStr) : Option (Option CStr) :=
  reMatchFrom (reg.groups.length + source.length + 1) reg.groups false source

/-- A first character cannot be a null, and there is a place that takes a character. -/
def takesFirst : List (Option CharGroup) → Bool
  | some group :: rest =>
    !charGroupIn group '\x00' && (group.operator = .nop || group.operator = .oom || takesFirst rest)
  | _ => false

/-- Expressions with which the reading of lexemes ends: each match takes a character. -/
def Regexp.sound (reg : Regexp) : Bool :=
  reg.groups.all Option.isSome && takesFirst reg.groups

/-- Some group needs a character, and those up to the first such one are among some groups. -/
def takesFirstIn (among : CharGroup → Bool) : List (Option CharGroup) → Bool
  | some group :: rest =>
    among group && (group.operator = .nop || group.operator = .oom || takesFirstIn among rest)
  | _ => false

/-- The check of the groups is the general one for groups without the terminator. -/
theorem takesFirst_eq (groups : List (Option CharGroup)) :
    takesFirst groups = takesFirstIn (fun group => !charGroupIn group '\x00') groups := by
  -- By induction on the groups; the two tests differ in the set only.
  induction groups with
  | nil => rfl
  | cons group groups ih =>
    cases group with
    | none => rfl
    | some group => rw [takesFirst, takesFirstIn, ih]

section Matching

variable {group : CharGroup} {groups groups' : List (Option CharGroup)}
  {firstChar firstChar' : Bool} {c : Char} {rest source source' next : CStr}

/-- A turn takes a character of the group, or else passes a group that needs none. -/
theorem reMatchTurn_cases
    (turn : reMatchTurn group groups firstChar c rest = some (groups', firstChar', source')) :
    (source' = rest ∧ charGroupIn group c ∧ (groups' = groups ∨ groups' = some group :: groups)) ∨
      (source' = c :: rest ∧ groups' = groups ∧ (firstChar = false →
        firstChar' = false ∧ group.operator ≠ .nop ∧ group.operator ≠ .oom)) := by
  unfold reMatchTurn at turn
  -- One case for each operator, with the character in the group and not.
  by_cases inGroup : charGroupIn group c
  · cases operator : group.operator <;> simp_all
  · cases operator : group.operator <;> simp_all

/-- With all groups assigned the loop comes to an end, each turn taking a character or a group. -/
theorem reMatchFrom_isSome {fuel : ℕ} (assigned : groups.all Option.isSome) (some : groups ≠ [])
    (enough : groups.length + source.length < fuel) :
    (reMatchFrom fuel groups firstChar source).isSome := by
  -- By induction on the fuel, which the groups and the characters left bound.
  induction fuel generalizing groups firstChar source with
  | zero => omega
  | succ fuel ih =>
    rcases groups with _ | ⟨_ | group, groups⟩
    · exact absurd rfl some
    · simp at assigned
    · have assigned' : groups.all Option.isSome := by simpa using assigned
      cases source with
      | nil => cases groups <;> simp [reMatchFrom, matchesAtEnd]
      | cons c rest =>
        rw [reMatchFrom]
        cases turn : reMatchTurn group groups firstChar c rest with
        | none => rfl
        | some behind =>
          obtain ⟨groups', firstChar', source'⟩ := behind
          by_cases done : groups'.isEmpty
          · simp [done]
          · simp only [done, if_false, Bool.false_eq_true]
            -- The next turn has fewer characters before it, or as many and fewer groups.
            simp only [List.length_cons] at enough
            have left : groups' ≠ [] := by simpa using done
            rcases reMatchTurn_cases turn with ⟨rfl, -, rfl | rfl⟩ | ⟨rfl, rfl, -⟩
            · exact ih assigned' left (by omega)
            · exact ih assigned left (by simp only [List.length_cons]; omega)
            · exact ih assigned' left (by simp only [List.length_cons]; omega)

/-- A match leaves an end of the source. -/
theorem reMatchFrom_suffix {fuel : ℕ}
    (found : reMatchFrom fuel groups firstChar source = some (some next)) : next <:+ source := by
  -- By induction on the fuel: each turn leaves the source or its tail.
  induction fuel generalizing groups firstChar source with
  | zero => cases found
  | succ fuel ih =>
    cases source with
    | nil =>
      -- At its end, nothing is left of the source.
      rw [reMatchFrom, Option.map_eq_some_iff] at found
      obtain ⟨complete, -, found⟩ := found
      cases complete <;> simp at found
      simp [← found]
    | cons c rest =>
      rcases groups with _ | ⟨_ | group, groups⟩
      · cases found
      · cases found
      · rw [reMatchFrom] at found
        cases turn : reMatchTurn group groups firstChar c rest with
        | none => simp [turn] at found
        | some behind =>
          obtain ⟨groups', firstChar', source'⟩ := behind
          have suffix : source' <:+ c :: rest := by
            rcases reMatchTurn_cases turn with ⟨rfl, -, -⟩ | ⟨rfl, -, -⟩
            · exact List.suffix_cons c _
            · exact List.suffix_rfl
          simp only [turn] at found
          split at found
          · obtain rfl := Option.some.inj (Option.some.inj found)
            exact suffix
          · exact (ih found).trans suffix

/-- A match of groups of which one needs a character takes the first, in a group up to that one. -/
theorem reMatchFrom_takesFirst {among : CharGroup → Bool} {fuel : ℕ}
    (takes : takesFirstIn among groups)
    (found : reMatchFrom fuel groups false (c :: rest) = some (some next)) :
    next.length < (c :: rest).length ∧ ∃ group, among group ∧ charGroupIn group c := by
  -- By induction on the fuel; the source stays whole until a group takes its first character.
  induction fuel generalizing groups with
  | zero => cases found
  | succ fuel ih =>
    rcases groups with _ | ⟨_ | group, groups⟩
    · cases found
    · cases found
    · rw [reMatchFrom] at found
      simp only [takesFirstIn, Bool.and_eq_true, Bool.or_eq_true, decide_eq_true_eq] at takes
      cases turn : reMatchTurn group groups false c rest with
      | none => simp [turn] at found
      | some behind =>
        obtain ⟨groups', firstChar', source'⟩ := behind
        simp only [turn] at found
        rcases reMatchTurn_cases turn with ⟨rfl, inGroup, -⟩ | ⟨rfl, rfl, optional⟩
        · -- The first character is taken here.
          refine ⟨?_, group, takes.1, inGroup⟩
          split at found
          · obtain rfl := Option.some.inj (Option.some.inj found)
            simp
          · have shorter := (reMatchFrom_suffix found).length_le
            rw [List.length_cons]
            omega
        · -- The group is passed, and one behind it takes the character.
          obtain ⟨rfl, noNop, noOom⟩ := optional rfl
          -- A group that is passed is not the one that needs a character.
          have behind : takesFirstIn among groups' := by
            rcases takes.2 with (nop | oom) | behind
            · exact absurd nop noNop
            · exact absurd oom noOom
            · exact behind
          split at found
          · rename_i done
            rw [List.isEmpty_iff.mp done] at behind
            cases behind
          · exact ih behind found

/-- A sound expression is matched or not, on every source. -/
theorem reMatch_isSome {reg : Regexp} (sound : reg.sound) (source : CStr) :
    (reMatch reg source).isSome := by
  -- A sound expression has a group, so the loop is entered with one.
  rw [Regexp.sound, Bool.and_eq_true] at sound
  have some : reg.groups ≠ [] := by
    intro empty
    rw [empty] at sound
    cases sound.2
  exact reMatchFrom_isSome sound.1 some (Nat.lt_succ_self _)

/-- A match leaves an end of the source. -/
theorem reMatch_suffix {reg : Regexp} (found : reMatch reg source = some (some next)) :
    next <:+ source :=
  reMatchFrom_suffix found

/-- A sound expression takes at least the first character. -/
theorem reMatch_takesFirst {reg : Regexp} (sound : reg.sound)
    (found : reMatch reg (c :: rest) = some (some next)) :
    next.length < (c :: rest).length ∧ c ≠ '\x00' := by
  -- The groups up to the first that needs a character do not have the null.
  rw [Regexp.sound, Bool.and_eq_true, takesFirst_eq] at sound
  obtain ⟨shorter, group, noNull, inGroup⟩ := reMatchFrom_takesFirst sound.2 found
  refine ⟨shorter, fun null => ?_⟩
  rw [null] at inGroup
  simp [inGroup] at noNull

end Matching

end MiniRiscV
