import MiniRiscV.Asm.CString

/-! `char_group.c`: the set of characters that one place of a regular expression stands for. -/

namespace MiniRiscV

/-- The operator of a group: once, zero or more, one or more, zero or one. -/
inductive Operator where
  | nop | zom | oom | zoo
  deriving DecidableEq

/-- A `char_group`, its array of 256 flags being a word of as many bits. -/
structure CharGroup where
  group : BitVec 256
  operator : Operator
  inverse : Bool
  deriving DecidableEq

/-- The value of a `char`, which is signed. -/
def charValue (c : Char) : ℤ := if c.toNat < 128 then c.toNat else c.toNat - 256

/-- An assignment to one element of the array, none outside of it. -/
def setFlag (group : BitVec 256) (index : ℤ) (flag : Bool) : Option (BitVec 256) :=
  if 0 ≤ index ∧ index < 256 then
    let bit := 1#256 <<< index.toNat
    some (if flag then group ||| bit else group &&& ~~~bit)
  else none

/-- The loop over an interval, which never ends when its last character is the greatest one. -/
def setInterval (group : BitVec 256) (first last : ℤ) (flag : Bool) : Option (BitVec 256) :=
  if last < first then some group
  else if last = 127 then none
  else (List.range (last - first + 1).toNat).foldlM
    (fun group i => setFlag group (first + i) flag) group

/-- `process_backslash_in_group`, on the character behind the backslash. -/
def processBackslashInGroup (c : Char) : Char :=
  match c with
  | '\\' => '\\'
  | 'n' => '\n'
  | 't' => '\t'
  | '^' => '^'
  | ']' => ']'
  | '-' => '-'
  | c => c

/-- `char_group_inverse`. -/
def charGroupInverse (group : CharGroup) : CharGroup :=
  { group with group := ~~~group.group, inverse := !group.inverse }

/-- `char_group_single_char`. -/
def charGroupSingleChar (c : Char) (exclude : Bool) (operator : Operator) : CharGroup where
  group :=
    let single : BitVec 256 := if c.toNat < 128 then 1#256 <<< c.toNat else 0
    if exclude then ~~~single else single
  operator := operator
  inverse := exclude

/-- `char_group_in`: a character whose value is negative is in no group. -/
def charGroupIn (grp : CharGroup) (chr : Char) : Bool :=
  chr.toNat < 128 && grp.group.getLsbD chr.toNat

/-- The operator that a character stands for behind a group. -/
def operatorOf (c : Char) : Operator :=
  match c with
  | '*' => .zom
  | '+' => .oom
  | '?' => .zoo
  | _ => .nop

/-- The loop of `process_char_group`, on what is left of the text, none when it is undefined. -/
def processCharGroupFrom (exclude : Bool) (group : CharGroup) (intervalStart : ℤ) :
    CStr → Option (ℤ × CharGroup)
  | [] => some (0, { group with inverse := exclude })
  | [']'] => some (0, { group with operator := .nop, inverse := exclude })
  | ']' :: c :: rest =>
    processCharGroupFrom exclude { group with operator := operatorOf c } intervalStart rest
  | ['-'] => none
  | '-' :: ']' :: _ => some (1, group)
  | ['-', '\\'] => some (1, group)
  | ['-', '\\', c] => do
    let flags ← setInterval group.group intervalStart (charValue (processBackslashInGroup c))
      (!exclude)
    return (0, { group with group := flags, inverse := exclude })
  -- The character behind the end of the interval is passed as well.
  | '-' :: '\\' :: c :: _ :: rest => do
    let flags ← setInterval group.group intervalStart (charValue (processBackslashInGroup c))
      (!exclude)
    processCharGroupFrom exclude { group with group := flags } intervalStart rest
  | '-' :: c :: rest => do
    let flags ← setInterval group.group intervalStart (charValue c) (!exclude)
    processCharGroupFrom exclude { group with group := flags } intervalStart rest
  | ['\\'] => none
  | '\\' :: c :: rest => do
    let value := charValue (processBackslashInGroup c)
    let flags ← setFlag group.group value (!exclude)
    processCharGroupFrom exclude { group with group := flags } value rest
  | '^' :: _ => some (1, group)
  | c :: rest => do
    let flags ← setFlag group.group (charValue c) (!exclude)
    processCharGroupFrom exclude { group with group := flags } (charValue c) rest

section Equations

variable {exclude : Bool} {group : CharGroup} {intervalStart : ℤ} {c : Char} {rest : CStr}

-- The equations that Lean makes for these two cases depend on what else is imported, so the
-- choice among the patterns is unfolded by hand.
set_option linter.auxLemma false in
/-- A character without a meaning of its own is set, and may begin an interval. -/
theorem processCharGroupFrom_ordinary (noEnd : c ≠ ']') (noDash : c ≠ '-')
    (noBackslash : c ≠ '\\') (noCaret : c ≠ '^') :
    processCharGroupFrom exclude group intervalStart (c :: rest) = (do
      let flags ← setFlag group.group (charValue c) (!exclude)
      processCharGroupFrom exclude { group with group := flags } (charValue c) rest) := by
  delta processCharGroupFrom
  dsimp only [List.brecOn, List.brecOn.go]
  delta processCharGroupFrom._f processCharGroupFrom.match_1
  simp [noEnd, noDash, noBackslash, noCaret]

set_option linter.auxLemma false in
/-- The characters up to one that is not escaped are set. -/
theorem processCharGroupFrom_interval (noEnd : c ≠ ']') (noBackslash : c ≠ '\\') :
    processCharGroupFrom exclude group intervalStart ('-' :: c :: rest) = (do
      let flags ← setInterval group.group intervalStart (charValue c) (!exclude)
      processCharGroupFrom exclude { group with group := flags } intervalStart rest) := by
  delta processCharGroupFrom
  dsimp only [List.brecOn, List.brecOn.go]
  delta processCharGroupFrom._f processCharGroupFrom.match_1
  simp [noEnd, noBackslash]

/-- The characters up to an escaped one are set, and the character behind it is passed. -/
theorem processCharGroupFrom_escapedInterval :
    processCharGroupFrom exclude group intervalStart ('-' :: '\\' :: c :: rest) = (do
      let flags ← setInterval group.group intervalStart (charValue (processBackslashInGroup c))
        (!exclude)
      processCharGroupFrom exclude { group with group := flags } intervalStart rest.tail) := by
  -- At the end of the text there is no character to pass.
  cases rest <;> rfl

/-- An escaped character is set, and may begin an interval. -/
theorem processCharGroupFrom_backslash :
    processCharGroupFrom exclude group intervalStart ('\\' :: c :: rest) = (do
      let flags ← setFlag group.group (charValue (processBackslashInGroup c)) (!exclude)
      processCharGroupFrom exclude { group with group := flags }
        (charValue (processBackslashInGroup c)) rest) := rfl

end Equations

/-- `process_char_group`, on the text behind its first character, with the code it returns. -/
def processCharGroup (group : CharGroup) (text : CStr) : Option (ℤ × CharGroup) :=
  match text with
  | '^' :: rest => processCharGroupFrom true { group with group := ~~~0 } 0 rest
  | rest => processCharGroupFrom false { group with group := 0 } 0 rest

/-- `char_group_new`, whose flags `process_char_group` or its caller assigns next. -/
def charGroupNew : CharGroup where
  group := 0
  operator := .nop
  inverse := false

end MiniRiscV
