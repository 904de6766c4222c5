import MiniRiscV.Asm.Brackets
import MiniRiscV.Asm.Regexp

/-! Patterns as sequences of atoms, and the groups into which `regexp_new` divides them. -/

namespace MiniRiscV

/-- The groups behind the loop of `regexp_new`, with the last one saved. -/
def RegexpReader.finish (s : RegexpReader) : List (Option CharGroup) :=
  if s.saved then s.groups else s.groups ++ [s.group]

/-- The groups of a pattern as `regexp_new` hands them to `opti_regexp`. -/
def groupsOf (source : CStr) : Option (List (Option CharGroup)) :=
  (RegexpReader.start.read source).map RegexpReader.finish

/-- `regexp_new` collects the groups of the source under its name. -/
theorem regexpNew_eq (name source : CStr) :
    regexpNew name source = do
      let groups ← groupsOf source
      return { name, groups := ← optiRegexp groups } := by
  -- Behind the loop there is nothing else.
  cases read : RegexpReader.start.read source <;>
    simp [regexpNew, groupsOf, read, RegexpReader.finish]

/-- What an atom is made of, but for its operator. -/
inductive AtomKind where
  | plain (c : Char) (sevenBit : c.toNat < 128)
    (ordinary : c ∉ ['^', '[', '\\', '.', '*', '+', '?'])
  | escaped (c : Char) (sevenBit : c.toNat < 128)
  | any
  | bracket (exclude : Bool) (items : List Item)

/-- One place of a pattern. -/
structure Atom where
  inverse : Bool
  kind : AtomKind
  operator : Operator

namespace AtomKind

/-- The text of a place without its operator. -/
def text : AtomKind → CStr
  | plain c _ _ => [c]
  | escaped c _ => ['\\', c]
  | any => ['.']
  | bracket exclude items =>
    '[' :: (if exclude then ['^'] else []) ++ items.flatMap Item.text ++ [']']

/-- The characters that a place denotes, by their codes. -/
def denotes : AtomKind → ℕ → Bool
  | plain c _ _, code => code = c.toNat
  | escaped c _, code => code = (escapeMeaning c).toNat
  | any, _ => true
  | bracket exclude items, code => exclude != items.any fun item => item.denotes code

end AtomKind

namespace Atom

variable (atom : Atom)

/-- The sign of an inverse set. -/
def sign : CStr := if atom.inverse then ['^'] else []

def text : CStr := atom.sign ++ atom.kind.text ++ atom.operator.suffix

/-- A group has the set of the atom and its operator. -/
def IsGroup (group : CharGroup) : Prop :=
  (∀ code < 128, group.group.getLsbD code = (atom.inverse != atom.kind.denotes code)) ∧
    group.operator = atom.operator

/-- The bracket of the atom, if it is one. -/
def bracket? : Option Bracket :=
  match atom.kind with
  | .bracket exclude items => some { exclude, items, operator := atom.operator }
  | _ => none

end Atom

/-- The group that `regexp_new` makes of the text of an atom, if it gets to read just that. -/
def Atom.made (atom : Atom) : Option CharGroup :=
  match atom.kind with
  | .plain c _ _ => some (charGroupSingleChar c atom.inverse atom.operator)
  | .escaped c _ =>
    some (charGroupSingleChar (processBackslashOutGroups c) atom.inverse atom.operator)
  | .any =>
    some { charGroupNew with
      group := if atom.inverse then 0 else ~~~0
      operator := atom.operator }
  | .bracket exclude items =>
    (processCharGroup charGroupNew (Bracket.text ⟨exclude, items, atom.operator⟩)).map
      fun (_, group) => if atom.inverse then charGroupInverse group else group

/-- The groups of a sequence of atoms are those of its atoms, in order. -/
def SegmentedRight (atoms : List Atom) : Prop :=
  ∃ groups, groupsOf (atoms.flatMap Atom.text) = some (groups.map some) ∧
    List.Forall₂ Atom.IsGroup atoms groups

/-- What is written between the brackets. -/
def Bracket.inner (b : Bracket) : CStr :=
  (if b.exclude then ['^'] else []) ++ b.items.flatMap Item.text

/-- What is written in the bracket ends in a backslash, which then stands for itself. -/
def Bracket.endsInBackslash (b : Bracket) : Bool := b.inner.getLast? = some '\\'

/-- The text of a bracket ends with its closing bracket and its operator. -/
theorem Bracket.text_eq (b : Bracket) : b.text = b.inner ++ ']' :: b.operator.suffix := by
  rw [text, body, inner, List.append_assoc]

/-- `process_backslash_out_groups` spells out characters that stand for themselves. -/
theorem processBackslashOutGroups_eq (c : Char) :
    processBackslashOutGroups c = escapeMeaning c := by
  unfold processBackslashOutGroups escapeMeaning
  split <;> simp_all

namespace RegexpReader

section Places

variable {s : RegexpReader} {groups : List (Option CharGroup)} {inverse : Bool} {c : Char}
  {rest : CStr}

/-- The reader in front of a place, perhaps behind the sign of an inverse set. -/
def opened (groups : List (Option CharGroup)) (inverse : Bool) (group : Option CharGroup)
    (saved : Bool) : RegexpReader where
  groups
  readingState := .init
  inverseExp := inverse
  group
  saved
  passed := false

/-- The reader behind a place of a single character, whose operator may come next. -/
def pending (groups : List (Option CharGroup)) (inverse : Bool) (group : CharGroup) :
    RegexpReader where
  groups
  readingState := .operator
  inverseExp := inverse
  group := some group
  saved := false
  passed := false

/-- The reader inside a bracket, with the text up to there, last character first. -/
def inside (groups : List (Option CharGroup)) (inverse : Bool) (text : CStr) : RegexpReader where
  groups
  readingState := .group text
  inverseExp := inverse
  group := none
  saved := false
  passed := false

/-- The reader is between two places, with the groups of those before. -/
inductive Between (groups : List (Option CharGroup)) : RegexpReader → Prop where
  | atPlace (group : Option CharGroup) (saved : Bool) (kept : saved ∨ group = none) :
    Between groups (opened groups false group saved)
  | atOperator (before : List (Option CharGroup)) (inverse : Bool) (group : CharGroup)
    (groups_eq : groups = before ++ [some group]) : Between groups (pending before inverse group)

/-- The first turn at a place saves the group before, if that is still to be done. -/
theorem Between.turn_eq (between : Between groups s) (noOperator : operatorOf c = .nop)
    (next : Option Char) :
    ∃ group saved, s.turn c next = some ((opened groups false group saved).readInit c next) := by
  -- At a place the reader is ready; behind a group it first saves that group.
  cases between with
  | atPlace group saved _ => exact ⟨group, saved, rfl⟩
  | atOperator before inverse group groups_eq =>
    refine ⟨some group, true, ?_⟩
    simp [turn, pending, opened, noOperator, readOperator, groups_eq]

/-- The sign of an inverse set is noted, and the place is read behind it. -/
theorem Between.read_sign (between : Between groups s) (noOperator : operatorOf c = .nop)
    (inverse : Bool) (rest : CStr) :
    ∃ group saved, s.read ((if inverse then ['^'] else []) ++ c :: rest) =
      ((opened groups inverse group saved).readInit c rest.head?).read rest := by
  -- The sign is one turn of the reader, after which it is at a place as before.
  cases inverse with
  | false =>
    obtain ⟨group, saved, turn⟩ := between.turn_eq noOperator rest.head?
    refine ⟨group, saved, ?_⟩
    change s.read (c :: rest) = _
    rw [read, turn]
    rfl
  | true =>
    obtain ⟨group, saved, turn⟩ := between.turn_eq (show operatorOf '^' = .nop from rfl) (some c)
    refine ⟨group, saved, ?_⟩
    change s.read ('^' :: c :: rest) = _
    rw [read, List.head?_cons, turn]
    rfl

/-- The operator behind a place of a single character. -/
theorem read_suffix (group : CharGroup) (single : group.operator = .nop) (operator : Operator) :
    ∃ behind, Between (groups ++ [some { group with operator }]) behind ∧
      behind.finish = groups ++ [some { group with operator }] ∧
      (pending groups inverse group).read (operator.suffix ++ rest) = behind.read rest := by
  -- Without an operator the group waits for one, and with it the group is saved.
  have saved (operator : Operator) :
      Between (groups ++ [some { group with operator }])
        (opened (groups ++ [some { group with operator }]) false (some { group with operator })
          true) :=
    .atPlace _ _ (.inl rfl)
  cases operator with
  | nop =>
    have same : { group with operator := .nop } = group := by rw [← single]
    rw [same]
    exact ⟨_, .atOperator groups inverse group rfl, rfl, rfl⟩
  | zom => exact ⟨_, saved .zom, rfl, rfl⟩
  | oom => exact ⟨_, saved .oom, rfl, rfl⟩
  | zoo => exact ⟨_, saved .zoo, rfl, rfl⟩

end Places

section Brackets

variable {groups : List (Option CharGroup)} {inverse : Bool} {text word rest : CStr} {c : Char}

/-- Inside a bracket, each closing bracket of a word stands behind a backslash. -/
def guarded (before : Option Char) : CStr → Bool
  | [] => true
  | c :: rest => (c ≠ ']' || before = some '\\') && guarded (some c) rest

/-- Guarded texts one behind the other are guarded. -/
theorem guarded_append {before : Option Char} {word' : CStr} (first : guarded before word)
    (second : ∀ before, guarded before word') : guarded before (word ++ word') := by
  -- By induction on the first word.
  induction word generalizing before with
  | nil => exact second before
  | cons c word ih =>
    rw [guarded, Bool.and_eq_true] at first
    rw [List.cons_append, guarded, Bool.and_eq_true]
    exact ⟨first.1, ih first.2⟩

/-- A written character does not close the bracket. -/
theorem guarded_written (written : Written) (before : Option Char) :
    guarded before written.text := by
  cases written with
  | plain c _ ordinary => simp [Written.text, guarded, ordinary]
  | escaped c _ => simp [Written.text, guarded]

/-- The items of a bracket do not close it. -/
theorem guarded_items (items : List Item) (before : Option Char) :
    guarded before (items.flatMap Item.text) := by
  -- By induction on the items; a range is two characters with a dash between them.
  induction items generalizing before with
  | nil => rfl
  | cons item items ih =>
    rw [List.flatMap_cons]
    refine guarded_append ?_ ih
    cases item with
    | single written => exact guarded_written written before
    | range lo hi _ =>
      refine guarded_append (guarded_written lo before) fun before => ?_
      simpa [guarded] using guarded_written hi _

/-- A word in which no bracket is closed is noted. -/
theorem read_guarded (noEnd : guarded text.head? word) :
    (inside groups inverse text).read (word ++ rest) =
      (inside groups inverse (word.reverse ++ text)).read rest := by
  -- By induction on the word, each character of which is put in front of the text.
  induction word generalizing text with
  | nil => rfl
  | cons c word ih =>
    rw [guarded, Bool.and_eq_true] at noEnd
    have stays : ¬ (text.head? ≠ some '\\' ∧ c = ']') := by
      rintro ⟨noBackslash, rfl⟩
      simp [noBackslash] at noEnd
    have turn : (inside groups inverse text).turn c (word ++ rest).head? =
        some (inside groups inverse (c :: text)) := by
      simp only [RegexpReader.turn, inside, Bool.false_eq_true, if_false, if_neg stays]
    rw [List.cons_append, read, turn, List.reverse_cons, List.append_assoc]
    exact ih noEnd.2

/-- The reader behind a bracket. -/
def closed (groups : List (Option CharGroup)) (group : CharGroup) : RegexpReader :=
  opened (groups ++ [some group]) false (some group) true

/-- A group that was read is added, turned around when the caret stood before it. -/
theorem readGroup_eq (word : CStr) :
    (inside groups inverse text).readGroup word = (processCharGroup charGroupNew word).map
      fun made => closed groups (if inverse then charGroupInverse made.2 else made.2) := by
  rw [readGroup]
  cases processCharGroup charGroupNew word <;> rfl

/-- A bracket is closed, and its text is read with the operator behind it. -/
theorem read_close (noBackslash : text.head? ≠ some '\\') (operator : Operator)
    (noOperator : ∀ c ∈ rest.head?, operatorOf c = .nop) :
    (inside groups inverse text).read (']' :: operator.suffix ++ rest) =
      (processCharGroup charGroupNew (text.reverse ++ ']' :: operator.suffix)).bind fun made =>
        (closed groups (if inverse then charGroupInverse made.2 else made.2)).read rest := by
  -- An operator is passed together with the bracket.
  have withOperator (op : Char) (isOperator : operatorOf op ≠ .nop) :
      (inside groups inverse text).read (']' :: op :: rest) =
        (processCharGroup charGroupNew (text.reverse ++ [']', op])).bind fun made =>
          (closed groups (if inverse then charGroupInverse made.2 else made.2)).read rest := by
    have turn : (inside groups inverse text).turn ']' (some op) =
        ((inside groups inverse text).readGroup (text.reverse ++ [']', op])).bind
          fun s => some { s with passed := true } := by
      simp [RegexpReader.turn, inside, noBackslash, isOperator]
    rw [read, List.head?_cons, turn, readGroup_eq]
    cases processCharGroup charGroupNew (text.reverse ++ [']', op]) <;> rfl
  cases operator with
  | nop =>
    have turn : (inside groups inverse text).turn ']' rest.head? =
        (inside groups inverse text).readGroup (text.reverse ++ [']']) := by
      cases rest with
      | nil => simp [RegexpReader.turn, inside, noBackslash]
      | cons c rest =>
        have noOperator : operatorOf c = .nop := noOperator c rfl
        simp [RegexpReader.turn, inside, noBackslash, noOperator]
    change (inside groups inverse text).read (']' :: rest) = _
    rw [read, turn, readGroup_eq, Option.bind_map]
    rfl
  | zom => exact withOperator '*' (by decide)
  | oom => exact withOperator '+' (by decide)
  | zoo => exact withOperator '?' (by decide)

/-- A character that does not close the bracket is noted, with an operator behind it. -/
theorem read_noted (stays : c = ']' → text.head? = some '\\') (operator : Operator) :
    (inside groups inverse text).read (c :: operator.suffix ++ rest) =
      (inside groups inverse (operator.suffix.reverse ++ c :: text)).read rest := by
  -- Nothing in the suffix ends the bracket, and its last character does not either.
  have noEnd : guarded text.head? (c :: operator.suffix) := by
    by_cases isEnd : c = ']'
    · cases operator <;> simp [guarded, stays isEnd, Operator.suffix]
    · cases operator <;> simp [guarded, isEnd, Operator.suffix]
  rw [read_guarded noEnd, List.reverse_cons, List.append_assoc]
  rfl

/-- A bracket is read up to its end. -/
theorem Between.read_inner {s : RegexpReader} (between : Between groups s) (inverse : Bool)
    (b : Bracket) :
    s.read ((if inverse then ['^'] else []) ++ '[' :: (b.inner ++ rest)) =
      (inside groups inverse b.inner.reverse).read rest := by
  -- The bracket is opened, and no character inside ends it.
  obtain ⟨group, saved, opens⟩ :=
    between.read_sign (show operatorOf '[' = .nop from rfl) inverse (b.inner ++ rest)
  have noEnd : guarded (List.head? ([] : CStr)) b.inner := by
    refine guarded_append ?_ (guarded_items b.items)
    cases b.exclude <;> rfl
  have bracket : (opened groups inverse group saved).readInit '[' (b.inner ++ rest).head? =
      inside groups inverse [] := rfl
  rw [opens, bracket, read_guarded noEnd, List.append_nil]

end Brackets

end RegexpReader

section Atoms

open RegexpReader

variable {atom : Atom} {atoms : List Atom} {s : RegexpReader} {groups : List (Option CharGroup)}
  {rest : CStr}

/-- An ordinary character is no operator. -/
theorem operatorOf_of_ordinary {c : Char} (ordinary : c ∉ ['^', '[', '\\', '.', '*', '+', '?']) :
    operatorOf c = .nop := by
  unfold operatorOf
  split <;> simp at ordinary ⊢

/-- No atom begins with an operator. -/
theorem operatorOf_head_text : ∀ c ∈ atom.text.head?, operatorOf c = .nop := by
  -- An atom begins with its sign, or like its kind.
  rcases atom with ⟨inverse, kind, operator⟩
  intro c first
  cases inverse with
  | true =>
    obtain rfl : '^' = c := by simpa [Atom.text, Atom.sign] using first
    rfl
  | false =>
    cases kind with
    | plain d _ ordinary =>
      obtain rfl : d = c := by simpa [Atom.text, Atom.sign, AtomKind.text] using first
      exact operatorOf_of_ordinary ordinary
    | escaped d _ =>
      obtain rfl : '\\' = c := by simpa [Atom.text, Atom.sign, AtomKind.text] using first
      rfl
    | any =>
      obtain rfl : '.' = c := by simpa [Atom.text, Atom.sign, AtomKind.text] using first
      rfl
    | bracket exclude items =>
      obtain rfl : '[' = c := by simpa [Atom.text, Atom.sign, AtomKind.text] using first
      rfl

/-- Behind an atom, or between atoms, there is no operator. -/
theorem operatorOf_head_texts : ∀ c ∈ (atoms.flatMap Atom.text).head?, operatorOf c = .nop := by
  -- A first atom has a text, so that the others do not matter.
  cases atoms with
  | nil => simp
  | cons atom atoms =>
    intro c first
    rw [List.flatMap_cons, List.head?_append] at first
    apply @operatorOf_head_text atom
    have some_text : atom.text ≠ [] := by
      rcases atom with ⟨_ | _, _ | _ | _ | _, operator⟩ <;>
        simp [Atom.text, Atom.sign, AtomKind.text]
    obtain ⟨d, text, eq⟩ := List.exists_cons_of_ne_nil some_text
    simpa [eq] using first

/-- An atom of a single place is read to its group. -/
theorem read_single (between : Between groups s) (single : atom.bracket? = none) :
    ∃ group behind, atom.made = some group ∧ Between (groups ++ [some group]) behind ∧
      behind.finish = groups ++ [some group] ∧ s.read (atom.text ++ rest) = behind.read rest := by
  -- One case for each kind of atom, read in one turn or two.
  rcases atom with ⟨inverse, kind, operator⟩
  rw [Atom.text, List.append_assoc, List.append_assoc]
  cases kind with
  | plain c _ ordinary =>
    obtain ⟨behind, isBetween, finish, suffix⟩ := @read_suffix groups inverse rest
      (charGroupSingleChar c inverse .nop) rfl operator
    refine ⟨_, behind, rfl, isBetween, finish, ?_⟩
    obtain ⟨group, saved, opens⟩ :=
      between.read_sign (operatorOf_of_ordinary ordinary) inverse (operator.suffix ++ rest)
    have place : (opened groups inverse group saved).readInit c (operator.suffix ++ rest).head? =
        pending groups inverse (charGroupSingleChar c inverse .nop) := by
      simp only [List.mem_cons, not_or] at ordinary
      unfold readInit
      split <;> simp_all [readSingle, opened, pending]
    rw [← suffix, ← place]
    exact opens
  | escaped c _ =>
    obtain ⟨behind, isBetween, finish, suffix⟩ := @read_suffix groups inverse rest
      (charGroupSingleChar (processBackslashOutGroups c) inverse .nop) rfl operator
    refine ⟨_, behind, rfl, isBetween, finish, ?_⟩
    obtain ⟨group, saved, opens⟩ := between.read_sign (show operatorOf '\\' = .nop from rfl)
      inverse (c :: operator.suffix ++ rest)
    rw [← suffix]
    exact opens
  | any =>
    obtain ⟨behind, isBetween, finish, suffix⟩ := @read_suffix groups inverse rest
      { charGroupNew with group := if inverse then 0 else ~~~0 } rfl operator
    refine ⟨_, behind, rfl, isBetween, finish, ?_⟩
    obtain ⟨group, saved, opens⟩ :=
      between.read_sign (show operatorOf '.' = .nop from rfl) inverse (operator.suffix ++ rest)
    rw [← suffix]
    exact opens
  | bracket exclude items => cases single

/-- The text of an atom that is a bracket, with what stands behind it. -/
theorem text_of_bracket {b : Bracket} (isBracket : atom.bracket? = some b) :
    atom.text ++ rest = (if atom.inverse then ['^'] else []) ++
      '[' :: (b.inner ++ (']' :: b.operator.suffix ++ rest)) := by
  rcases atom with ⟨inverse, _ | _ | _ | ⟨exclude, items⟩, operator⟩ <;> cases isBracket
  simp [Atom.text, Atom.sign, AtomKind.text, Bracket.inner]

/-- The group of such an atom is that of the bracket, turned around behind a caret. -/
theorem made_of_bracket {b : Bracket} (isBracket : atom.bracket? = some b) :
    atom.made = (processCharGroup charGroupNew b.text).map fun made =>
      if atom.inverse then charGroupInverse made.2 else made.2 := by
  rcases atom with ⟨inverse, _ | _ | _ | ⟨exclude, items⟩, operator⟩ <;> cases isBracket
  rfl

/-- An atom is read to its group, unless a bracket is not closed. -/
theorem read_atom (between : Between groups s)
    (closes : ∀ b ∈ atom.bracket?, b.endsInBackslash = false)
    (noOperator : ∀ c ∈ rest.head?, operatorOf c = .nop) :
    ∃ behind : CharGroup → RegexpReader, (∀ group, atom.made = some group →
        Between (groups ++ [some group]) (behind group) ∧
          (behind group).finish = groups ++ [some group]) ∧
      s.read (atom.text ++ rest) = atom.made.bind fun group => (behind group).read rest := by
  -- A bracket is closed by its own end, and the other kinds are read at once.
  cases isBracket : atom.bracket? with
  | none =>
    obtain ⟨group, behind, made, isBetween, finish, read⟩ :=
      @read_single _ _ _ rest between isBracket
    refine ⟨fun _ => behind, fun group' made' => ?_, by rw [read, made]; rfl⟩
    obtain rfl := Option.some.inj (made.symm.trans made')
    exact ⟨isBetween, finish⟩
  | some b =>
    have noBackslash : b.inner.reverse.head? ≠ some '\\' := by
      simpa [Bracket.endsInBackslash] using closes b isBracket
    refine ⟨closed groups, fun group _ => ⟨.atPlace _ _ (.inl rfl), rfl⟩, ?_⟩
    rw [text_of_bracket isBracket, between.read_inner, read_close noBackslash _ noOperator,
      made_of_bracket isBracket, b.text_eq, List.reverse_reverse, Option.bind_map]
    rfl

/-- A bracket that is not closed is still being read behind its operator. -/
theorem read_unclosed {b : Bracket} (between : Between groups s)
    (isBracket : atom.bracket? = some b) (backslash : b.endsInBackslash) :
    ∃ text, s.read (atom.text ++ rest) = (inside groups atom.inverse text).read rest := by
  -- The closing bracket is noted behind the backslash.
  have stays : ']' = ']' → b.inner.reverse.head? = some '\\' := fun _ => by
    simpa [Bracket.endsInBackslash] using backslash
  exact ⟨_, by rw [text_of_bracket isBracket, between.read_inner, read_noted stays]⟩

/-- Up to their last characters, atoms do not close a bracket. -/
theorem exists_guarded (atom : Atom) : ∃ word last,
    (∀ before, guarded before word) ∧ atom.text = word ++ last :: atom.operator.suffix := by
  -- Only the last character of an atom can end a bracket around it.
  rcases atom with ⟨inverse, kind, operator⟩
  have sign : ∀ before, guarded before (if inverse then ['^'] else []) := by
    intro before
    cases inverse <;> rfl
  cases kind with
  | plain c _ _ => exact ⟨_, c, sign, by simp [Atom.text, Atom.sign, AtomKind.text]⟩
  | escaped c _ =>
    have word : ∀ before, guarded before ['\\'] := fun _ => rfl
    exact ⟨_ ++ ['\\'], c, fun before => guarded_append (sign before) word,
      by simp [Atom.text, Atom.sign, AtomKind.text]⟩
  | any => exact ⟨_, '.', sign, by simp [Atom.text, Atom.sign, AtomKind.text]⟩
  | bracket exclude items =>
    have opening : ∀ before, guarded before ('[' :: if exclude then ['^'] else []) := by
      intro before
      cases exclude <;> rfl
    have word : ∀ before, guarded before
        (('[' :: if exclude then ['^'] else []) ++ items.flatMap Item.text) :=
      fun before => guarded_append (opening before) (guarded_items items)
    exact ⟨_ ++ _, ']', fun before => guarded_append (sign before) word,
      by simp [Atom.text, Atom.sign, AtomKind.text]⟩

/-- An atom that is read inside a bracket is noted, or closes it. -/
theorem read_inside {inverse : Bool} {text : CStr} (atom : Atom)
    (noOperator : ∀ c ∈ rest.head?, operatorOf c = .nop) :
    (∃ text', (inside groups inverse text).read (atom.text ++ rest) =
        (inside groups inverse text').read rest) ∨
      ∃ made : Option CharGroup, (inside groups inverse text).read (atom.text ++ rest) =
        made.bind fun group => (closed groups group).read rest := by
  -- The last character of the atom ends the bracket that is open, or is noted in it.
  obtain ⟨word, last, noEnd, text_eq⟩ := exists_guarded atom
  rw [text_eq, List.append_assoc, read_guarded (noEnd _)]
  by_cases stays : last = ']' → (word.reverse ++ text).head? = some '\\'
  · exact .inl ⟨_, read_noted stays _⟩
  · obtain ⟨rfl, noBackslash⟩ := Classical.not_imp.mp stays
    refine .inr ⟨(processCharGroup charGroupNew ((word.reverse ++ text).reverse ++
      ']' :: atom.operator.suffix)).map fun made =>
        if inverse then charGroupInverse made.2 else made.2, ?_⟩
    rw [read_close noBackslash _ noOperator, Option.bind_map]
    rfl

/-- Atoms whose brackets are closed are read to their groups. -/
theorem read_atoms (between : Between groups s) (finish : atoms = [] → s.finish = groups)
    (closes : ∀ atom ∈ atoms, ∀ b ∈ atom.bracket?, b.endsInBackslash = false) :
    (s.read (atoms.flatMap Atom.text)).map RegexpReader.finish =
      (atoms.mapM Atom.made).map fun made => groups ++ made.map some := by
  -- By induction on the atoms, behind each of which the reader is between two places.
  induction atoms generalizing groups s with
  | nil => simp [RegexpReader.read, finish]
  | cons atom atoms ih =>
    rw [List.forall_mem_cons] at closes
    obtain ⟨behind, settled, read⟩ := read_atom between closes.1 (@operatorOf_head_texts atoms)
    rw [List.flatMap_cons, read, List.mapM_cons]
    cases made : atom.made with
    | none => rfl
    | some group =>
      obtain ⟨isBetween, finish⟩ := settled group made
      rw [Option.bind_some, ih isBetween (fun _ => finish) closes.2]
      cases atoms.mapM Atom.made <;> simp

/-- Each atom gives one group at most, from between places or from inside a bracket. -/
theorem length_le {given : List (Option CharGroup)}
    (start : Between groups s ∨ ∃ inverse text, s = inside groups inverse text)
    (read : (s.read (atoms.flatMap Atom.text)).map RegexpReader.finish = some given) :
    none ∈ given ∨ given.length ≤ groups.length + atoms.length := by
  -- By induction on the atoms: a bracket that is not closed takes in those behind it.
  induction atoms generalizing groups s with
  | nil =>
    obtain rfl : s.finish = given := by simpa [RegexpReader.read] using read
    rcases start with between | ⟨inverse, text, rfl⟩
    · cases between with
      | atPlace group saved kept => cases saved <;> simp_all [RegexpReader.finish, opened]
      | atOperator before inverse group groups_eq => simp [RegexpReader.finish, pending, groups_eq]
    · simp [RegexpReader.finish, inside]
  | cons atom atoms ih =>
    have noOperator := @operatorOf_head_texts atoms
    rw [List.flatMap_cons] at read
    simp only [List.length_cons]
    rcases start with between | ⟨inverse, text, rfl⟩
    · by_cases closes : ∀ b ∈ atom.bracket?, b.endsInBackslash = false
      · obtain ⟨behind, settled, step⟩ := read_atom between closes noOperator
        rw [step] at read
        cases made : atom.made with
        | none => simp [made] at read
        | some group =>
          rw [made, Option.bind_some] at read
          have bound := ih (.inl (settled group made).1) read
          rw [List.length_append] at bound
          exact bound.imp_right fun short => by simp at short; omega
      · push Not at closes
        obtain ⟨b, isBracket, backslash⟩ := closes
        obtain ⟨text, step⟩ := @read_unclosed _ _ _ (atoms.flatMap Atom.text) b between isBracket
          (by simpa using backslash)
        rw [step] at read
        exact (ih (.inr ⟨_, _, rfl⟩) read).imp_right fun short => by omega
    · rcases @read_inside groups _ inverse text atom noOperator with ⟨text', step⟩ | ⟨made, step⟩
      · rw [step] at read
        exact (ih (.inr ⟨_, _, rfl⟩) read).imp_right fun short => by omega
      · rw [step] at read
        cases made with
        | none => cases read
        | some group =>
          have bound := ih (.inl (.atPlace _ _ (.inl rfl))) read
          rw [List.length_append] at bound
          exact bound.imp_right fun short => by simp at short; omega

/-- With a bracket that is not closed, there are fewer groups than atoms, or one is missing. -/
theorem length_lt {given : List (Option CharGroup)} (between : Between groups s)
    (unclosed : ∃ atom ∈ atoms, ∃ b ∈ atom.bracket?, b.endsInBackslash)
    (read : (s.read (atoms.flatMap Atom.text)).map RegexpReader.finish = some given) :
    none ∈ given ∨ given.length < groups.length + atoms.length := by
  -- By induction on the atoms up to the first bracket that is not closed.
  induction atoms generalizing groups s with
  | nil => simp at unclosed
  | cons atom atoms ih =>
    have noOperator := @operatorOf_head_texts atoms
    rw [List.flatMap_cons] at read
    simp only [List.length_cons]
    by_cases closes : ∀ b ∈ atom.bracket?, b.endsInBackslash = false
    · have later : ∃ atom ∈ atoms, ∃ b ∈ atom.bracket?, b.endsInBackslash := by
        obtain ⟨other, mem, b, isBracket, backslash⟩ := unclosed
        rcases List.mem_cons.mp mem with rfl | mem
        · simp [closes b isBracket] at backslash
        · exact ⟨other, mem, b, isBracket, backslash⟩
      obtain ⟨behind, settled, step⟩ := read_atom between closes noOperator
      rw [step] at read
      cases made : atom.made with
      | none => simp [made] at read
      | some group =>
        rw [made, Option.bind_some] at read
        have bound := ih (settled group made).1 later read
        rw [List.length_append] at bound
        exact bound.imp_right fun short => by simp at short; omega
    · push Not at closes
      obtain ⟨b, isBracket, backslash⟩ := closes
      obtain ⟨text, step⟩ := @read_unclosed _ _ _ (atoms.flatMap Atom.text) b between isBracket
        (by simpa using backslash)
      rw [step] at read
      exact (length_le (.inr ⟨_, _, rfl⟩) read).imp_right fun short => by omega

/-- Atoms are all made right when each of them is. -/
theorem made_right_iff : (∃ made, atoms.mapM Atom.made = some made ∧
      List.Forall₂ Atom.IsGroup atoms made) ↔
    ∀ atom ∈ atoms, ∃ group, atom.made = some group ∧ atom.IsGroup group := by
  -- By induction on the atoms, of which each is made and right.
  induction atoms with
  | nil => simp
  | cons atom atoms ih =>
    rw [List.forall_mem_cons, ← ih, List.mapM_cons]
    constructor
    · rintro ⟨made, mapped, right⟩
      cases first : atom.made with
      | none => simp [first] at mapped
      | some group =>
        cases others : atoms.mapM Atom.made with
        | none => simp [first, others] at mapped
        | some made' =>
          obtain rfl : group :: made' = made := by simpa [first, others] using mapped
          rw [List.forall₂_cons] at right
          exact ⟨⟨group, rfl, right.1⟩, made', rfl, right.2⟩
    · rintro ⟨⟨group, first, right⟩, made, others, rights⟩
      exact ⟨group :: made, by simp [first, others], .cons right rights⟩

/-- A pattern is segmented right when its brackets are closed, and each atom is made right. -/
theorem segmentedRight_iff (some_atom : atoms ≠ []) : SegmentedRight atoms ↔
    ∀ atom ∈ atoms, (∀ b ∈ atom.bracket?, b.endsInBackslash = false) ∧
      ∃ group, atom.made = some group ∧ atom.IsGroup group := by
  have between : Between [] RegexpReader.start := .atPlace none false (.inr rfl)
  by_cases closes : ∀ atom ∈ atoms, ∀ b ∈ atom.bracket?, b.endsInBackslash = false
  · rw [forall₂_and, ← made_right_iff, SegmentedRight, groupsOf,
      read_atoms between (fun none => absurd none some_atom) closes]
    -- The groups are those that are made of the atoms.
    constructor
    · rintro ⟨groups, read, right⟩
      obtain ⟨made, mapped, same⟩ := Option.map_eq_some_iff.mp read
      obtain rfl : made = groups := List.map_injective_iff.mpr (Option.some_injective _) same
      exact ⟨closes, made, mapped, right⟩
    · rintro ⟨-, made, mapped, right⟩
      exact ⟨made, by rw [mapped]; rfl, right⟩
  · refine iff_of_false ?_ fun right => closes fun atom mem => (right atom mem).1
    rintro ⟨groups, read, right⟩
    push Not at closes
    obtain ⟨atom, mem, b, isBracket, backslash⟩ := closes
    have unclosed : ∃ atom ∈ atoms, ∃ b ∈ atom.bracket?, b.endsInBackslash :=
      ⟨atom, mem, b, isBracket, by simpa using backslash⟩
    rcases length_lt between unclosed read with missing | fewer
    · simp at missing
    · have same := right.length_eq
      simp only [List.length_map, List.length_nil] at fewer
      omega

/-- The group of a single character has this one, or all the others. -/
theorem getLsbD_charGroupSingleChar {c : Char} (sevenBit : c.toNat < 128) (inverse : Bool)
    (operator : Operator) {code : ℕ} (small : code < 128) :
    (charGroupSingleChar c inverse operator).group.getLsbD code =
      (inverse != decide (code = c.toNat)) := by
  -- One flag is set, or one is cleared under the sign.
  have single : (1#256 <<< c.toNat).getLsbD code = decide (code = c.toNat) := by
    simp only [BitVec.getLsbD_shiftLeft, BitVec.getLsbD_one]
    rw [Bool.eq_iff_iff]
    simp
    omega
  have inside : code < 256 := by omega
  cases inverse with
  | false =>
    simp only [charGroupSingleChar, if_pos sevenBit, Bool.false_eq_true, if_false, single,
      Bool.false_bne]
  | true =>
    simp only [charGroupSingleChar, if_pos sevenBit, if_true, BitVec.getLsbD_not, single, inside,
      decide_true, Bool.true_and, Bool.true_bne]

/-- An atom of a single place is made right. -/
theorem isGroup_of_single (single : atom.bracket? = none) :
    ∃ group, atom.made = some group ∧ atom.IsGroup group := by
  -- One case for each kind of atom, by the flags that its function sets.
  rcases atom with ⟨inverse, kind, operator⟩
  cases kind with
  | plain c sevenBit _ =>
    exact ⟨_, rfl, fun code small => getLsbD_charGroupSingleChar sevenBit _ _ small, rfl⟩
  | escaped c sevenBit =>
    have meaning := Written.code_lt (.escaped c sevenBit)
    refine ⟨_, rfl, fun code small => ?_, rfl⟩
    rw [processBackslashOutGroups_eq]
    exact getLsbD_charGroupSingleChar meaning _ _ small
  | any =>
    refine ⟨_, rfl, fun code small => ?_, rfl⟩
    cases inverse with
    | false => exact getLsbD_ones small
    | true => exact BitVec.getLsbD_zero
  | bracket exclude items => cases single

/-- A bracket is made right when its text is read right, whether or not its set is inverse. -/
theorem isGroup_of_bracket {b : Bracket} (isBracket : atom.bracket? = some b) :
    (∃ group, atom.made = some group ∧ atom.IsGroup group) ↔
      ∃ code group, processCharGroup charGroupNew b.text = some (code, group) ∧
        b.IsGroup group := by
  have same (group : CharGroup) :
      atom.IsGroup (if atom.inverse then charGroupInverse group else group) ↔ b.IsGroup group := by
    rcases atom with ⟨inverse, _ | _ | _ | ⟨exclude, items⟩, operator⟩ <;> cases isBracket
    cases inverse with
    | false => simp [Atom.IsGroup, Bracket.IsGroup, AtomKind.denotes, Bracket.denotes]
    | true =>
      -- Both the set and what it is compared with are complemented.
      refine and_congr (forall₂_congr fun code small => ?_) Iff.rfl
      have inside : code < 256 := by omega
      simp [charGroupInverse, inside, AtomKind.denotes, Bracket.denotes]
  rw [made_of_bracket isBracket]
  constructor
  · rintro ⟨group, made, right⟩
    obtain ⟨⟨code, read⟩, processed, rfl⟩ := Option.map_eq_some_iff.mp made
    exact ⟨code, read, processed, (same read).mp right⟩
  · rintro ⟨code, read, processed, right⟩
    exact ⟨_, by rw [processed]; rfl, (same read).mpr right⟩

/--
A pattern is segmented right when no bracket ends in a backslash and each is sound.

The first is needed, and the second unless the bracket slips inside.
-/
theorem segmentedRight_of_sound (some_atom : atoms ≠ []) :
    ((∀ atom ∈ atoms, ∀ b ∈ atom.bracket?, b.endsInBackslash = false ∧ b.Sound) →
        SegmentedRight atoms) ∧
      (SegmentedRight atoms → ∀ atom ∈ atoms, ∀ b ∈ atom.bracket?,
        b.endsInBackslash = false ∧ (b.Sound ∨ b.SlipsInside)) := by
  -- An atom that is no bracket is always right, and a bracket by the lemma on brackets.
  rw [segmentedRight_iff some_atom]
  constructor
  · intro sound atom mem
    refine ⟨fun b isBracket => (sound atom mem b isBracket).1, ?_⟩
    cases isBracket : atom.bracket? with
    | none => exact isGroup_of_single isBracket
    | some b =>
      obtain ⟨group, read, right⟩ := (sound atom mem b isBracket).2.readRight
      exact (isGroup_of_bracket isBracket).mpr ⟨0, group, read, right⟩
  · intro right atom mem b isBracket
    obtain ⟨code, group, read, isGroup⟩ := (isGroup_of_bracket isBracket).mp (right atom mem).2
    exact ⟨(right atom mem).1 b isBracket, isGroup.sound_or_slipsInside read⟩

/-- `;[^\n]*`, the pattern of a comment. -/
theorem segmentedRight_comment :
    SegmentedRight [⟨false, .plain ';' (by decide) (by decide), .nop⟩,
      ⟨false, .bracket true [.single (.escaped 'n' (by decide))], .zom⟩] := by
  refine (segmentedRight_of_sound (by simp)).1 ?_
  simp only [List.forall_mem_cons, Atom.bracket?]
  refine ⟨by simp, fun b isBracket => ?_, by simp⟩
  obtain rfl := Option.some.inj isBracket
  refine ⟨by decide, ?_, ?_, ?_⟩
  · simp [Item.endsAtDelete]
  · simp
  · simp [Item.endsEscaped]

/-- In `[\\]a` the bracket is not closed, as the backslash before its end is taken for an escape. -/
theorem not_segmentedRight_backslash :
    ¬ SegmentedRight [⟨false, .bracket false [.single (.escaped '\\' (by decide))], .nop⟩,
      ⟨false, .plain 'a' (by decide) (by decide), .nop⟩] := by
  rw [segmentedRight_iff (by simp)]
  intro right
  have closes := (right _ List.mem_cons_self).1 _ rfl
  exact absurd closes (by decide)

end Atoms

end MiniRiscV
