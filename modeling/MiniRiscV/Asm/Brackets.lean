import MiniRiscV.Asm.CharGroup

/-! Bracket expressions as they are written, and what `process_char_group` reads of them. -/

namespace MiniRiscV

section Flags

variable {group : BitVec 256} {flag : Bool} {first last count : ℕ}

/-- An assignment inside the array changes one flag. -/
theorem setFlag_eq_some (inside : first < 256) :
    ∃ group', setFlag group first flag = some group' ∧
      ∀ j, group'.getLsbD j = if j = first then flag else group.getLsbD j := by
  refine ⟨_, if_pos (by omega), fun j => ?_⟩
  rw [Int.toNat_natCast]
  by_cases same : j = first
  · subst same
    cases flag <;> simp [inside]
  · -- The bit of another index is neither set nor cleared.
    have apart : (1#256 <<< first).getLsbD j = false := by
      simp only [BitVec.getLsbD_shiftLeft, BitVec.getLsbD_one]
      simp
      omega
    cases flag with
    | true => simp only [if_true, BitVec.getLsbD_or, apart, Bool.or_false, if_neg same]
    | false =>
      simp only [Bool.false_eq_true, if_false, BitVec.getLsbD_and, BitVec.getLsbD_not, apart,
        if_neg same, Bool.not_false, Bool.and_true]
      cases set : group.getLsbD j with
      | false => rfl
      | true => simpa using BitVec.lt_of_getLsbD set

/-- Assignments to flags in a row change those flags. -/
theorem setFlags_eq_some (inside : first + count ≤ 256) :
    ∃ group', (List.range count).foldlM (fun group (i : ℕ) => setFlag group (first + i) flag)
        group = some group' ∧
      ∀ j, group'.getLsbD j = if first ≤ j ∧ j < first + count then flag else group.getLsbD j := by
  -- By induction on their number, with the last assignment set apart.
  induction count with
  | zero => exact ⟨group, rfl, fun j => by rw [if_neg (by omega)]⟩
  | succ count ih =>
    obtain ⟨before, assigned, flags⟩ := ih (by omega)
    obtain ⟨after, last, flag'⟩ := @setFlag_eq_some before flag (first + count) (by omega)
    refine ⟨after, ?_, fun j => ?_⟩
    · rw [List.range_succ, List.foldlM_append, assigned]
      simpa using last
    · rw [flag', flags]
      split_ifs <;> first | rfl | omega

/-- The loop over an interval sets its flags, unless its last character is the greatest one. -/
theorem setInterval_eq_some (ordered : first ≤ last) (bounded : last < 127) :
    ∃ group', setInterval group first last flag = some group' ∧
      ∀ j, group'.getLsbD j = if first ≤ j ∧ j ≤ last then flag else group.getLsbD j := by
  have length : ((last : ℤ) - first + 1).toNat = last + 1 - first := by omega
  obtain ⟨group', assigned, flags⟩ :=
    @setFlags_eq_some group flag first (last + 1 - first) (by omega)
  refine ⟨group', ?_, fun j => ?_⟩
  · rw [setInterval, if_neg (by omega), if_neg (by omega), length, ← assigned]
    -- The indices are the natural numbers, as integers.
    simp [← List.map_eq_flatMap, List.foldlM_map]
  · rw [flags]
    split_ifs <;> first | rfl | omega

/-- The loop over an interval that goes up to the greatest character never ends. -/
theorem setInterval_eq_none (ordered : first ≤ 127) : setInterval group first 127 flag = none := by
  rw [setInterval, if_neg (by omega), if_pos rfl]

/-- The flags of all characters. -/
theorem getLsbD_ones {code : ℕ} (small : code < 128) : (~~~0 : BitVec 256).getLsbD code = true := by
  rw [BitVec.getLsbD_not]
  simp
  omega

end Flags

/-- The character that a backslash and the one behind it stand for. -/
def escapeMeaning (c : Char) : Char := if c = 'n' then '\n' else if c = 't' then '\t' else c

/-- `process_backslash_in_group` spells out characters that stand for themselves. -/
theorem processBackslashInGroup_eq (c : Char) : processBackslashInGroup c = escapeMeaning c := by
  unfold processBackslashInGroup escapeMeaning
  split <;> simp_all

/-- A character of a bracket as it is written, alone or behind a backslash. -/
inductive Written where
  | plain (c : Char) (sevenBit : c.toNat < 128)
    (ordinary : c ≠ '^' ∧ c ≠ ']' ∧ c ≠ '-' ∧ c ≠ '\\')
  | escaped (c : Char) (sevenBit : c.toNat < 128)

namespace Written

def text : Written → CStr
  | plain c _ _ => [c]
  | escaped c _ => ['\\', c]

/-- The code of the character that is meant. -/
def code : Written → ℕ
  | plain c _ _ => c.toNat
  | escaped c _ => (escapeMeaning c).toNat

def isEscaped : Written → Bool
  | plain _ _ _ => false
  | escaped _ _ => true

/-- The code of a written character has seven bits, also behind a backslash. -/
theorem code_lt (written : Written) : written.code < 128 := by
  cases written with
  | plain c sevenBit ordinary => exact sevenBit
  | escaped c sevenBit =>
    -- The codes of newline and tab are small as well.
    rw [code, escapeMeaning]
    split_ifs
    · decide
    · decide
    · exact sevenBit

/-- The value that is assigned for an escaped character is the code of its meaning. -/
theorem charValue_escaped (c : Char) (sevenBit : c.toNat < 128) :
    charValue (processBackslashInGroup c) = code (.escaped c sevenBit) := by
  rw [processBackslashInGroup_eq]
  exact if_pos (code_lt (.escaped c sevenBit))

end Written

/-- An item of a bracket: a character, or the characters between two bounds. -/
inductive Item where
  | single (written : Written)
  | range (lo hi : Written) (ordered : lo.code ≤ hi.code)

namespace Item

def text : Item → CStr
  | single written => written.text
  | range lo hi _ => lo.text ++ '-' :: hi.text

/-- The characters that the item denotes, by their codes. -/
def denotes : Item → ℕ → Bool
  | single written, code => code = written.code
  | range lo hi _, code => lo.code ≤ code ∧ code ≤ hi.code

/-- A range with an upper bound behind a backslash. -/
def endsEscaped : Item → Bool
  | single _ => false
  | range _ hi _ => hi.isEscaped

/-- A range whose upper bound is the last character of seven bits. -/
def endsAtDelete : Item → Bool
  | single _ => false
  | range _ hi _ => hi.code = 127

end Item

/-- The character of an operator, if it has one. -/
def Operator.suffix : Operator → CStr
  | .nop => []
  | .zom => ['*']
  | .oom => ['+']
  | .zoo => ['?']

/-- A bracket expression. -/
structure Bracket where
  exclude : Bool
  items : List Item
  operator : Operator

namespace Bracket

variable (b : Bracket)

/-- Its text behind the first bracket and the sign of exclusion. -/
def body : CStr := b.items.flatMap Item.text ++ ']' :: b.operator.suffix

/-- Its text behind the first bracket. -/
def text : CStr := (if b.exclude then ['^'] else []) ++ b.body

/-- The characters that it denotes, by their codes. -/
def denotes (code : ℕ) : Bool := b.exclude != b.items.any fun item => item.denotes code

/-- A group has the characters and the operator of the bracket. -/
def IsGroup (group : CharGroup) : Prop :=
  (∀ code < 128, group.group.getLsbD code = b.denotes code) ∧ group.operator = b.operator

/-- `process_char_group` returns 0 with the group of the bracket. -/
def ReadRight : Prop :=
  ∃ group, processCharGroup charGroupNew b.text = some (0, group) ∧ b.IsGroup group

/-- No range ends at DEL, and behind an escaped upper bound the bracket ends, with no operator. -/
structure Sound : Prop where
  noDelete : ∀ item ∈ b.items, item.endsAtDelete = false
  noneInside : ∀ item ∈ b.items.dropLast, item.endsEscaped = false
  noOperator : ∀ item ∈ b.items.getLast?, item.endsEscaped → b.operator = .nop

end Bracket

section Scanner

variable {exclude : Bool} {group : CharGroup} {start : ℤ} {rest : CStr}

/-- A character that is written alone or behind a backslash is assigned by its code. -/
theorem processCharGroupFrom_text (written : Written) :
    processCharGroupFrom exclude group start (written.text ++ rest) =
      (setFlag group.group written.code (!exclude)).bind fun flags =>
        processCharGroupFrom exclude { group with group := flags } written.code rest := by
  cases written with
  | plain c sevenBit ordinary =>
    obtain ⟨noCaret, noEnd, noDash, noBackslash⟩ := ordinary
    change processCharGroupFrom exclude group start (c :: rest) = _
    rw [processCharGroupFrom_ordinary noEnd noDash noBackslash noCaret, charValue, if_pos sevenBit]
    rfl
  | escaped c sevenBit =>
    change processCharGroupFrom exclude group start ('\\' :: c :: rest) = _
    rw [processCharGroupFrom_backslash, Written.charValue_escaped c sevenBit]
    rfl

/-- An upper bound is taken by its code, and a character behind an escaped one is passed. -/
theorem processCharGroupFrom_bound (hi : Written) :
    processCharGroupFrom exclude group start ('-' :: hi.text ++ rest) =
      (setInterval group.group start hi.code (!exclude)).bind fun flags =>
        processCharGroupFrom exclude { group with group := flags } start
          (if hi.isEscaped then rest.tail else rest) := by
  cases hi with
  | plain c sevenBit ordinary =>
    obtain ⟨noCaret, noEnd, noDash, noBackslash⟩ := ordinary
    change processCharGroupFrom exclude group start ('-' :: c :: rest) = _
    rw [processCharGroupFrom_interval noEnd noBackslash, charValue, if_pos sevenBit]
    rfl
  | escaped c sevenBit =>
    change processCharGroupFrom exclude group start ('-' :: '\\' :: c :: rest) = _
    rw [processCharGroupFrom_escapedInterval, Written.charValue_escaped c sevenBit]
    rfl

/-- A character that is written is set, and may begin a range. -/
theorem processCharGroupFrom_written (written : Written) :
    ∃ flags, (∀ code, flags.getLsbD code =
        if code = written.code then !exclude else group.group.getLsbD code) ∧
      processCharGroupFrom exclude group start (written.text ++ rest) =
        processCharGroupFrom exclude { group with group := flags } written.code rest := by
  -- A character of seven bits is inside the array.
  have inside : written.code < 256 := by
    have := written.code_lt
    omega
  obtain ⟨flags, assigned, set⟩ := @setFlag_eq_some group.group (!exclude) _ inside
  exact ⟨flags, set, by rw [processCharGroupFrom_text, assigned]; rfl⟩

/-- The characters up to an upper bound are set, and one behind an escaped one is passed. -/
theorem processCharGroupFrom_upper {first : ℕ} (hi : Written) (ordered : first ≤ hi.code)
    (bounded : hi.code ≠ 127) :
    ∃ flags, (∀ code, flags.getLsbD code =
        if first ≤ code ∧ code ≤ hi.code then !exclude else group.group.getLsbD code) ∧
      processCharGroupFrom exclude group first ('-' :: hi.text ++ rest) =
        processCharGroupFrom exclude { group with group := flags } first
          (if hi.isEscaped then rest.tail else rest) := by
  -- A bound that is not the greatest one ends the loop.
  have upTo : hi.code < 127 := by
    have := hi.code_lt
    omega
  obtain ⟨flags, assigned, set⟩ := @setInterval_eq_some group.group (!exclude) _ _ ordered upTo
  exact ⟨flags, set, by rw [processCharGroupFrom_bound, assigned]; rfl⟩

/-- The loop over the characters up to DEL never ends. -/
theorem processCharGroupFrom_delete {first : ℕ} (hi : Written) (ordered : first ≤ hi.code)
    (delete : hi.code = 127) :
    processCharGroupFrom exclude group first ('-' :: hi.text ++ rest) = none := by
  rw [delete] at ordered
  rw [processCharGroupFrom_bound, delete]
  exact congrArg (Option.bind · _) (setInterval_eq_none ordered)

/-- An item sets the flags it denotes, and the character behind an escaped bound is passed. -/
theorem processCharGroupFrom_item (item : Item) (noDelete : item.endsAtDelete = false) :
    ∃ flags behind, (∀ code, flags.getLsbD code =
        if item.denotes code then !exclude else group.group.getLsbD code) ∧
      processCharGroupFrom exclude group start (item.text ++ rest) =
        processCharGroupFrom exclude { group with group := flags } behind
          (if item.endsEscaped then rest.tail else rest) := by
  cases item with
  | single written =>
    obtain ⟨flags, set, read⟩ := @processCharGroupFrom_written exclude group start rest written
    exact ⟨flags, written.code, by simpa [Item.denotes] using set, read⟩
  | range lo hi ordered =>
    -- The lower bound is set as a character, and again with those up to the upper one.
    have bounded : hi.code ≠ 127 := by simpa [Item.endsAtDelete] using noDelete
    obtain ⟨lower, setLower, readLower⟩ :=
      @processCharGroupFrom_written exclude group start ('-' :: hi.text ++ rest) lo
    obtain ⟨flags, set, read⟩ := @processCharGroupFrom_upper exclude { group with group := lower }
      rest _ hi ordered bounded
    refine ⟨flags, lo.code, fun code => ?_, ?_⟩
    · rw [set, setLower]
      simp only [Item.denotes, decide_eq_true_eq]
      split_ifs <;> first | rfl | omega
    · rw [Item.text, List.append_assoc, readLower, read]
      rfl

/-- A range up to DEL is not read to its end. -/
theorem processCharGroupFrom_item_delete (item : Item) (delete : item.endsAtDelete) :
    processCharGroupFrom exclude group start (item.text ++ rest) = none := by
  -- The lower bound is read as a character, and the loop does not come back.
  cases item with
  | single written => cases delete
  | range lo hi ordered =>
    obtain ⟨lower, -, readLower⟩ :=
      @processCharGroupFrom_written exclude group start ('-' :: hi.text ++ rest) lo
    rw [Item.text, List.append_assoc, readLower]
    exact processCharGroupFrom_delete hi ordered (by simpa [Item.endsAtDelete] using delete)

/-- Items in a row set the flags that they denote. -/
theorem processCharGroupFrom_items {items : List Item}
    (noDelete : ∀ item ∈ items, item.endsAtDelete = false)
    (noEscaped : ∀ item ∈ items, item.endsEscaped = false) :
    ∃ flags behind, (∀ code, flags.getLsbD code = if items.any fun item => item.denotes code then
        !exclude else group.group.getLsbD code) ∧
      processCharGroupFrom exclude group start (items.flatMap Item.text ++ rest) =
        processCharGroupFrom exclude { group with group := flags } behind rest := by
  -- By induction on the items, each of which keeps what those before it have set.
  induction items generalizing group start with
  | nil => exact ⟨group.group, start, by simp, rfl⟩
  | cons item items ih =>
    rw [List.forall_mem_cons] at noDelete noEscaped
    obtain ⟨first, middle, setFirst, readFirst⟩ := @processCharGroupFrom_item exclude group start
      (items.flatMap Item.text ++ rest) item noDelete.1
    obtain ⟨flags, behind, set, read⟩ :=
      @ih { group with group := first } middle noDelete.2 noEscaped.2
    refine ⟨flags, behind, fun code => ?_, ?_⟩
    · rw [set, setFirst, List.any_cons]
      cases item.denotes code <;> simp
    · rw [List.flatMap_cons, List.append_assoc, readFirst, noEscaped.1]
      exact read

/-- A range up to DEL, before any slip, is not read to its end. -/
theorem processCharGroupFrom_items_delete {items : List Item}
    (noneInside : ∀ item ∈ items.dropLast, item.endsEscaped = false)
    (delete : ∃ item ∈ items, item.endsAtDelete) :
    processCharGroupFrom exclude group start (items.flatMap Item.text ++ rest) = none := by
  -- By induction on the items, up to the first range that ends at DEL.
  induction items generalizing group start with
  | nil =>
    obtain ⟨item, mem, -⟩ := delete
    cases mem
  | cons item items ih =>
    rw [List.flatMap_cons, List.append_assoc]
    cases first : item.endsAtDelete with
    | true => exact processCharGroupFrom_item_delete item first
    | false =>
      have later : ∃ item ∈ items, item.endsAtDelete := by simpa [first] using delete
      have some_item : items ≠ [] := by
        rintro rfl
        simp at later
      rw [List.dropLast_cons_of_ne_nil some_item, List.forall_mem_cons] at noneInside
      obtain ⟨flags, behind, -, read⟩ := @processCharGroupFrom_item exclude group start
        (items.flatMap Item.text ++ rest) item first
      rw [read, noneInside.1]
      exact ih noneInside.2 later

/-- The closing bracket is read with the operator behind it. -/
theorem processCharGroupFrom_close (operator : Operator) :
    processCharGroupFrom exclude group start (']' :: operator.suffix) =
      some (0, { group with operator := operator, inverse := exclude }) := by
  cases operator <;> rfl

/-- An operator that is not read with a closing bracket is a character like others. -/
theorem processCharGroupFrom_suffix (operator : Operator) :
    ∃ flags, processCharGroupFrom exclude group start operator.suffix =
      some (0, { group with group := flags, inverse := exclude }) := by
  have last (written : Written) : ∃ flags, processCharGroupFrom exclude group start written.text =
      some (0, { group with group := flags, inverse := exclude }) := by
    -- Behind the character the text ends.
    obtain ⟨flags, -, read⟩ := @processCharGroupFrom_written exclude group start [] written
    rw [List.append_nil] at read
    exact ⟨flags, read⟩
  cases operator with
  | nop => exact ⟨group.group, rfl⟩
  | zom => exact last (.plain '*' (by decide) (by decide))
  | oom => exact last (.plain '+' (by decide) (by decide))
  | zoo => exact last (.plain '?' (by decide) (by decide))

end Scanner

namespace Bracket

variable {b : Bracket}

/-- Behind the sign of exclusion, all the flags are set, and none without it. -/
theorem processCharGroup_text (b : Bracket) (group : CharGroup) :
    processCharGroup group b.text = processCharGroupFrom b.exclude
      { group with group := if b.exclude then ~~~0 else 0 } 0 b.body := by
  rcases b with ⟨exclude, items, operator⟩
  cases exclude with
  | true => rfl
  | false =>
    -- No item begins with the sign of exclusion.
    have first : ∀ c ∈ (body ⟨false, items, operator⟩).head?, c ≠ '^' := by
      rcases items with _ | ⟨item, items⟩
      · simp [body]
      · rcases item with ⟨c, _, ordinary⟩ | ⟨c, _⟩ | ⟨⟨c, _, ordinary⟩ | ⟨c, _⟩, hi, _⟩ <;>
          simp_all [body, Item.text, Written.text]
    change processCharGroup group (body ⟨false, items, operator⟩) = _
    unfold processCharGroup
    split
    · rename_i rest begins
      exact absurd rfl (first '^' (by rw [begins]; rfl))
    · rfl

/-- The flags that the items set are those of the characters that the bracket denotes. -/
theorem getLsbD_eq_denotes {flags : BitVec 256} {code : ℕ} (small : code < 128)
    (set : flags.getLsbD code = if b.items.any fun item => item.denotes code then !b.exclude
      else (if b.exclude then ~~~0 else 0 : BitVec 256).getLsbD code) :
    flags.getLsbD code = b.denotes code := by
  -- The flags that no item sets are all on or all off before.
  have ones := getLsbD_ones small
  rw [set, denotes]
  cases b.exclude with
  | false => cases b.items.any fun item => item.denotes code <;> simp
  | true => cases b.items.any fun item => item.denotes code <;> simp only [ones, if_true] <;> rfl

/-- A last range with an escaped upper bound passes the closing bracket. -/
theorem processCharGroup_escaped_last {init : List Item} {last : Item}
    (items : b.items = init ++ [last]) (noDelete : ∀ item ∈ b.items, item.endsAtDelete = false)
    (noneInside : ∀ item ∈ init, item.endsEscaped = false) (escaped : last.endsEscaped) :
    ∃ flags behind, (∀ code < 128, flags.getLsbD code = b.denotes code) ∧
      processCharGroup charGroupNew b.text = processCharGroupFrom b.exclude
        { charGroupNew with group := flags } behind b.operator.suffix := by
  -- The items in front are read as they are, and the last takes one character more.
  have noDeleteInit : ∀ item ∈ init, item.endsAtDelete = false := fun item mem =>
    noDelete item (by simp [items, mem])
  have noDeleteLast : last.endsAtDelete = false := noDelete last (by simp [items])
  rw [processCharGroup_text, body, items, List.flatMap_append, List.append_assoc,
    List.flatMap_singleton]
  obtain ⟨before, middle, setBefore, readBefore⟩ := @processCharGroupFrom_items b.exclude
    { charGroupNew with group := if b.exclude then ~~~0 else 0 } 0
    (last.text ++ ']' :: b.operator.suffix) init noDeleteInit noneInside
  obtain ⟨flags, behind, set, read⟩ := @processCharGroupFrom_item b.exclude
    { charGroupNew with group := before } middle (']' :: b.operator.suffix) last noDeleteLast
  refine ⟨flags, behind, fun code small => getLsbD_eq_denotes small ?_, ?_⟩
  · rw [set, setBefore, items, List.any_append]
    cases init.any fun item => item.denotes code <;> cases inLast : last.denotes code <;>
      simp [inLast]
  · rw [readBefore, read, escaped]
    rfl

/-- A sound bracket is read right. -/
theorem Sound.readRight (sound : b.Sound) : b.ReadRight := by
  rw [ReadRight]
  by_cases noEscaped : ∀ item ∈ b.items, item.endsEscaped = false
  · obtain ⟨flags, behind, set, read⟩ := processCharGroupFrom_items sound.noDelete noEscaped
    rw [processCharGroup_text, body, read, processCharGroupFrom_close]
    exact ⟨_, rfl, fun code small => getLsbD_eq_denotes small (set code), rfl⟩
  · rcases List.eq_nil_or_concat' b.items with none | ⟨init, last, items⟩
    · rw [none] at noEscaped
      exact absurd (by simp) noEscaped
    · obtain ⟨noDelete, noneInside, noOperator⟩ := sound
      rw [items] at noneInside noOperator noEscaped
      rw [List.dropLast_concat] at noneInside
      -- Only the last range has an escaped bound, and behind it there is no operator.
      have escaped : last.endsEscaped := by
        by_contra plain
        refine noEscaped (List.forall_mem_append.mpr ⟨noneInside, ?_⟩)
        simpa using plain
      have single : b.operator = .nop := noOperator last (by simp) escaped
      obtain ⟨flags, behind, set, read⟩ :=
        processCharGroup_escaped_last items noDelete noneInside escaped
      rw [read, single]
      exact ⟨_, rfl, set, single.symm⟩

/-- A bracket whose group is made is sound, if it does not slip inside. -/
theorem IsGroup.sound {group : CharGroup} {code : ℤ} (isGroup : b.IsGroup group)
    (read : processCharGroup charGroupNew b.text = some (code, group))
    (noneInside : ∀ item ∈ b.items.dropLast, item.endsEscaped = false) : b.Sound := by
  obtain ⟨flags, operator⟩ := isGroup
  have noDelete : ∀ item ∈ b.items, item.endsAtDelete = false := by
    by_contra delete
    have delete : ∃ item ∈ b.items, item.endsAtDelete := by simpa using delete
    rw [processCharGroup_text, body, processCharGroupFrom_items_delete noneInside delete] at read
    cases read
  refine { noDelete, noneInside, noOperator := fun last isLast escaped => ?_ }
  -- The operator is that of a new group, as the closing bracket is passed.
  rcases List.eq_nil_or_concat' b.items with none | ⟨init, last', items⟩
  · simp [none] at isLast
  · obtain rfl : last' = last := by simpa [items] using isLast
    rw [items, List.dropLast_concat] at noneInside
    obtain ⟨flags, behind, -, slips⟩ :=
      processCharGroup_escaped_last items noDelete noneInside escaped
    obtain ⟨left, ends⟩ := @processCharGroupFrom_suffix b.exclude
      { charGroupNew with group := flags } behind b.operator
    rw [slips, ends] at read
    obtain ⟨-, rfl⟩ := Prod.mk.inj (Option.some.inj read)
    exact operator.symm

/-- A range with an escaped upper bound has another item behind it. -/
def SlipsInside (b : Bracket) : Prop := ∃ item ∈ b.items.dropLast, item.endsEscaped

/-- A bracket whose group is made is sound or slips inside. -/
theorem IsGroup.sound_or_slipsInside {group : CharGroup} {code : ℤ} (isGroup : b.IsGroup group)
    (read : processCharGroup charGroupNew b.text = some (code, group)) :
    b.Sound ∨ b.SlipsInside := by
  -- Without a slip inside, the group tells that the bracket is sound.
  by_cases slips : b.SlipsInside
  · exact .inr slips
  · have noneInside : ∀ item ∈ b.items.dropLast, item.endsEscaped = false := by
      simpa [SlipsInside] using slips
    exact .inl (isGroup.sound read noneInside)

/--
A bracket is read right when it is sound, and only then unless it slips inside.

What an item passed or begun by its second character leaves may be denoted by the others.
-/
theorem readRight_of_sound (b : Bracket) :
    (b.Sound → b.ReadRight) ∧ (b.ReadRight → b.Sound ∨ b.SlipsInside) := by
  refine ⟨Sound.readRight, fun right => ?_⟩
  obtain ⟨group, read, isGroup⟩ := right
  exact isGroup.sound_or_slipsInside read

/-- A run of characters outside of a range, `[^a-y]+`, is read right. -/
theorem readRight_outside :
    ReadRight { exclude := true
                items := [.range (.plain 'a' (by decide) (by decide))
                  (.plain 'y' (by decide) (by decide)) (by decide)]
                operator := .oom } :=
  -- Neither bound is escaped, and the upper one is not the last character of seven bits.
  (readRight_of_sound _).1 ⟨by decide, by decide, by simp [Item.endsEscaped, Written.isEscaped]⟩

/-- The closing bracket of `[a-\z]*` is passed, and the operator is read as a character. -/
theorem not_readRight_operator :
    ¬ ReadRight { exclude := false
                  items := [.range (.plain 'a' (by decide) (by decide)) (.escaped 'z' (by decide))
                    (by decide)]
                  operator := .zom } := by
  -- The bracket has no slip inside and is not sound.
  rintro ⟨group, read, isGroup⟩
  have sound := isGroup.sound read (by simp)
  cases sound.noOperator _ rfl rfl

end Bracket

end MiniRiscV
