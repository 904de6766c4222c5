import MiniRiscV.Asm.Grammar
import MiniRiscV.Asm.Image
import MiniRiscV.Asm.Offsets

/-! Programs one behind the other: the second has the words that it has alone. -/

namespace MiniRiscV

/-- The line at an address that is further on. -/
def InsnLine.moved (distance : ℤ) (line : InsnLine) : InsnLine :=
  { line with lineAddr := line.lineAddr + distance }

/-- The label at an address that is further on. -/
def LabelLine.moved (distance : ℤ) (label : LabelLine) : LabelLine :=
  { label with lineAddr := label.lineAddr + distance }

/-- A line of either kind at an address that is further on. -/
def AsmLine.moved (distance : ℤ) : AsmLine → AsmLine
  | .insnLine line => .insnLine (line.moved distance)
  | .labelLine label => .labelLine (label.moved distance)

section Moving

variable {lines : List AsmLine} {line : InsnLine} {distance addr addr' : ℤ}
  {lexems taken : List Lexem}

/-- What is written for a line does not depend on its address. -/
@[simp] theorem InsnLine.write_moved : (line.moved distance).write = line.write := rfl

/-- A moved line is of the same type. -/
@[simp] theorem InsnLine.isControl_moved :
    (line.moved distance).isControl = line.isControl := rfl

/-- The instruction lines of moved lines are the moved instruction lines. -/
@[simp] theorem insnLines_moved : insnLines (lines.map (AsmLine.moved distance)) =
    (insnLines lines).map (InsnLine.moved distance) := by
  -- By induction on the lines.
  induction lines with
  | nil => rfl
  | cons line rest ih => cases line <;> simp [AsmLine.moved, ih]

/-- The definitions of a name move with the lines. -/
@[simp] theorem definitions_moved (name : StringT) :
    definitions (lines.map (AsmLine.moved distance)) name =
      (definitions lines name).map (LabelLine.moved distance) := by
  -- By induction on the lines, as the names of labels are kept.
  induction lines with
  | nil => rfl
  | cons line rest ih =>
    simp only [definitions, List.map_cons] at ih ⊢
    cases line with
    | insnLine line => simpa [AsmLine.moved] using ih
    | labelLine label =>
      by_cases named : label.name.Same name
      · simp [AsmLine.moved, LabelLine.moved, named, ih]
      · simp [AsmLine.moved, LabelLine.moved, named, ih]

/-- An instruction gives the same lines at any address, but for theirs. -/
theorem emit_moved {prod : Production} (mem : prod ∈ productions) (taken : List Lexem) :
    prod.emit taken (addr + distance) = (prod.emit taken addr).map (AsmLine.moved distance) := by
  simp only [productions, List.mem_cons, List.not_mem_nil, or_false] at mem
  -- Each production adds its lines at the current address and behind it.
  rcases mem with rfl | rfl | rfl | rfl | rfl | rfl | rfl | rfl | rfl | rfl | rfl
  case inr.inr.inl =>
    simp only [insnBranch]
    split
    · simp [AsmLine.moved, InsnLine.moved, asmLineBranchAdd, asmLineNopAdd, add_right_comm]
    · rfl
  all_goals
    simp only [insnRegreg, insnImm, insnLoad, insnStore, insnJal, insnJalr, insnUpper, unsninsnJ,
      unsninsnLi, unsninsnMv]
    split <;> rfl

/-- Items at a later address are the same, but for the addresses of their lines. -/
theorem Items.moved (items : Items lexems addr lines addr') (distance : ℤ) :
    Items lexems (addr + distance) (lines.map (AsmLine.moved distance)) (addr' + distance) := by
  -- By induction on the items.
  induction items with
  | nil => exact .nil
  | label isLabel _ ih => exact .label isLabel ih
  | @insn prod lexems taken rest addr addr' lines mem matched _ ih =>
    rw [List.map_append, ← emit_moved mem]
    refine .insn mem matched ?_
    rw [emit_moved mem, List.length_map, add_right_comm]
    exact ih
  | eol ends _ ih => exact .eol ends ih

end Moving

section Joining

variable {lexems lexems' rest : List Lexem} {lines lines' : List AsmLine} {addr addr' addr'' : ℤ}

/-- Where lexemes are skipped in front of something, the same are skipped in front of more. -/
theorem skip_append (type : String) (some_lexem : lexems ≠ []) (lexems' : List Lexem) :
    skip type (lexems ++ lexems') = skip type lexems ++ lexems' := by
  cases lexems with
  | nil => exact absurd rfl some_lexem
  | cons lex lexems =>
    have same : startsWith [type] (lex :: lexems ++ lexems') = startsWith [type] (lex :: lexems) :=
      rfl
    rw [skip, same, skip]
    split <;> rfl

/-- An end of line is read in front of more lexemes too, with a blank that may come then. -/
theorem readEnd_append (ends : readEnd lexems = some rest) (lexems' : List Lexem) :
    readEnd (lexems ++ lexems') = some (rest ++ lexems') ∨
      rest = [] ∧ readEnd (lexems ++ lexems') = some (skip "blank" lexems') := by
  unfold readEnd at ends ⊢
  split at ends
  case h_2 => cases ends
  case h_1 newline behind shape =>
    have some_lexem : lexems ≠ [] := by
      rintro rfl
      cases shape
    have some_lexem' : skip "blank" lexems ≠ [] := by
      intro empty
      rw [empty] at shape
      cases shape
    rw [skip_append _ some_lexem, skip_append _ some_lexem', shape]
    split at ends
    case isFalse => cases ends
    case isTrue isNewline =>
      cases ends
      simp only [List.cons_append, isNewline, if_true, Option.some.injEq]
      -- The blank behind the newline is one of the first lexemes, or else the next one.
      by_cases empty : behind = []
      · subst empty
        exact .inr ⟨rfl, rfl⟩
      · exact .inl (skip_append _ empty _)

/-- Items one behind the other are items. -/
theorem Items.append (items : Items lexems addr lines addr')
    (items' : Items lexems' addr' lines' addr'') :
    Items (lexems ++ lexems') addr (lines ++ lines') addr'' := by
  -- By induction on the first items.
  induction items with
  | nil => exact items'
  | label isLabel _ ih =>
    rw [List.append_assoc]
    exact .label isLabel (ih items')
  | insn mem matched _ ih =>
    obtain ⟨rfl, fit⟩ := matchTerms_eq_some.mp matched
    rw [List.append_assoc, List.append_assoc]
    exact .insn mem (matchTerms_eq_some.mpr ⟨rfl, fit⟩) (ih items')
  | @eol lexems rest addr addr' lines ends items ih =>
    rcases readEnd_append ends lexems' with later | ⟨rfl, later⟩
    · exact .eol later (ih items')
    · -- The blank in front of the second belongs to the end of the first.
      exact .eol later (items_skip (.inl rfl) (ih items'))

/-- The lexemes of an accepted program are items, behind a first comment. -/
theorem accepted_items (accepted : Accepted lexems) :
    ∃ lines addr, Items (skip "comment" lexems) 0 lines addr :=
  (parseCode_accepts_iff [] false (parseStart lexems)).mp accepted

/-- A program has one sequence of lines. -/
theorem Items.unique (items : Items (skip "comment" lexems) addr lines addr')
    (items' : Items (skip "comment" lexems) addr lines' addr'') :
    lines = lines' ∧ addr' = addr'' := by
  -- Both are what the parser reads.
  have same := (readBody_iff.mpr items).symm.trans (readBody_iff.mpr items')
  simp only [Option.some.injEq, Prod.mk.injEq, and_true] at same
  exact same

/-- The lines of the items of a program stand between the label and the closing jump. -/
theorem Items.parsed (items : Items (skip "comment" lexems) 0 lines addr) :
    Accepted lexems ∧ parsedLines lexems = progStart 0 ++ lines ++ progLoop addr := by
  have accepted : Accepted lexems :=
    (parseCode_accepts_iff [] false (parseStart lexems)).mpr ⟨lines, addr, items⟩
  obtain ⟨lines', addr', items', left⟩ := parseCode_lines [] false (parseStart lexems) accepted
  obtain ⟨rfl, rfl⟩ := items.unique items'
  refine ⟨accepted, ?_⟩
  rw [parsedLines, left]
  rfl

end Joining

/-- The line as it is written, with the offset to its label when it depends on one. -/
def InsnLine.linked (all : List AsmLine) (line : InsnLine) : InsnLine :=
  if line.isControl then line.resolve all else line

section Linking

variable {lines lines' : List AsmLine} {line : InsnLine} {addr addr' : ℤ} {lexems : List Lexem}
  {words : List Word}

/-- Lines whose label the second program does not define are linked as in the first alone. -/
theorem linked_front (kept : line.isControl → definitions lines' line.label = []) :
    line.linked (progStart 0 ++ (lines ++ lines'.map (AsmLine.moved addr)) ++ progLoop addr') =
      line.linked (progStart 0 ++ lines ++ progLoop addr) := by
  rw [InsnLine.linked, InsnLine.linked]
  split
  case isFalse => rfl
  case isTrue control =>
    have none : definitions (progLoop addr') line.label = definitions (progLoop addr) line.label :=
      rfl
    simp only [InsnLine.resolve, definitions_append, definitions_moved, kept control, List.map_nil,
      List.append_nil, none]

/-- Lines whose label the second program defines itself are linked as in it alone. -/
theorem linked_back (own : line.isControl → definitions lines' line.label ≠ []) :
    (line.moved addr).linked
        (progStart 0 ++ (lines ++ lines'.map (AsmLine.moved addr)) ++ progLoop (addr' + addr)) =
      (line.linked (progStart 0 ++ lines' ++ progLoop addr')).moved addr := by
  rw [InsnLine.linked, InsnLine.linked, InsnLine.isControl_moved]
  split
  case isFalse => rfl
  case isTrue control =>
    have none (addr : ℤ) : definitions (progLoop addr) line.label = [] := rfl
    -- The last definition is that of the second program, and it has moved with the line.
    obtain ⟨label, last⟩ := Option.isSome_iff_exists.mp
      (List.getLast?_isSome.mpr (own control))
    simp [InsnLine.resolve, definitions_append, none, last, InsnLine.moved, LabelLine.moved]

/-- The lines of a resolved list are linked. -/
theorem insnLines_resolved (all : List AsmLine) :
    insnLines (lines.map (AsmLine.resolve all)) = (insnLines lines).map (InsnLine.linked all) :=
  insnLines_map_resolve all

/-- The word is the one that is written for the line. -/
def InsnLine.Gives (line : InsnLine) (word : Word) : Prop :=
  line.write = some (word.binaryText ++ ['\n'])

/-- The words of an assembled program are those of its linked lines, and one for the jump. -/
theorem Assembled.gives {loop : Word} (assembled : Assembled lexems (words ++ [loop]))
    (items : Items (skip "comment" lexems) 0 lines addr) :
    List.Forall₂ InsnLine.Gives
      ((insnLines lines).map (InsnLine.linked (progStart 0 ++ lines ++ progLoop addr))) words := by
  have each := assembled.lines_words
  have resolvable := (asmLineUpdateAdress_code _).mp assembled.resolved
  -- The label in front has no word, and the last word is that of the jump.
  obtain ⟨line, is⟩ : ∃ line, insnLines (progLoop addr) = [line] := ⟨_, rfl⟩
  have split : insnLines (progStart 0 ++ lines ++ progLoop addr) = insnLines lines ++ [line] := by
    rw [insnLines_append, insnLines_append, is]
    rfl
  rw [Words, writtenLines, if_pos rfl, asmLineUpdateAdress_lines resolvable, insnLines_resolved,
    items.parsed.2, split, List.map_append, List.map_append] at each
  have reversed := List.forall₂_reverse_iff.mpr each
  rw [List.reverse_append, List.reverse_append] at reversed
  have front := List.forall₂_reverse_iff.mp (List.forall₂_cons.mp reversed).2
  exact (List.forall₂_map_right_iff.mp front).imp fun line word gives => gives.1

/-- Lines that all give a word are written as the file of these words. -/
theorem asmLineText_of_gives {insnList : List AsmLine}
    (each : List.Forall₂ InsnLine.Gives (insnLines insnList) words) :
    asmLineText insnList = some (fileText (words.map BitVec.binaryText)) := by
  -- By induction on the lines, of which those of labels write nothing.
  induction insnList generalizing words with
  | nil =>
    cases each
    rfl
  | cons line rest ih =>
    cases line with
    | labelLine label => simp [asmLineText, AsmLine.write, ih each]
    | insnLine line =>
      obtain ⟨word, words, gives, behind, rfl⟩ := List.forall₂_cons_left_iff.mp each
      simp [asmLineText, AsmLine.write, show line.write = _ from gives, ih behind, fileText]

/-- The word of the closing jump with some offset. -/
def loopWord (offset : ℤ) : Word :=
  Rv32i.jType 0b1101111#7 6#5 (jalOffset (BitVec.ofInt 32 offset))

/-- The closing jump gives its word, with the offset that its label leads to. -/
theorem gives_progLoop (all : List AsmLine) : ∃ line, insnLines (progLoop addr) = [line] ∧
    (line.linked all).Gives (loopWord (line.resolve all).imm) :=
  ⟨_, rfl, write_jal⟩

/-- The closing jump leads back to the beginning, if its label is not defined once more. -/
theorem resolve_progLoop {line : InsnLine} (jump : insnLines (progLoop addr) = [line])
    (undefined : definitions lines (stringConvert "PROG_START") = []) :
    (line.resolve (progStart 0 ++ lines ++ progLoop addr)).imm = -addr := by
  obtain rfl := List.singleton_inj.mp jump
  -- The only definition is the one that is added in front of the program.
  have only : definitions (progStart 0 ++ lines ++ progLoop addr) (stringConvert "PROG_START") =
      definitions (progStart 0) (stringConvert "PROG_START") := by
    rw [definitions_append, definitions_append, undefined]
    rfl
  have offset : (InsnLine.resolve (progStart 0 ++ lines ++ progLoop addr) { asmLineNew with
        insn := insnset2insn .jal, rd := r6, label := stringConvert "PROG_START",
        lineAddr := addr }).imm = 0 - addr := by
    simp only [InsnLine.resolve, only]
    rfl
  exact offset.trans (Int.zero_sub addr)

/-- Linked lines that give words are assembled as these, with one for the closing jump. -/
theorem Items.assembled (items : Items (skip "comment" lexems) 0 lines addr)
    (resolvable : Resolvable (progStart 0 ++ lines ++ progLoop addr))
    (each : List.Forall₂ InsnLine.Gives
      ((insnLines lines).map (InsnLine.linked (progStart 0 ++ lines ++ progLoop addr))) words) :
    ∃ line, insnLines (progLoop addr) = [line] ∧ Assembled lexems (words ++
      [loopWord (line.resolve (progStart 0 ++ lines ++ progLoop addr)).imm]) := by
  obtain ⟨accepted, parsed⟩ := items.parsed
  obtain ⟨line, is, gives⟩ := @gives_progLoop addr (progStart 0 ++ lines ++ progLoop addr)
  refine ⟨line, is, accepted, ?_, asmLineText_of_gives ?_⟩
  · rw [parsed]
    exact (asmLineUpdateAdress_code _).mpr resolvable
  · have split : insnLines (progStart 0 ++ lines ++ progLoop addr) = insnLines lines ++ [line] := by
      rw [insnLines_append, insnLines_append, is]
      rfl
    rw [writtenLines, if_pos rfl, parsed, asmLineUpdateAdress_lines resolvable, insnLines_resolved,
      split, List.map_append]
    exact List.rel_append each (.cons gives .nil)

end Linking

/-- The lines of a program without the label and the jump that are added to it. -/
def bodyLines (lexems : List Lexem) : List AsmLine := ((parsedLines lexems).drop 1).dropLast

/-- The lexemes are items from the first on: a comment that they begin with ends a line. -/
def Continues (lexems : List Lexem) : Prop := ∃ lines addr, Items lexems 0 lines addr

/-- Each of two programs has the labels that it uses, and the second defines no label again. -/
structure Separate (first second : List Lexem) : Prop where
  kept : ∀ line ∈ insnLines (bodyLines first), line.isControl →
    definitions (bodyLines second) line.label = []
  own : ∀ line ∈ insnLines (bodyLines second), line.isControl →
    definitions (bodyLines second) line.label ≠ []

section Programs

variable {lexems first second : List Lexem} {lines lines' : List AsmLine} {addr addr' : ℤ}
  {words words' : List Word} {loop loop' : Word}

/-- The lines of a program are those of its items. -/
theorem Items.bodyLines_eq (items : Items (skip "comment" lexems) 0 lines addr) :
    bodyLines lexems = lines := by
  -- One line is added in front and one behind.
  rw [bodyLines, items.parsed.2]
  simp [progStart, progLoop, asmLineLabelAdd, asmLineJalAdd]

/-- Every instruction line takes four bytes. -/
theorem Addressed.length (addressed : Addressed addr lines addr') :
    addr' = addr + 4 * (insnLines lines).length := by
  -- By induction on the lines.
  induction lines generalizing addr with
  | nil => simpa [Addressed] using addressed
  | cons line rest ih =>
    cases line with
    | insnLine line =>
      rw [ih addressed.2, insnLines_insnLine, List.length_cons]
      push_cast
      omega
    | labelLine label => exact ih addressed.2

/-- Behind a program, the second has its items further on. -/
theorem Continues.append (continues : Continues second)
    (items : Items (skip "comment" first) 0 lines addr)
    (items' : Items (skip "comment" second) 0 lines' addr') :
    Items (skip "comment" (first ++ second)) 0 (lines ++ lines'.map (AsmLine.moved addr))
      (addr' + addr) := by
  obtain ⟨lines'', addr'', all⟩ := continues
  -- The second has the same lines with its first comment and without it.
  obtain ⟨rfl, rfl⟩ := items'.unique (items_skip (.inr rfl) all)
  by_cases empty : first = []
  · subst empty
    have none : Items (skip "comment" []) 0 [] 0 := .nil
    obtain ⟨rfl, rfl⟩ := items.unique none
    exact items'.moved 0
  · rw [skip_append _ empty]
    have moved := all.moved addr
    rw [Int.zero_add] at moved
    exact items.append moved

/-- The lines of both programs give their words, one behind the other. -/
theorem Separate.gives (separate : Separate first second)
    (assembled : Assembled first (words ++ [loop]))
    (assembled' : Assembled second (words' ++ [loop']))
    (items : Items (skip "comment" first) 0 lines addr)
    (items' : Items (skip "comment" second) 0 lines' addr') :
    List.Forall₂ InsnLine.Gives
      ((insnLines (lines ++ lines'.map (AsmLine.moved addr))).map (InsnLine.linked
        (progStart 0 ++ (lines ++ lines'.map (AsmLine.moved addr)) ++ progLoop (addr' + addr))))
      (words ++ words') := by
  obtain ⟨kept, own⟩ := separate
  rw [items.bodyLines_eq, items'.bodyLines_eq] at kept
  rw [items'.bodyLines_eq] at own
  rw [insnLines_append, insnLines_moved, List.map_append]
  refine List.rel_append ?_ ?_
  · -- The first lines are linked as before.
    rw [List.map_congr_left fun line mem => linked_front (kept line mem)]
    exact assembled.gives items
  · -- The second ones are linked as before too, and nothing else is written of them.
    rw [List.map_map]
    have same : ∀ line ∈ insnLines lines', (InsnLine.linked (progStart 0 ++
        (lines ++ lines'.map (AsmLine.moved addr)) ++ progLoop (addr' + addr)) ∘
          InsnLine.moved addr) line =
        (InsnLine.moved addr ∘ InsnLine.linked (progStart 0 ++ lines' ++ progLoop addr')) line :=
      fun line mem => linked_back (own line mem)
    rw [List.map_congr_left same, ← List.map_map, List.forall₂_map_left_iff]
    exact assembled'.gives items'

/-- All labels of both programs are defined. -/
theorem Separate.resolvable (separate : Separate first second)
    (assembled : Assembled first (words ++ [loop]))
    (items : Items (skip "comment" first) 0 lines addr)
    (items' : Items (skip "comment" second) 0 lines' addr') :
    Resolvable (progStart 0 ++ (lines ++ lines'.map (AsmLine.moved addr)) ++
      progLoop (addr' + addr)) := by
  have resolvable := (asmLineUpdateAdress_code _).mp assembled.resolved
  rw [items.parsed.2] at resolvable
  have own := separate.own
  rw [items'.bodyLines_eq] at own
  intro line mem control
  by_contra undefined
  rw [← definitions_eq_nil_iff] at undefined
  simp only [definitions_append, definitions_moved, List.append_eq_nil_iff,
    List.map_eq_nil_iff] at undefined
  obtain ⟨⟨start, inFirst, inSecond⟩, -⟩ := undefined
  -- The line is one of the first program, of the second, or the closing jump.
  rw [← mem_insnLines, insnLines_append, insnLines_append, insnLines_append, insnLines_moved,
    List.mem_append, List.mem_append, List.mem_append, List.mem_map] at mem
  rcases mem with (added | inLines | ⟨line, inLines, rfl⟩) | jump
  · cases added
  · have found := resolvable line (by
      rw [← mem_insnLines, insnLines_append, insnLines_append]
      simp [inLines]) control
    refine (definitions_eq_nil_iff _ _).mp ?_ found
    rw [definitions_append, definitions_append, start, inFirst]
    rfl
  · exact own line inLines control inSecond
  · obtain rfl := List.mem_singleton.mp jump
    cases start

/--
Two programs one behind the other are assembled as the words of the one and those of the other.

Each keeps its own words, wherever the second comes to lie. The closing jump leads back from
behind both.
-/
theorem assembled_append (assembled : Assembled first (words ++ [loop]))
    (assembled' : Assembled second (words' ++ [loop'])) (continues : Continues second)
    (separate : Separate first second) :
    ∃ last, Assembled (first ++ second) (words ++ words' ++ [last]) ∧
      (definitions (bodyLines first ++ bodyLines second) (stringConvert "PROG_START") = [] →
        last = loopWord (-4 * (words.length + words'.length))) := by
  obtain ⟨lines, addr, items⟩ := accepted_items assembled.accepted
  obtain ⟨lines', addr', items'⟩ := accepted_items assembled'.accepted
  obtain ⟨line, jump, linked⟩ := (continues.append items items').assembled
    (separate.resolvable assembled items items')
    (separate.gives assembled assembled' items items')
  refine ⟨_, linked, fun undefined => ?_⟩
  rw [items.bodyLines_eq, items'.bodyLines_eq, definitions_append, List.append_eq_nil_iff]
    at undefined
  have none : definitions (lines ++ lines'.map (AsmLine.moved addr))
      (stringConvert "PROG_START") = [] := by
    rw [definitions_append, definitions_moved, undefined.1, undefined.2]
    rfl
  have offset := resolve_progLoop jump none
  have length := items.addressed.length
  have length' := items'.addressed.length
  have words_length := (assembled.gives items).length_eq
  have words_length' := (assembled'.gives items').length_eq
  rw [List.length_map] at words_length words_length'
  refine congrArg loopWord (offset.trans ?_)
  omega

end Programs

end MiniRiscV
