import MiniRiscV.Asm.Output
import MiniRiscV.Asm.Program

/-! The layout of a parsed program: the address of each line, and what stands behind a branch. -/

namespace MiniRiscV

/-- The line that `asm_line_nop_add` adds. -/
def nopLine (lineAddr : ℤ) : AsmLine :=
  .insnLine { asmLineNew with insn := { insn := .nop, type := .nop }, lineAddr }

/-- The lines of one instruction at an address: a branch comes with two no-operations. -/
inductive Emitted (addr : ℤ) : List AsmLine → Prop where
  | one {line : InsnLine} (typed : ∃ insnSet, line.insn = insnset2insn insnSet)
      (noNop : line.insn.type ≠ .nop) (noBranch : line.insn.type ≠ .branch)
      (lineAddr : line.lineAddr = addr) : Emitted addr [.insnLine line]
  | branch {line : InsnLine} (typed : ∃ insnSet, line.insn = insnset2insn insnSet)
      (noNop : line.insn.type ≠ .nop) (lineAddr : line.lineAddr = addr) :
      Emitted addr [.insnLine line, nopLine (addr + 4), nopLine (addr + 4 + 4)]

section Emission

variable {types : List String} {terms : List (List String)} {lexems taken rest : List Lexem}

/-- The first of some fitting lexemes. -/
theorem Fit.head (fit : Fit (types :: terms) taken) :
    ∃ lex rest, taken = lex :: rest ∧ types.any (lexemType lex) ∧ rest.length = terms.length := by
  obtain ⟨lex, rest, isType, behind, rfl⟩ := List.forall₂_cons_left_iff.mp fit
  exact ⟨lex, rest, rfl, isType, behind.length_eq.symm⟩

/-- Every name gives an instruction with its type. -/
theorem str2insn_typed (str : CStr) : ∃ insnSet, str2insn str = insnset2insn insnSet := by
  unfold str2insn
  split
  · exact ⟨_, rfl⟩
  · exact ⟨_, rfl⟩

/-- The type of the instruction that a lexeme names, from the types asked for. -/
theorem str2insn_type (is : InsnType → Prop) {lex : Lexem} (isType : types.any (lexemType lex))
    (names : ∀ type ∈ types, ∀ name ∈ insnNames, type.toList.isPrefixOf name.1.toList →
      is (insnset2insn name.2).type)
    (undefined : is (insnset2insn .undefined).type) : is (str2insn lex.type).type := by
  -- The name found begins like the type, or there is none and the type is undefined.
  unfold str2insn
  split
  · rename_i name found
    obtain ⟨type, mem, begins⟩ := List.any_eq_true.mp isType
    have spelled := List.find?_some found
    simp only [decide_eq_true_eq] at spelled
    exact names type mem name (List.mem_of_find?_eq_some found) (by rwa [spelled])
  · exact undefined

/-- The productions with a mnemonic, and the types of instruction that it may name. -/
def mnemonicKinds : List (Production × List InsnType) :=
  -- The names of `ADDI` and `JALR` begin with those of `ADD` and `JAL`.
  [(insnRegreg, [.regreg, .regimm]), (insnImm, [.regimm]), (insnBranch, [.branch]),
    (insnLoad, [.load]), (insnStore, [.store]), (insnJal, [.jal, .jalr]), (insnJalr, [.jalr]),
    (insnUpper, [.lui, .auipc])]

/-- A name that begins with a mnemonic of a production is of one of its types. -/
theorem mnemonicKinds_spec : ∀ entry ∈ mnemonicKinds, ∀ types ∈ entry.1.terms.head?,
    ∀ type ∈ types, "insn::".toList.isPrefixOf type.toList ∧
      ∀ name ∈ insnNames, type.toList.isPrefixOf name.1.toList →
        (insnset2insn name.2).type ∈ entry.2 := by
  decide +kernel

section Lines

variable (rd rs1 rs2 : Reg) (imm : ℤ) (label : StringT) (addr : ℤ)

/-- One line for a mnemonic that names no branch. -/
theorem emitted_named {lex : Lexem} (prod : Production) (kinds : List InsnType)
    (mem : (prod, kinds) ∈ mnemonicKinds) (head : prod.terms.head? = some types)
    (isType : types.any (lexemType lex)) (plain : ∀ kind ∈ kinds, kind ≠ .nop ∧ kind ≠ .branch) :
    Emitted addr [.insnLine ⟨str2insn lex.type, rd, rs1, rs2, imm, label, addr⟩] :=
  have kind := str2insn_type (fun type => type ≠ .nop ∧ type ≠ .branch) isType
    (fun type mem' name mem'' begins =>
      plain _ ((mnemonicKinds_spec _ mem types head type mem').2 name mem'' begins)) (by decide)
  .one (str2insn_typed _) kind.1 kind.2 rfl

/-- One line for the instruction that a pseudo-instruction stands for. -/
theorem emitted_fixed {insnSet : Insnset}
    (kind : (insnset2insn insnSet).type ≠ .nop ∧ (insnset2insn insnSet).type ≠ .branch) :
    Emitted addr [.insnLine ⟨insnset2insn insnSet, rd, rs1, rs2, imm, label, addr⟩] :=
  .one ⟨_, rfl⟩ kind.1 kind.2 rfl

end Lines

/-- The lines of an instruction that is read. -/
theorem emitted_of_mem {prod : Production} (mem : prod ∈ productions)
    (matched : matchTerms prod.terms lexems = some (taken, rest)) (addr : ℤ) :
    Emitted addr (prod.emit taken addr) := by
  obtain ⟨-, fit⟩ := matchTerms_eq_some.mp matched
  simp only [productions, List.mem_cons, List.not_mem_nil, or_false] at mem
  rcases mem with rfl | rfl | rfl | rfl | rfl | rfl | rfl | rfl | rfl | rfl | rfl
  all_goals obtain ⟨lex, operands, rfl, isType, size⟩ := fit.head
  · match operands, size with
    | [_, _, _, _, _, _], _ =>
      exact emitted_named _ _ _ _ _ _ insnRegreg [.regreg, .regimm] (by simp [mnemonicKinds])
        rfl isType (by decide)
  · match operands, size with
    | [_, _, _, _, _, _], _ =>
      exact emitted_named _ _ _ _ _ _ insnImm [.regimm] (by simp [mnemonicKinds]) rfl isType
        (by decide)
  · match operands, size with
    | [_, _, _, _, _, _], _ =>
      exact .branch (str2insn_typed _)
        (str2insn_type (· ≠ .nop) isType (fun type mem name mem' begins => by
          have kind := (mnemonicKinds_spec (insnBranch, [.branch]) (by simp [mnemonicKinds]) _ rfl
            type mem).2 name mem' begins
          rw [List.mem_singleton.mp kind]
          decide) (by decide)) rfl
  · match operands, size with
    | [_, _, _, _, _, _, _], _ =>
      exact emitted_named _ _ _ _ _ _ insnLoad [.load] (by simp [mnemonicKinds]) rfl isType
        (by decide)
  · match operands, size with
    | [_, _, _, _, _, _, _], _ =>
      exact emitted_named _ _ _ _ _ _ insnStore [.store] (by simp [mnemonicKinds]) rfl isType
        (by decide)
  · match operands, size with
    | [_, _, _, _], _ =>
      exact emitted_named _ _ _ _ _ _ insnJal [.jal, .jalr] (by simp [mnemonicKinds]) rfl isType
        (by decide)
  · match operands, size with
    | [_, _, _, _, _, _], _ =>
      exact emitted_named _ _ _ _ _ _ insnJalr [.jalr] (by simp [mnemonicKinds]) rfl isType
        (by decide)
  · match operands, size with
    | [_, _, _, _], _ =>
      exact emitted_named _ _ _ _ _ _ insnUpper [.lui, .auipc] (by simp [mnemonicKinds]) rfl isType
        (by decide)
  -- The pseudo-instructions stand for fixed ones.
  · match operands, size with
    | [_, _], _ => exact emitted_fixed _ _ _ _ _ _ (by decide)
  · match operands, size with
    | [_, _, _, _], _ => exact emitted_fixed _ _ _ _ _ _ (by decide)
  · match operands, size with
    | [_, _, _, _], _ => exact emitted_fixed _ _ _ _ _ _ (by decide)

end Emission

/-- The lines lie one behind the other from an address to an address, labels taking no place. -/
def Addressed : ℤ → List AsmLine → ℤ → Prop
  | addr, [], addr' => addr' = addr
  | addr, .insnLine line :: rest, addr' => line.lineAddr = addr ∧ Addressed (addr + 4) rest addr'
  | addr, .labelLine label :: rest, addr' => label.lineAddr = addr ∧ Addressed addr rest addr'

/-- A no-operation as `asm_line_nop_add` makes it. -/
def AsmLine.isNop : AsmLine → Bool
  | .insnLine line => line.insn = { insn := .nop, type := .nop }
  | .labelLine _ => false

/-- Lines that begin with no no-operation. -/
def NoNop (lines : List AsmLine) : Prop := ∀ next ∈ lines.head?, ¬ next.isNop

/-- Lines that begin with two no-operations and not with a third. -/
def TwoNops (lines : List AsmLine) : Prop :=
  ∃ nop nop' rest, lines = nop :: nop' :: rest ∧ nop.isNop ∧ nop'.isNop ∧ NoNop rest

/-- Two no-operations stand behind every branch. -/
def Padded : List AsmLine → Prop
  | [] => True
  | .insnLine line :: rest => (line.insn.type = .branch → TwoNops rest) ∧ Padded rest
  | .labelLine _ :: rest => Padded rest

section Runs

variable {addr addr' addr'' : ℤ} {lines lines' : List AsmLine} {lexems : List Lexem}

/-- Lines that go on at the address behind others are addressed with them. -/
theorem Addressed.append (first : Addressed addr lines addr')
    (second : Addressed addr' lines' addr'') : Addressed addr (lines ++ lines') addr'' := by
  -- By induction on the first lines, which end where the second ones begin.
  induction lines generalizing addr with
  | nil =>
    obtain rfl := first
    exact second
  | cons line rest ih =>
    cases line with
    | insnLine line => exact ⟨first.1, ih first.2⟩
    | labelLine label => exact ⟨first.1, ih first.2⟩

/-- Each instruction line takes four bytes. -/
theorem Addressed.getElem (addressed : Addressed addr lines addr') {k : ℕ} {line : InsnLine}
    (at_k : (insnLines lines)[k]? = some line) : line.lineAddr = addr + 4 * k := by
  -- By induction on the lines: each instruction before it takes four bytes, a label none.
  induction lines generalizing addr k with
  | nil => simp at at_k
  | cons first rest ih =>
    cases first with
    | labelLine label => exact ih addressed.2 at_k
    | insnLine first =>
      cases k with
      | zero =>
        obtain rfl := Option.some.inj at_k
        simpa using addressed.1
      | succ k =>
        have behind := ih addressed.2 at_k
        push_cast
        omega

/-- A label lies behind the instruction lines before it. -/
theorem Addressed.label {before after : List AsmLine} {label : LabelLine}
    (addressed : Addressed addr (before ++ .labelLine label :: after) addr') :
    label.lineAddr = addr + 4 * (insnLines before).length := by
  -- By induction on the lines before the label.
  induction before generalizing addr with
  | nil => simpa using addressed.1
  | cons first rest ih =>
    cases first with
    | labelLine other => exact ih addressed.2
    | insnLine line =>
      have behind := ih addressed.2
      rw [insnLines_insnLine, List.length_cons]
      push_cast
      omega

/-- Wherever a branch stands in padded lines, there are two no-operations behind it. -/
theorem Padded.branch {before after : List AsmLine} {line : InsnLine}
    (padded : Padded (before ++ .insnLine line :: after)) (branch : line.insn.type = .branch) :
    TwoNops after := by
  -- By induction on the lines before the branch.
  induction before with
  | nil => exact padded.1 branch
  | cons first rest ih =>
    cases first with
    | labelLine label => exact ih padded
    | insnLine other => exact ih padded.2

/-- The lines of one instruction take four bytes each. -/
theorem Emitted.addressed (emitted : Emitted addr lines) :
    Addressed addr lines (addr + 4 * lines.length) := by
  -- One line takes four bytes, and a branch with its no-operations twelve.
  cases emitted with
  | one typed noNop noBranch lineAddr => exact ⟨lineAddr, by simp [Addressed]⟩
  | branch typed noNop lineAddr =>
    refine ⟨lineAddr, rfl, rfl, ?_⟩
    simp only [Addressed, List.length_cons, List.length_nil]
    omega

/-- The lines of one instruction can stand in front of padded ones. -/
theorem Emitted.padded (emitted : Emitted addr lines) (padded : Padded lines')
    (noNop : NoNop lines') : Padded (lines ++ lines') ∧ NoNop (lines ++ lines') := by
  -- Only a no-operation begins with one.
  have first : ∀ {line : InsnLine} {rest : List AsmLine}, line.insn.type ≠ .nop →
      NoNop (.insnLine line :: rest) := by
    rintro line rest other _ ⟨⟩ nop
    simp only [AsmLine.isNop, decide_eq_true_eq] at nop
    exact other (by rw [nop])
  cases emitted with
  | one typed other noBranch lineAddr =>
    exact ⟨⟨fun branch => absurd branch noBranch, padded⟩, first other⟩
  | branch typed other lineAddr =>
    refine ⟨⟨fun _ => ⟨_, _, _, rfl, rfl, rfl, noNop⟩, ?_, ?_, padded⟩, first other⟩
    · intro branch
      cases branch
    · intro branch
      cases branch

/-- The lines of one instruction have the types of their instructions. -/
theorem Emitted.typed (emitted : Emitted addr lines) : Typed lines := by
  have nop : ∃ insnSet, (Insn.mk .nop .nop) = insnset2insn insnSet := ⟨.nop, rfl⟩
  cases emitted with
  | one typed => simpa [Typed] using typed
  | branch typed => simpa [Typed, nopLine, nop] using typed

/-- The lines of all items are addressed one behind the other. -/
theorem Items.addressed (items : Items lexems addr lines addr') : Addressed addr lines addr' := by
  -- By induction on the items, each of which goes on at the next address.
  induction items with
  | nil => rfl
  | label _ _ ih => exact ⟨rfl, ih⟩
  | insn mem matched _ ih => exact (emitted_of_mem mem matched _).addressed.append ih
  | eol _ _ ih => exact ih

/-- In front of padded lines, each branch of the items has its two no-operations. -/
theorem Items.padded (items : Items lexems addr lines addr') (padded : Padded lines')
    (noNop : NoNop lines') : Padded (lines ++ lines') ∧ NoNop (lines ++ lines') := by
  -- By induction on the items; none of them begins with a no-operation.
  induction items with
  | nil => exact ⟨padded, noNop⟩
  | label _ _ ih => exact ⟨ih.1, fun next first => by cases first; simp [AsmLine.isNop]⟩
  | insn mem matched _ ih =>
    rw [List.append_assoc]
    exact (emitted_of_mem mem matched _).padded ih.1 ih.2
  | eol _ _ ih => exact ih

/-- The lines of all items have the types of their instructions. -/
theorem Items.typed (items : Items lexems addr lines addr') : Typed lines := by
  -- By induction on the items, of which only instructions add such lines.
  induction items with
  | nil => simp [Typed]
  | label _ _ ih => exact ih
  | insn mem matched _ ih =>
    intro line mem'
    rw [insnLines_append, List.mem_append] at mem'
    rcases mem' with first | behind
    · exact (emitted_of_mem mem matched _).typed line first
    · exact ih line behind
  | eol _ _ ih => exact ih

/-- A whole program is typed, the jump that closes it included. -/
theorem Items.typed_program (items : Items lexems addr lines addr') :
    Typed (progStart addr'' ++ lines ++ progLoop addr') := by
  -- The first line is a label, and the last one a jump.
  intro line mem
  simp only [insnLines_append, List.mem_append] at mem
  rcases mem with (start | mem) | loop
  · cases start
  · exact items.typed line mem
  · obtain rfl := List.mem_singleton.mp loop
    exact ⟨_, rfl⟩

end Runs

/-- The layout of a program whose lines start at address 0. -/
structure Layout (insnList : List AsmLine) : Prop where
  /-- The first line is the label `PROG_START`, at address 0. -/
  start : ∃ label rest, insnList = .labelLine label :: rest ∧
    label.name.text = "PROG_START".toList ∧ label.lineAddr = 0
  /-- Instruction line number `k` lies at address `4 * k`. -/
  insnAddr : ∀ (k : ℕ) (line : InsnLine), (insnLines insnList)[k]? = some line →
    line.lineAddr = 4 * k
  /-- A label lies at four times the number of instruction lines before it. -/
  labelAddr : ∀ before (label : LabelLine) after,
    insnList = before ++ .labelLine label :: after → label.lineAddr = 4 * (insnLines before).length
  /-- Right behind a branch stand two no-operations, and not a third. -/
  branchNops : ∀ before line after, insnList = before ++ .insnLine line :: after →
    line.insn.type = .branch → TwoNops after
  /-- The last line jumps to `PROG_START`, with the link in `r6`. -/
  loop : ∃ front line, insnList = front ++ [.insnLine line] ∧ line.insn = insnset2insn .jal ∧
    line.rd = r6 ∧ line.label.text = "PROG_START".toList
  /-- Line number `k` of the file is the word of the instruction line at address `4 * k`. -/
  output : ∀ text, asmLineText insnList = some text → ∃ words, text = fileText words ∧
    words.length = (insnLines insnList).length ∧ ∀ (k : ℕ) word, words[k]? = some word →
      '\n' ∉ word ∧ ∃ line : InsnLine, (insnLines insnList)[k]? = some line ∧
        line.lineAddr = 4 * k ∧ line.write = some (word ++ ['\n'])

/-- The word of an instruction line stands in the file at the number of that line. -/
theorem Words.getElem {insnList : List AsmLine} {words : List CStr} (each : Words insnList words)
    {k : ℕ} {word : CStr} (at_k : words[k]? = some word) :
    '\n' ∉ word ∧ ∃ line, (insnLines insnList)[k]? = some line ∧
      line.write = some (word ++ ['\n']) := by
  -- The word and its line stand at the same place, and digits are no newlines.
  obtain ⟨inside, rfl⟩ := List.getElem?_eq_some_iff.mp at_k
  have inside' : k < (insnLines insnList).length := by rw [each.length_eq]; exact inside
  obtain ⟨written, -, binary⟩ := each.get inside' inside
  refine ⟨fun newline => ?_, _, List.getElem?_eq_getElem inside', written⟩
  rcases binary _ newline with digit | digit <;> cases digit

/-- Every program that `parse_code` accepts is laid out from address 0 in steps of four bytes. -/
theorem parseCode_layout (depth : CStr) (verbose : Bool) (s : ParseState)
    (noLines : s.instructions = []) (atZero : s.lineAddr = 0)
    (accepted : (parseCode depth verbose s).1 = some ()) :
    Layout (parseCode depth verbose s).2.instructions := by
  obtain ⟨lines, addr, items, left⟩ := parseCode_lines depth verbose s accepted
  rw [noLines, List.nil_append, atZero] at left
  rw [atZero] at items
  -- The list is the label, the items and the jump, each behind the other.
  have first : Addressed 0 (progStart 0) 0 := ⟨rfl, rfl⟩
  have last : Addressed addr (progLoop addr) (addr + 4) := ⟨rfl, rfl⟩
  have addressed : Addressed 0 (progStart 0 ++ lines ++ progLoop addr) (addr + 4) :=
    (first.append items.addressed).append last
  have noBranch : Padded (progLoop addr) := ⟨fun branch => (by cases branch), trivial⟩
  have noNop : NoNop (progLoop addr) := by
    rintro next ⟨⟩ nop
    cases nop
  have padded : Padded (progStart 0 ++ (lines ++ progLoop addr)) :=
    (items.padded noBranch noNop).1
  have typed : Typed (progStart 0 ++ lines ++ progLoop addr) := items.typed_program
  rw [← List.append_assoc] at padded
  rw [left]
  exact {
    start := ⟨_, _, rfl, by decide, rfl⟩
    insnAddr := fun k line at_k => by simpa using addressed.getElem at_k
    labelAddr := fun before label after split => by
      rw [split] at addressed
      simpa using addressed.label
    branchNops := fun before line after split branch => by
      rw [split] at padded
      exact padded.branch branch
    loop := ⟨_, _, rfl, rfl, rfl, by simp⟩
    output := fun text written => by
      obtain ⟨words, each, same⟩ := asmLineText_eq_some typed written
      refine ⟨words, same, each.length_eq.symm, fun k word at_k => ?_⟩
      obtain ⟨noNewline, line, found, word⟩ := each.getElem at_k
      exact ⟨noNewline, line, found, by simpa using addressed.getElem found, word⟩ }

/-- A label, a branch to it and a pseudo-instruction are laid out. -/
theorem parseCode_layout_branch : Layout (parseCode [] false (parseStart
    [lexemOf "label" "loop:", lexemOf "newline" "\n", lexemOf "insn::BEQ" "beq",
      lexemOf "blank" " ", lexemOf "symbole::register" "r1", lexemOf "comma" ",",
      lexemOf "symbole::register" "r2", lexemOf "comma" ",", lexemOf "symbole::label" "loop",
      lexemOf "newline" "\n", lexemOf "unsinsn::LI" "li", lexemOf "blank" " ",
      lexemOf "symbole::register" "r1", lexemOf "comma" ",",
      lexemOf "integer::dec" "5"])).2.instructions :=
  parseCode_layout _ _ _ rfl rfl (by decide +kernel)

end MiniRiscV
