import MiniRiscV.Asm.Main
import MiniRiscV.Rtl.ControlLogic

/-! The words of an assembled program, as the instruction memory is loaded with them. -/

namespace MiniRiscV

/-- The assembler accepts the lexemes, resolves their labels, and writes these words. -/
structure Assembled (lexems : List Lexem) (words : List Word) : Prop where
  accepted : Accepted lexems
  resolved : (asmLineUpdateAdress (parsedLines lexems)).1 = 0
  written : asmLineText (writtenLines true lexems) = some (fileText (words.map BitVec.binaryText))

/-- A file determines the words on its lines. -/
theorem fileText_inj {words words' : List CStr} (digits : ∀ word ∈ words, Binary 32 word)
    (digits' : ∀ word ∈ words', Binary 32 word) (same : fileText words = fileText words') :
    words = words' := by
  -- By induction on the words of both files, a line at a time.
  induction words generalizing words' with
  | nil =>
    cases words' with
    | nil => rfl
    | cons word' words' => simp [fileText] at same
  | cons word words ih =>
    cases words' with
    | nil => simp [fileText] at same
    | cons word' words' =>
      rw [List.forall_mem_cons] at digits digits'
      -- The first lines have the same length, so the two files are cut at the same place.
      have lengths : (word ++ ['\n']).length = (word' ++ ['\n']).length := by
        simp [digits.1.1, digits'.1.1]
      have cut : (word ++ ['\n']) ++ fileText words = (word' ++ ['\n']) ++ fileText words' := by
        simpa [fileText] using same
      obtain ⟨first, behind⟩ := List.append_inj cut lengths
      rw [List.append_cancel_right first, ih digits.2 digits'.2 behind]

/-- The opcode that is printed for a type of instruction. -/
def InsnType.opcodeText : InsnType → String
  | .regreg => regregOpcode
  | .regimm => regimmOpcode
  | .load => loadOpcode
  | .store => storeOpcode
  | .branch => branchOpcode
  | .jal => jalOpcode
  | .jalr => jalrOpcode
  | .lui => luiOpcode
  | .auipc => auipcOpcode
  | .nop | .undefined => "0000000"

/-- The last seven digits of a word are its opcode. -/
theorem binaryText_opcode {w : Word} {fields opcodeText : CStr} (seven : opcodeText.length = 7)
    (same : w.binaryText = fields ++ opcodeText) : (opcode w).binaryText = opcodeText := by
  -- The word is the twenty-five bits above its opcode, and the opcode.
  have split : w.binaryText = (w.extractLsb' 7 25).binaryText ++ (opcode w).binaryText := by
    rw [← BitVec.binaryText_append, opcode,
      BitVec.extractLsb'_append_extractLsb'_eq_extractLsb' (by decide)]
    simp
  rw [split] at same
  exact (List.append_inj' same (by rw [BitVec.length_binaryText, seven])).2

/-- What is printed behind the fields of a line ends the word. -/
theorem opcode_of_fields {fields : Option CStr} {opcodeText : String} {w : Word}
    (seven : opcodeText.toList.length = 7)
    (written : (do return (← fields) ++ opcodeText.toList ++ ['\n']) =
      some (w.binaryText ++ ['\n'])) : (opcode w).binaryText = opcodeText.toList := by
  -- The text of the line is the fields, the opcode and the end of line.
  cases fields with
  | none => cases written
  | some fields =>
    have same := List.append_cancel_right (Option.some.inj written)
    exact binaryText_opcode seven same.symm

/-- A word written for a line ends in the opcode of its type. -/
theorem InsnLine.opcode_of_write {line : InsnLine} {w : Word}
    (written : line.write = some (w.binaryText ++ ['\n'])) :
    (opcode w).binaryText = line.insn.type.opcodeText.toList := by
  rw [InsnLine.write] at written
  cases type : line.insn.type with
  | nop =>
    rw [type] at written
    have same := List.append_cancel_right (Option.some.inj written)
    -- A no-operation is printed as thirty-two zeros, the last seven of which are its opcode.
    have zeros : printBinary 0 32 = (0#25).binaryText ++ "0000000".toList := by decide
    exact binaryText_opcode (by decide) (same.symm.trans zeros)
  | undefined =>
    rw [type] at written
    simp at written
  | _ =>
    -- Every other type prints its opcode behind twenty-five digits of fields.
    rw [type] at written
    exact opcode_of_fields (by decide) written

/-- Only a branch line is written with the opcode of a branch. -/
theorem InsnLine.branch_of_opcode {line : InsnLine} {w : Word}
    (written : line.write = some (w.binaryText ++ ['\n']))
    (branch : opcode w = ControlLogic.instBranch) : line.insn.type = .branch := by
  have text := InsnLine.opcode_of_write written
  rw [branch] at text
  -- No other type prints the digits of this opcode.
  have digits : ∀ type : InsnType, type ≠ .branch →
      ControlLogic.instBranch.binaryText ≠ type.opcodeText.toList := by
    intro type
    cases type <;> decide
  by_contra other
  exact digits _ other text

/-- An inserted no-operation is written as the empty word. -/
theorem InsnLine.zero_of_nop {line : InsnLine} {w : Word}
    (nop : (AsmLine.insnLine line).isNop) (written : line.write = some (w.binaryText ++ ['\n'])) :
    w = 0 := by
  simp only [AsmLine.isNop, decide_eq_true_eq] at nop
  rw [InsnLine.write, nop] at written
  have same := List.append_cancel_right (Option.some.inj written)
  -- The thirty-two zeros are the digits of the empty word.
  have zeros : printBinary 0 32 = (0#32).binaryText := by decide
  exact BitVec.binaryText_inj.mp (same.symm.trans zeros)

section Words

variable {lexems : List Lexem} {words : List Word} {all lines after : List AsmLine}

/-- Resolving labels leaves the no-operations what they are. -/
@[simp] theorem isNop_resolve (line : AsmLine) : (line.resolve all).isNop = line.isNop := by
  -- Resolving changes the immediate at most, and a no-operation is known by its type.
  cases line with
  | insnLine line =>
    simp only [AsmLine.resolve, AsmLine.isNop]
    split <;> rfl
  | labelLine label => rfl

/-- Resolving labels leaves the no-operations where they are. -/
theorem twoNops_resolve (nops : TwoNops after) : TwoNops (after.map (AsmLine.resolve all)) := by
  -- Each of the three conditions is about the types of the lines only.
  obtain ⟨nop, nop', rest, rfl, first, second, noThird⟩ := nops
  refine ⟨nop.resolve all, nop'.resolve all, rest.map (AsmLine.resolve all), rfl, ?_, ?_, ?_⟩
  · rw [isNop_resolve]
    exact first
  · rw [isNop_resolve]
    exact second
  · intro next head
    rw [List.head?_map, Option.mem_def, Option.map_eq_some_iff] at head
    obtain ⟨line, head, rfl⟩ := head
    rw [isNop_resolve]
    exact noThird line head

/-- Resolving labels leaves two no-operations behind every branch. -/
theorem padded_resolve (padded : Padded lines) : Padded (lines.map (AsmLine.resolve all)) := by
  -- By induction on the lines, behind each of which the others are resolved as well.
  induction lines with
  | nil => trivial
  | cons line rest ih =>
    cases line with
    | labelLine label => exact ih padded
    | insnLine line =>
      refine ⟨fun branch => twoNops_resolve (padded.1 ?_), ih padded.2⟩
      -- The instruction of a line is not changed.
      rw [← insn_resolve line all]
      exact branch

/-- The lines before and behind an instruction line. -/
theorem insnLines_split {k : ℕ} {line : InsnLine} (at_k : (insnLines lines)[k]? = some line) :
    ∃ before after, lines = before ++ .insnLine line :: after ∧
      (insnLines before).length = k := by
  -- By induction on the lines, of which only those of instructions are counted.
  induction lines generalizing k with
  | nil => cases at_k
  | cons first rest ih =>
    cases first with
    | labelLine label =>
      obtain ⟨before, after, rfl, length⟩ := ih at_k
      exact ⟨.labelLine label :: before, after, rfl, length⟩
    | insnLine first =>
      cases k with
      | zero =>
        obtain rfl := Option.some.inj at_k
        exact ⟨[], rest, rfl, rfl⟩
      | succ k =>
        obtain ⟨before, after, rfl, length⟩ := ih at_k
        exact ⟨.insnLine first :: before, after, rfl, congrArg (· + 1) length⟩

/-- The lines of an assembled program have two no-operations behind every branch. -/
theorem Assembled.padded (assembled : Assembled lexems words) :
    Padded (writtenLines true lexems) := by
  -- The parser leaves the first label, the items and the closing jump.
  obtain ⟨lines, addr, items, left⟩ := parseCode_lines [] false (parseStart lexems)
    assembled.accepted
  -- Neither the label before the items nor the jump behind them is a branch.
  have noBranch : Padded (progLoop addr) := ⟨fun branch => (by cases branch), trivial⟩
  have noNop : NoNop (progLoop addr) := by
    rintro next ⟨⟩ nop
    cases nop
  have padded : Padded (parsedLines lexems) := by
    rw [parsedLines, left, show (parseStart lexems).instructions = [] from rfl, List.nil_append,
      List.append_assoc]
    exact (items.padded noBranch noNop).1
  have resolvable := (asmLineUpdateAdress_code _).mp assembled.resolved
  change Padded (asmLineUpdateAdress (parsedLines lexems)).2
  rw [asmLineUpdateAdress_lines resolvable]
  exact padded_resolve padded

/-- The words of an assembled program are those of its lines, one behind the other. -/
theorem Assembled.lines_words (assembled : Assembled lexems words) :
    Words (writtenLines true lexems) (words.map BitVec.binaryText) := by
  have resolvable := (asmLineUpdateAdress_code _).mp assembled.resolved
  have typed : Typed (writtenLines true lexems) := by
    change Typed (asmLineUpdateAdress (parsedLines lexems)).2
    rw [asmLineUpdateAdress_lines resolvable]
    exact typed_map_resolve _ (typed_parsedLines assembled.accepted)
  -- Every line has a text, and the file is these texts one behind the other.
  obtain ⟨texts, each, same⟩ := asmLineText_eq_some typed assembled.written
  have binary : ∀ text ∈ texts, Binary 32 text := by
    intro text mem
    obtain ⟨k, inside, rfl⟩ := List.getElem_of_mem mem
    exact (each.get (by rw [each.length_eq]; exact inside) inside).2
  have binary' : ∀ text ∈ words.map BitVec.binaryText, Binary 32 text := by
    simp only [List.forall_mem_map]
    exact fun word _ => binary_binaryText word
  rw [fileText_inj binary' binary same]
  exact each

/-- Behind each word of a branch stand two empty words. -/
theorem Assembled.nops_behind_branch (assembled : Assembled lexems words) {k : ℕ} {word : Word}
    (at_k : words[k]? = some word) (branch : opcode word = ControlLogic.instBranch) :
    words[k + 1]? = some 0 ∧ words[k + 2]? = some 0 := by
  have each := assembled.lines_words
  -- A line of the list and the word at its place.
  have word_of_line {m : ℕ} {line : InsnLine}
      (at_m : (insnLines (writtenLines true lexems))[m]? = some line) :
      ∃ word, words[m]? = some word ∧ line.write = some (word.binaryText ++ ['\n']) := by
    obtain ⟨inside, rfl⟩ := List.getElem?_eq_some_iff.mp at_m
    have inside' : m < (words.map BitVec.binaryText).length := by
      rw [← each.length_eq]
      exact inside
    have written := (each.get inside inside').1
    rw [List.length_map] at inside'
    exact ⟨words[m], List.getElem?_eq_getElem inside', by simpa using written⟩
  have text_k : (words.map BitVec.binaryText)[k]? = some word.binaryText := by
    rw [List.getElem?_map, at_k]
    rfl
  -- The word is that of a branch line, which stands behind as many others.
  obtain ⟨-, line, found, written⟩ := each.getElem text_k
  obtain ⟨before, after, split, rfl⟩ := insnLines_split found
  have padded := assembled.padded
  rw [split] at padded
  -- The branch has its two no-operations, whose lines are written as empty words.
  obtain ⟨nop, nop', rest, rfl, first, second, -⟩ :=
    padded.branch (InsnLine.branch_of_opcode written branch)
  cases nop with
  | labelLine label => cases first
  | insnLine nop =>
    cases nop' with
    | labelLine label => cases second
    | insnLine nop' =>
      obtain ⟨zero, at_one, written_one⟩ := @word_of_line ((insnLines before).length + 1) nop (by
        rw [split]
        simp)
      obtain ⟨zero', at_two, written_two⟩ := @word_of_line ((insnLines before).length + 2) nop' (by
        rw [split]
        simp)
      rw [at_one, at_two, InsnLine.zero_of_nop first written_one,
        InsnLine.zero_of_nop second written_two]
      exact ⟨rfl, rfl⟩

end Words

end MiniRiscV
