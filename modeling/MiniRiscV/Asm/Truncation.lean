import MiniRiscV.Asm.Verbose
import MiniRiscV.Asm.WellFormed

/-! Operands and offsets that do not fit their fields: they are cut, and nothing is reported. -/

namespace MiniRiscV

/-- The values that the field of an instruction can hold. -/
def FitsField (insn : Insn) (n : ℤ) : Prop :=
  match insn.type with
  | .regimm => if insn.insn.isShift then 0 ≤ n ∧ n ≤ 31 else -2048 ≤ n ∧ n ≤ 2047
  | .load | .store | .jalr => -2048 ≤ n ∧ n ≤ 2047
  | .branch => -4096 ≤ n ∧ n ≤ 4095
  | .jal => -1048576 ≤ n ∧ n ≤ 1048575
  | _ => True

/-- The types of instruction with a shift amount or with a field of twelve bits. -/
def narrowTypes : List InsnType := [.regimm, .load, .store, .jalr]

/-- What is left of a value in a shift amount of five bits, or in a signed field of twelve. -/
def cutTo (insn : Insn) (n : ℤ) : ℤ := if insn.insn.isShift then n % 32 else n.bmod 4096

/-- The immediate of a word that holds such an instruction. -/
def decodedImm (insn : Insn) (w : Word) : ℤ :=
  if insn.insn.isShift then (Rv32i.rs2 w).toNat
  else if insn.type = .store then (Rv32i.immS w).toInt
  else (Rv32i.immI w).toInt

/-- The word holds what is left of the value asked for: all of it exactly when it fits. -/
def Cut (insn : Insn) (n : ℤ) (w : Word) : Prop :=
  decodedImm insn w = cutTo insn n ∧ (decodedImm insn w = n ↔ FitsField insn n)

section Fields

variable {insnSet : Insnset} {line : InsnLine} {n : ℤ} {w : Word}

/-- The shifts by an immediate are register-immediate instructions. -/
theorem type_of_isShift (shift : insnSet.isShift) : (insnset2insn insnSet).type = .regimm := by
  revert shift
  cases insnSet <;> decide

/-- A value is cut to itself exactly when it fits. -/
theorem cutTo_eq_self_iff (narrow : (insnset2insn insnSet).type ∈ narrowTypes) :
    cutTo (insnset2insn insnSet) n = n ↔ FitsField (insnset2insn insnSet) n := by
  by_cases shift : insnSet.isShift
  · simp only [cutTo, FitsField, insn_insnset2insn, shift,
      type_of_isShift shift, if_true]
    omega
  · -- The other fields are signed, and of one width.
    have signed : n.bmod 4096 = n ↔ -2048 ≤ n ∧ n ≤ 2047 := by
      rw [Int.bmod_def]
      omega
    simp only [narrowTypes, List.mem_cons, List.not_mem_nil, or_false] at narrow
    rcases narrow with type | type | type | type <;>
      simp [cutTo, FitsField, shift, type,
        signed]

/-- The immediate of a word of the I format, cut out of an integer. -/
theorem decodedImm_iType {op : BitVec 7} {d s1 : BitVec 5} {f3 : BitVec 3}
    (noShift : ¬ insnSet.isShift) (noStore : (insnset2insn insnSet).type ≠ .store) :
    decodedImm (insnset2insn insnSet)
        (Rv32i.iType op d s1 f3 ((BitVec.ofInt 32 n).setWidth 12)) =
      cutTo (insnset2insn insnSet) n := by
  -- The immediate is read back from the word, and cut there.
  rw [decodedImm, cutTo, insn_insnset2insn, if_neg noShift,
    if_neg noStore, if_neg noShift, (Rv32i.fields_iType _ _ _ _ _).2.2.2.2, toInt_setWidth_ofInt]

/-- The registers that such a line does not print may as well be known. -/
theorem write_eq_registerLine (is : line.insn = insnset2insn insnSet)
    (narrow : line.insn.type ∈ narrowTypes) (known : ∀ reg ∈ line.printedRegs, reg.isSome) :
    ∃ rd rs1 rs2, line.write =
      (registerLine insnSet rd rs1 rs2 line.imm line.label line.lineAddr).write := by
  obtain ⟨insn, rd, rs1, rs2, imm, label, lineAddr⟩ := line
  obtain rfl : insn = insnset2insn insnSet := is
  simp only [narrowTypes, List.mem_cons, List.not_mem_nil, or_false] at narrow
  rcases narrow with type | type | type | type
  all_goals
    simp only [InsnLine.printedRegs, type, List.forall_mem_cons] at known
    obtain ⟨a, rfl⟩ := Option.isSome_iff_exists.mp known.1
    obtain ⟨b, rfl⟩ := Option.isSome_iff_exists.mp known.2.1
    simp only [InsnLine.write, registerLine, type]
  -- A store prints its two sources, and the others a source and the destination.
  · exact ⟨b, a, 0, rfl⟩
  · exact ⟨b, a, 0, rfl⟩
  · exact ⟨0, b, a, rfl⟩
  · exact ⟨b, a, 0, rfl⟩

/-- A word that is written for such an instruction holds what is left of the immediate. -/
theorem decodedImm_of_write (is : line.insn = insnset2insn insnSet)
    (narrow : line.insn.type ∈ narrowTypes)
    (written : line.write = some (w.binaryText ++ ['\n'])) :
    decodedImm line.insn w = cutTo line.insn line.imm := by
  have known := (line.wordLine_of_write is written).2
  obtain ⟨rd, rs1, rs2, alike⟩ := write_eq_registerLine is narrow known
  rw [is] at narrow ⊢
  -- The word is the one of its format, as the digits of two words differ.
  have same : ∀ w' : Word, (registerLine insnSet rd rs1 rs2 line.imm line.label
      line.lineAddr).write = some (w'.binaryText ++ ['\n']) → w = w' := by
    intro w' written'
    rw [alike, written', Option.some.injEq, List.append_cancel_right_eq,
      BitVec.binaryText_inj] at written
    exact written.symm
  by_cases shift : insnSet.isShift
  · rw [same _ (write_shift shift), decodedImm, cutTo,
      insn_insnset2insn, if_pos shift, if_pos shift,
      (Rv32i.fields_rType _ _ _ _ _ _).2.2.2.1, toNat_setWidth_ofInt]
  simp only [narrowTypes, List.mem_cons, List.not_mem_nil, or_false] at narrow
  rcases narrow with regimm | load | store | jalr
  · rw [same _ (write_regimm regimm shift)]
    exact decodedImm_iType shift (by rw [regimm]; decide)
  · rw [same _ (write_load load)]
    exact decodedImm_iType shift (by rw [load]; decide)
  · rw [same _ (write_store store), decodedImm, cutTo,
      insn_insnset2insn, if_neg shift, if_pos store,
      if_neg shift, (Rv32i.fields_sType _ _ _ _ _).2.2.2.2, toInt_setWidth_ofInt]
  · rw [same _ (write_jalr jalr)]
    exact decodedImm_iType shift (by rw [jalr]; decide)

/-- The bits of a field are among the 32 that an integer is cut to first. -/
theorem cutTo_toInt_ofInt (insn : Insn) (n : ℤ) :
    cutTo insn (BitVec.ofInt 32 n).toInt = cutTo insn n := by
  -- Both moduli divide the one of 32 bits.
  rw [cutTo, cutTo, BitVec.toInt_ofInt]
  split
  · rw [Int.bmod_def]
    omega
  · exact Int.bmod_bmod_of_dvd (by decide)

/-- A word is cut from any value that leaves the same as the immediate of its line. -/
theorem cut_of_write (is : line.insn = insnset2insn insnSet)
    (narrow : line.insn.type ∈ narrowTypes)
    (written : line.write = some (w.binaryText ++ ['\n']))
    (left : cutTo line.insn line.imm = cutTo line.insn n) : Cut line.insn n w := by
  -- The word decodes to what is left, which is the value when it fits.
  have decoded := decodedImm_of_write is narrow written
  rw [left] at decoded
  rw [is] at narrow decoded ⊢
  exact ⟨decoded, by rw [decoded, cutTo_eq_self_iff narrow]⟩

end Fields

/-- A lexeme that names an instruction or a pseudo-instruction. -/
def isMnemonic (lex : Lexem) : Bool := lexemType lex "insn::" || lexemType lex "unsinsn::"

/-- A lexeme that spells an integer. -/
def isInteger (lex : Lexem) : Bool := lexemType lex "integer::dec"

/-- The first integer in front of the next mnemonic. -/
def leadingInteger (lexems : List Lexem) : Option Lexem :=
  (lexems.takeWhile (!isMnemonic ·)).find? isInteger

/-- For each mnemonic of a source, the integer between it and the next one. -/
def askedIntegers : List Lexem → List (Option ℤ)
  | [] => []
  | lex :: rest =>
    if isMnemonic lex then
      (leadingInteger rest).map (fun integer => strtol integer.value) :: askedIntegers rest
    else askedIntegers rest

/-- The instruction lines that stand for a mnemonic, which no-operations do not. -/
def mnemonicLines (lines : List InsnLine) : List InsnLine := lines.filter (·.insn.type ≠ .nop)

/-- The first of some operands whose terminal is an integer. -/
def operandInteger : List (List String) → List Lexem → Option Lexem
  | types :: terms, lex :: operands =>
    if types = ["integer::dec"] then some lex else operandInteger terms operands
  | _, _ => none

section Sources

variable {lex : Lexem} {lexems taken rest before operands : List Lexem} {addr addr' : ℤ}
  {lines : List AsmLine} {prod : Production} {terms : List (List String)}

/-- A lexeme of a type that stands in no production's head is no mnemonic. -/
theorem isMnemonic_eq_false {type : String} (separate : apart type "insn::")
    (separate' : apart type "unsinsn::") (isType : lexemType lex type) :
    isMnemonic lex = false := by
  simp [isMnemonic, lexemType_of_apart separate isType, lexemType_of_apart separate' isType]

/-- The types of the lexemes that are no mnemonics are apart from those of the mnemonics. -/
theorem otherTypes_apart : ∀ type ∈ otherTypes, apart type "insn::" ∧ apart type "unsinsn::" ∧
    (type ≠ "integer::dec" → apart type "integer::dec") := by
  decide +kernel

/-- No operand is a mnemonic, and the first that is an integer is the one of the terminals. -/
theorem operands_spec (fit : Fit terms operands)
    (others : ∀ types ∈ terms, ∃ type ∈ otherTypes, types = [type]) :
    (∀ lex ∈ operands, isMnemonic lex = false) ∧
      operands.find? isInteger = operandInteger terms operands := by
  -- By induction on the operands, one for each terminal.
  induction fit with
  | nil => exact ⟨by simp, rfl⟩
  | @cons types lex terms operands isType fit ih =>
    rw [List.forall_mem_cons] at others
    obtain ⟨noMnemonic, found⟩ := ih others.2
    obtain ⟨type, mem, rfl⟩ := others.1
    obtain ⟨insn, unsinsn, integer⟩ := otherTypes_apart type mem
    have begins : lexemType lex type := by simpa using isType
    refine ⟨List.forall_mem_cons.mpr ⟨isMnemonic_eq_false insn unsinsn begins, noMnemonic⟩, ?_⟩
    rw [operandInteger, List.find?_cons]
    by_cases same : type = "integer::dec"
    · subst same
      simp [isInteger, begins]
    · simp [isInteger, lexemType_of_apart (integer same) begins, same, found]

/-- A production has a first terminal, which names instructions. -/
theorem heads_of_mem (mem : prod ∈ productions) :
    prod.terms ≠ [] ∧ ∀ types ∈ prod.terms.head?, ∀ type ∈ types,
      "insn::".toList.isPrefixOf type.toList ∨ "unsinsn::".toList.isPrefixOf type.toList := by
  -- A check of the productions.
  revert prod
  decide +kernel

/-- The first lexeme of an instruction is a mnemonic, and the others are its operands. -/
theorem mnemonic_of_fit (mem : prod ∈ productions) (fit : Fit prod.terms taken) :
    ∃ types terms lex operands, prod.terms = types :: terms ∧ taken = lex :: operands ∧
      isMnemonic lex ∧ (∀ lex ∈ operands, isMnemonic lex = false) ∧
      operands.find? isInteger = operandInteger terms operands := by
  obtain ⟨nonempty, heads⟩ := heads_of_mem mem
  have others := (operands_of_mem mem).1
  cases shape : prod.terms with
  | nil => exact absurd shape nonempty
  | cons types terms =>
    rw [shape] at fit heads others
    obtain ⟨lex, operands, isType, behind, rfl⟩ := List.forall₂_cons_left_iff.mp fit
    obtain ⟨noMnemonic, found⟩ := operands_spec behind others
    refine ⟨types, terms, lex, operands, rfl, rfl, ?_, noMnemonic, found⟩
    -- The type asked for begins like a mnemonic, and the lexeme like that type.
    obtain ⟨type, mem, begins⟩ := List.any_eq_true.mp isType
    rcases heads types rfl type mem with insn | unsinsn
    · simp [isMnemonic, lexemType_of_begins insn begins]
    · simp [isMnemonic, lexemType_of_begins unsinsn begins]

/-- The line of an instruction has the integer among its operands as its immediate. -/
theorem imm_of_fit {types : List String} (mem : prod ∈ productions)
    (shape : prod.terms = types :: terms) (fit : Fit prod.terms (lex :: operands)) :
    ∃ line nops, prod.emit (lex :: operands) addr = .insnLine line :: nops ∧
      ∀ integer ∈ operandInteger terms operands, line.imm = atoi integer.value := by
  simp only [productions, List.mem_cons, List.not_mem_nil, or_false] at mem
  rcases mem with rfl | rfl | rfl | rfl | rfl | rfl | rfl | rfl | rfl | rfl | rfl
  all_goals
    obtain ⟨-, rfl⟩ := List.cons.inj shape
    obtain ⟨_, behind⟩ := List.forall₂_cons.mp fit
    -- One lexeme for each terminal, and none behind the last.
    repeat
      obtain ⟨_, _, -, later, rfl⟩ := List.forall₂_cons_left_iff.mp behind
      clear behind
      rename' later => behind
    obtain rfl := List.forall₂_nil_left_iff.mp behind
    refine ⟨_, _, rfl, ?_⟩
    simp [operandInteger, withRegister, operand, displacement]

/-- An instruction has one line besides its no-operations. -/
theorem mnemonicLines_emitted {line : InsnLine} {nops : List AsmLine}
    (emitted : Emitted addr (.insnLine line :: nops)) :
    mnemonicLines (insnLines (.insnLine line :: nops)) = [line] := by
  -- A branch comes with two no-operations, and others come alone.
  cases emitted with
  | one _ noNop => simp [mnemonicLines, noNop]
  | branch _ noNop => simp [mnemonicLines, noNop, nopLine]

/-- Labels and the lexemes of an end of line are neither mnemonics nor integers. -/
theorem plain_of_type {type : String} (mem : type ∈ "label" :: endTypes)
    (isType : lexemType lex type) : isMnemonic lex = false ∧ isInteger lex = false := by
  -- These types are apart from those of mnemonics and integers.
  have separate : ∀ type ∈ "label" :: endTypes, apart type "insn::" ∧ apart type "unsinsn::" ∧
      apart type "integer::dec" := by
    decide +kernel
  obtain ⟨insn, unsinsn, integer⟩ := separate type mem
  exact ⟨isMnemonic_eq_false insn unsinsn isType, lexemType_of_apart integer isType⟩

/-- Lexemes that are no mnemonics ask for nothing. -/
theorem askedIntegers_append (noMnemonic : ∀ lex ∈ before, isMnemonic lex = false) :
    askedIntegers (before ++ rest) = askedIntegers rest := by
  -- By induction on the lexemes in front.
  induction before with
  | nil => rfl
  | cons lex before ih =>
    rw [List.forall_mem_cons] at noMnemonic
    simp [askedIntegers, noMnemonic.1, ih noMnemonic.2]

/-- An integer in front of the next mnemonic is among these lexemes, or else behind them. -/
theorem leadingInteger_append (noMnemonic : ∀ lex ∈ before, isMnemonic lex = false) :
    leadingInteger (before ++ rest) = (before.find? isInteger).or (leadingInteger rest) := by
  rw [leadingInteger, List.takeWhile_append_of_pos (by simpa using noMnemonic),
    List.find?_append, leadingInteger]

/-- The line has the integer asked for, if there is one, as its immediate. -/
def AsksFor (asked : Option ℤ) (line : InsnLine) : Prop :=
  ∀ n ∈ asked, line.imm = (BitVec.ofInt 32 n).toInt

/-- The lines of a program have the integers asked for, and none stands before a mnemonic. -/
theorem Items.asked (items : Items lexems addr lines addr') :
    leadingInteger lexems = none ∧
      List.Forall₂ AsksFor (askedIntegers lexems) (mnemonicLines (insnLines lines)) := by
  -- By induction on the items, of which only instructions have mnemonics.
  induction items with
  | nil => exact ⟨rfl, .nil⟩
  | @label lex rest addr addr' lines isLabel _ ih =>
    obtain ⟨noMnemonic, noInteger⟩ := plain_of_type List.mem_cons_self isLabel
    have plain : ∀ other ∈ [lex], isMnemonic other = false := by simpa using noMnemonic
    rw [← List.singleton_append, leadingInteger_append plain, askedIntegers_append plain, ih.1]
    exact ⟨by simp [noInteger], ih.2⟩
  | @insn prod lexems taken rest addr addr' lines mem matched _ ih =>
    obtain ⟨rfl, fit⟩ := matchTerms_eq_some.mp matched
    obtain ⟨types, terms, lex, operands, shape, rfl, mnemonic, noMnemonic, found⟩ :=
      mnemonic_of_fit mem fit
    obtain ⟨line, nops, emits, imm⟩ := @imm_of_fit lex operands addr prod terms types mem shape fit
    have emitted := emitted_of_mem mem matched addr
    rw [emits] at emitted ⊢
    refine ⟨by simp [leadingInteger, mnemonic], ?_⟩
    rw [insnLines_append, mnemonicLines, List.filter_append, ← mnemonicLines,
      mnemonicLines_emitted emitted, List.cons_append, askedIntegers, if_pos mnemonic,
      leadingInteger_append noMnemonic, askedIntegers_append noMnemonic, ih.1, found,
      Option.or_none, List.singleton_append]
    refine .cons ?_ ih.2
    -- The integer among the operands is the immediate.
    intro n asked
    obtain ⟨integer, is, rfl⟩ := Option.map_eq_some_iff.mp asked
    exact imm integer is
  | @eol lexems rest addr addr' lines ends _ ih =>
    obtain ⟨before, rfl, -, each⟩ := readEnd_split ends
    have plain : ∀ lex ∈ before, isMnemonic lex = false ∧ isInteger lex = false := by
      intro lex mem
      obtain ⟨type, mem', isType⟩ := each lex mem
      exact plain_of_type (List.mem_cons_of_mem _ mem') isType
    have noMnemonic := fun lex mem => (plain lex mem).1
    have noInteger : before.find? isInteger = none := by
      simpa using fun lex mem => (plain lex mem).2
    rw [leadingInteger_append noMnemonic, askedIntegers_append noMnemonic, ih.1, noInteger]
    exact ⟨rfl, ih.2⟩

end Sources

/-- The words of the lines that stand for a mnemonic, with these lines. -/
def mnemonicWords (lines : List InsnLine) (words : List Word) : List (InsnLine × Word) :=
  (lines.zip words).filter (·.1.insn.type ≠ .nop)

/-- The words hold what is left of the integers asked for, and of the offsets of `JALR`. -/
structure CutWords (asked : List (Option ℤ)) (lines : List InsnLine) (words : List Word) :
    Prop where
  integers : List.Forall₂ (fun asked entry => ∀ n ∈ asked,
    entry.1.insn.type ∈ [InsnType.regimm, .load, .store] → Cut entry.1.insn n entry.2)
    asked (mnemonicWords lines words)
  offsets : List.Forall₂ (fun line w => line.insn.type = .jalr → Cut line.insn line.imm w)
    lines words

section Files

variable {lexems : List Lexem} {insnList : List AsmLine} {verbose : Bool} {words : List CStr}

/-- What holds of kept elements, and of each element with another, holds of the pairs kept. -/
theorem forall₂_filter_zip {α β γ : Type} {R : α → β → Prop} {S : β → γ → Prop} {p : β → Bool}
    {as : List α} {bs : List β} {cs : List γ} (kept : List.Forall₂ R as (bs.filter p))
    (each : List.Forall₂ S bs cs) :
    List.Forall₂ (fun a entry => R a entry.1 ∧ S entry.1 entry.2) as
      ((bs.zip cs).filter fun entry => p entry.1) := by
  -- By induction on the pairs, each of which is kept with its first part.
  induction each generalizing as with
  | nil => simpa using kept
  | @cons b c bs cs one _ ih =>
    rw [List.zip_cons_cons, List.filter_cons]
    by_cases keep : p b
    · rw [List.filter_cons, if_pos keep] at kept
      obtain ⟨a, as, first, others, rfl⟩ := List.forall₂_cons_right_iff.mp kept
      rw [if_pos keep]
      exact .cons ⟨first, one⟩ (ih others)
    · rw [List.filter_cons, if_neg keep] at kept
      rw [if_neg keep]
      exact ih kept

/-- The word is written for the line, whose type is that of its instruction. -/
def WordOf (line : InsnLine) (w : Word) : Prop :=
  (∃ insnSet, line.insn = insnset2insn insnSet) ∧
    line.write = some (w.binaryText ++ ['\n'])

/-- Texts of thirty-two binary digits are those of words. -/
theorem Words.exists_word (typed : Typed insnList) (each : Words insnList words) :
    ∃ ws : List Word, words = ws.map BitVec.binaryText ∧
      List.Forall₂ WordOf (insnLines insnList) ws := by
  rw [Typed] at typed
  rw [Words] at each
  generalize insnLines insnList = lines at typed each ⊢
  -- By induction on the lines, each with its word.
  induction each with
  | nil => exact ⟨[], rfl, .nil⟩
  | cons one _ ih =>
    rw [List.forall_mem_cons] at typed
    obtain ⟨ws, rfl, others⟩ := ih typed.2
    obtain ⟨written, size, digits⟩ := one
    obtain ⟨w, rfl⟩ := BitVec.exists_binaryText size digits
    exact ⟨w :: ws, rfl, .cons ⟨typed.1, written⟩ others⟩

/-- The lines written are those parsed, up to the immediates of branches and jumps. -/
theorem insnLines_writtenLines (linked : verbose → Resolvable (parsedLines lexems)) :
    ∃ f : InsnLine → InsnLine, (∀ line, (f line).insn = line.insn) ∧
      (∀ line, ¬ line.isControl → f line = line) ∧
      insnLines (writtenLines verbose lexems) = (insnLines (parsedLines lexems)).map f := by
  -- Only under `-v` are the lines resolved.
  cases verbose with
  | false => exact ⟨id, fun _ => rfl, fun _ _ => rfl, (List.map_id _).symm⟩
  | true =>
    refine ⟨fun line => if line.isControl then line.resolve (parsedLines lexems) else line,
      fun line => insn_resolve line _, fun line noControl => if_neg noControl, ?_⟩
    rw [writtenLines, if_pos rfl, asmLineUpdateAdress_lines (linked rfl), insnLines_map_resolve]

/-- The lines parsed have the integers of the source, and the closing jump has none. -/
theorem asked_parsedLines (accepted : Accepted lexems) :
    List.Forall₂ AsksFor (askedIntegers lexems ++ [none])
      (mnemonicLines (insnLines (parsedLines lexems))) := by
  obtain ⟨lines, addr, items, left⟩ := parseCode_lines [] false (parseStart lexems) accepted
  change Items (skip "comment" lexems) 0 lines addr at items
  obtain ⟨comment, split, isComment⟩ := skip_split "comment" lexems
  -- A comment in front of the program is no mnemonic.
  have same : askedIntegers lexems = askedIntegers (skip "comment" lexems) := by
    conv_lhs => rw [split]
    exact askedIntegers_append fun lex mem =>
      (plain_of_type (show "comment" ∈ "label" :: endTypes by decide) (isComment lex mem)).1
  rw [parsedLines, left, show (parseStart lexems).instructions = [] from rfl, List.nil_append,
    insnLines_append, insnLines_append, mnemonicLines, List.filter_append, List.filter_append,
    show (insnLines (progStart _)).filter _ = [] from rfl, List.nil_append, same]
  refine List.rel_append items.asked.2 ?_
  exact .cons (fun n none => by cases none) .nil

/-- The lines written have these integers as well, but for branches and jumps. -/
theorem asked_writtenLines (accepted : Accepted lexems)
    (linked : verbose → Resolvable (parsedLines lexems)) :
    List.Forall₂ (fun asked line => ¬ line.isControl → AsksFor asked line)
      (askedIntegers lexems ++ [none])
      (mnemonicLines (insnLines (writtenLines verbose lexems))) := by
  obtain ⟨f, keeps, others, same⟩ := insnLines_writtenLines linked
  have kinds : (fun line : InsnLine => decide (line.insn.type ≠ .nop)) ∘ f =
      fun line => decide (line.insn.type ≠ .nop) := by
    funext line
    simp [keeps]
  rw [same, mnemonicLines, List.filter_map, kinds, ← mnemonicLines, List.forall₂_map_right_iff]
  refine (asked_parsedLines accepted).imp fun asked line asks noControl => ?_
  -- The kind of a line is that of its instruction, which is kept.
  have noControl' : ¬ line.isControl := by
    simpa [InsnLine.isControl, keeps] using noControl
  rw [others line noControl']
  exact asks

/-- The words of an accepted program hold what is left of its integers and offsets. -/
theorem exists_cutWords {text : CStr} (accepted : Accepted lexems)
    (linked : verbose → Resolvable (parsedLines lexems))
    (written : asmLineText (writtenLines verbose lexems) = some text) :
    ∃ ws : List Word, text = fileText (ws.map BitVec.binaryText) ∧
      CutWords (askedIntegers lexems ++ [none]) (insnLines (writtenLines verbose lexems)) ws := by
  -- The texts written are those of words, each of which is cut from its line.
  have typed : Typed (writtenLines verbose lexems) := by
    obtain ⟨f, keeps, -, same⟩ := insnLines_writtenLines linked
    intro line mem
    rw [same, List.mem_map] at mem
    obtain ⟨line, mem, rfl⟩ := mem
    rw [keeps]
    exact typed_parsedLines accepted line mem
  obtain ⟨words, texts, rfl⟩ := asmLineText_eq_some typed written
  obtain ⟨ws, rfl, each⟩ := texts.exists_word typed
  refine ⟨ws, rfl, ?_, ?_⟩
  · refine (forall₂_filter_zip (asked_writtenLines accepted linked) each).imp ?_
    rintro asked ⟨line, w⟩ ⟨asks, ⟨insnSet, is⟩, write⟩ n mem kind
    simp only [List.mem_cons, List.not_mem_nil, or_false] at kind
    have narrow : line.insn.type ∈ narrowTypes := by
      rcases kind with type | type | type <;> simp [narrowTypes, type]
    have noControl : ¬ line.isControl := by
      rcases kind with type | type | type <;> simp [InsnLine.isControl, type]
    refine cut_of_write is narrow write ?_
    rw [asks noControl n mem, cutTo_toInt_ofInt]
  · refine each.imp fun line w => ?_
    rintro ⟨⟨insnSet, is⟩, write⟩ jalr
    exact cut_of_write is (by simp [narrowTypes, jalr]) write rfl

end Files

section Runs

variable {fs : FileSystem} {sourceFile regexpsFile binfile : CStr} {verbose : Bool} {code : ℤ}
  {lexems : List Lexem}

/-- A run fails when the program does not parse, lacks a label, or cannot be written. -/
theorem main_failure_iff (tokens : tokenise fs sourceFile regexpsFile = some (code, lexems)) :
    main fs (arguments sourceFile regexpsFile binfile verbose) = some (.failure, fs) ↔
      ¬ (Accepted lexems ∧ (verbose → Resolvable (parsedLines lexems)) ∧
        fs.writable binfile) := by
  rw [main_arguments, tokens, Option.bind_some]
  by_cases refused : Accepted lexems ∧ (verbose → Resolvable (parsedLines lexems))
  · obtain ⟨accepted, linked⟩ := refused
    rw [assemble_of_accepted accepted linked]
    by_cases writable : fs.writable binfile
    · -- The run succeeds or crashes.
      cases text : asmLineText (writtenLines verbose lexems) <;>
        simpa [writable, accepted] using linked
    · simp [writable]
  · rw [assemble_of_refused refused]
    refine iff_of_true rfl fun conditions => refused ⟨conditions.1, conditions.2.1⟩

end Runs

/-- Some integer or offset of the program does not fit its field. -/
def Misfit (verbose : Bool) (lexems : List Lexem) : Prop :=
  let lines := insnLines (writtenLines verbose lexems)
  (∃ n line, (some n, line) ∈ (askedIntegers lexems).zip (mnemonicLines lines) ∧
      ¬ FitsField line.insn n) ∨
    ∃ line ∈ lines, line.isControl ∧ ¬ FitsField line.insn line.imm

/-- A program with an integer or an offset that does not fit its field is refused. -/
def NoSilentTruncation (fs : FileSystem) (sourceFile regexpsFile binfile : CStr)
    (verbose : Bool) : Prop :=
  ∀ code lexems, tokenise fs sourceFile regexpsFile = some (code, lexems) →
    Misfit verbose lexems →
      ∃ fs', main fs (arguments sourceFile regexpsFile binfile verbose) = some (.failure, fs')

/--
A program is assembled whatever the sizes of its integers and offsets, which are cut.

No size is looked at on the way to the file, and the printer takes the bits that the field has
room for.
-/
theorem main_cuts {fs : FileSystem} {sourceFile regexpsFile binfile : CStr} {verbose : Bool}
    {code : ℤ} {lexems : List Lexem}
    (tokens : tokenise fs sourceFile regexpsFile = some (code, lexems)) :
    (main fs (arguments sourceFile regexpsFile binfile verbose) = some (.failure, fs) ↔
      ¬ (Accepted lexems ∧ (verbose → Resolvable (parsedLines lexems)) ∧
        fs.writable binfile)) ∧
    ∀ fs', main fs (arguments sourceFile regexpsFile binfile verbose) = some (.success, fs') →
      ∃ ws : List Word, fs' = fs.write binfile (fileText (ws.map BitVec.binaryText)) ∧
        CutWords (askedIntegers lexems ++ [none]) (insnLines (writtenLines verbose lexems)) ws := by
  refine ⟨main_failure_iff tokens, fun fs' run => ?_⟩
  obtain ⟨accepted, linked, text, written, rfl⟩ := main_success run tokens
  obtain ⟨ws, rfl, cut⟩ := exists_cutWords accepted linked written
  exact ⟨ws, rfl, cut⟩

/-- What `addi r1,r0,5000` asks for, and how its run ends. -/
private theorem cutRun : ∃ code lexems fs',
    tokenise (filesOf "addi r1,r0,5000\n") "prog.s".toList "database.txt".toList =
      some (code, lexems) ∧
    main (filesOf "addi r1,r0,5000\n")
        (arguments "prog.s".toList "database.txt".toList "prog.bin".toList false) =
      some (.success, fs') ∧
    ((askedIntegers lexems).zip (mnemonicLines (insnLines (writtenLines false lexems)))).map
        (fun entry => (entry.1, entry.2.insn)) = [(some 5000, insnset2insn .addi)] := by
  have evaluated :
      (tokenise (filesOf "addi r1,r0,5000\n") "prog.s".toList "database.txt".toList).map
        (fun tokens =>
          (((askedIntegers tokens.2).zip
              (mnemonicLines (insnLines (writtenLines false tokens.2)))).map
                fun entry => (entry.1, entry.2.insn),
            (assemble (filesOf "addi r1,r0,5000\n") false tokens.2 "prog.bin".toList).map
              Prod.fst)) =
      some ([(some 5000, insnset2insn .addi)], some .success) := by
    decide +kernel
  obtain ⟨⟨code, lexems⟩, tokens, same⟩ := Option.map_eq_some_iff.mp evaluated
  obtain ⟨asks, exits⟩ := Prod.mk.inj same
  obtain ⟨⟨_, fs'⟩, run, rfl⟩ := Option.map_eq_some_iff.mp exits
  refine ⟨code, lexems, fs', tokens, ?_, asks⟩
  -- The source is read once, and the run goes on from its lexemes.
  rw [main_arguments, tokens, Option.bind_some]
  exact run

/-- `addi r1,r0,5000` is assembled, and its word holds what is left of 5000. -/
theorem main_cuts_addi : ∃ code lexems fs',
    tokenise (filesOf "addi r1,r0,5000\n") "prog.s".toList "database.txt".toList =
      some (code, lexems) ∧
    main (filesOf "addi r1,r0,5000\n")
        (arguments "prog.s".toList "database.txt".toList "prog.bin".toList false) =
      some (.success, fs') ∧
    ∃ ws : List Word, fs' = (filesOf "addi r1,r0,5000\n").write "prog.bin".toList
        (fileText (ws.map BitVec.binaryText)) ∧
      CutWords (askedIntegers lexems ++ [none]) (insnLines (writtenLines false lexems)) ws := by
  obtain ⟨code, lexems, fs', tokens, run, -⟩ := cutRun
  exact ⟨code, lexems, fs', tokens, run, (main_cuts tokens).2 fs' run⟩

/-- An immediate of 5000 does not fit in twelve bits, and the program is assembled. -/
theorem not_noSilentTruncation_addi :
    ¬ NoSilentTruncation (filesOf "addi r1,r0,5000\n") "prog.s".toList "database.txt".toList
      "prog.bin".toList false := by
  obtain ⟨code, lexems, fs', tokens, run, asks⟩ := cutRun
  intro refused
  have misfit : Misfit false lexems := by
    have mem := List.mem_singleton_self (some (5000 : ℤ), insnset2insn .addi)
    rw [← asks, List.mem_map] at mem
    obtain ⟨⟨asked, line⟩, mem, is⟩ := mem
    obtain ⟨rfl, insn⟩ := Prod.mk.inj is
    refine .inl ⟨5000, line, mem, ?_⟩
    rw [insn]
    exact fun fits => absurd (show (5000 : ℤ) ≤ 2047 from fits.2) (by decide)
  -- The run that succeeds is not one that fails.
  obtain ⟨fs'', failed⟩ := refused code lexems tokens misfit
  rw [run] at failed
  cases failed

end MiniRiscV
