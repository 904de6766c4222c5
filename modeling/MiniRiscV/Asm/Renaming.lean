import Mathlib.Logic.Equiv.Basic
import MiniRiscV.Asm.Mapped

/-! Labels under other names: the file does not depend on how they are called. -/

namespace MiniRiscV

/-- Other names for labels, different ones for different labels, without that of the program. -/
structure Renaming where
  name : CStr → CStr
  injective : Function.Injective name
  empty : name [] = []
  start : name "PROG_START".toList = "PROG_START".toList

/-- Two names exchanged, neither of which is empty or that of the program. -/
def Renaming.exchange (name name' : CStr) (some_char : name ≠ [] ∧ name' ≠ [])
    (other : name ≠ "PROG_START".toList ∧ name' ≠ "PROG_START".toList) : Renaming where
  name := Equiv.swap name name'
  injective := (Equiv.swap name name').injective
  empty := Equiv.swap_apply_of_ne_of_ne some_char.1.symm some_char.2.symm
  start := Equiv.swap_apply_of_ne_of_ne other.1.symm other.2.symm

/-- The lexeme with another name, when it defines a label or refers to one. -/
def Lexem.renamed (ρ : Renaming) (lex : Lexem) : Lexem :=
  { lex with
    value :=
      if lexemType lex "label" then
        if lex.value = [] then [] else ρ.name lex.value.dropLast ++ [':']
      else if lexemType lex "symbole::label" then ρ.name lex.value
      else lex.value }

/-- A text under its other name, if it is one. -/
def StringT.renamed (ρ : Renaming) (str : StringT) : StringT :=
  if str.length < 0 then str else stringConvert (ρ.name str.text)

/-- The line that refers to a label by its other name. -/
def InsnLine.renamed (ρ : Renaming) (line : InsnLine) : InsnLine :=
  { line with label := line.label.renamed ρ }

/-- The line of a label under its other name, in front of its colon. -/
def LabelLine.renamed (ρ : Renaming) (label : LabelLine) : LabelLine :=
  { label with
    name :=
      if label.name.length < 0 then label.name
      else (stringConvert (ρ.name label.name.text ++ [':'])).dropLast }

/-- A line of either kind with the other names. -/
def AsmLine.renamed (ρ : Renaming) : AsmLine → AsmLine
  | .insnLine line => .insnLine (line.renamed ρ)
  | .labelLine label => .labelLine (label.renamed ρ)

section Names

variable {ρ : Renaming} {label : LabelLine} {line : InsnLine} {all lines : List AsmLine}

/-- A converted name is renamed as the name is. -/
@[simp] theorem renamed_stringConvert (text : CStr) :
    (stringConvert text).renamed ρ = stringConvert (ρ.name text) := by
  -- The length of a converted text is that of the text, and natural.
  have nonneg : ¬ (stringConvert text).length < 0 := by simp [stringConvert]
  rw [StringT.renamed, if_neg nonneg, StringT.text_stringConvert]

/-- The empty name is kept. -/
@[simp] theorem renamed_stringEmpty : stringEmpty.renamed ρ = stringEmpty := by
  -- The empty string is a converted text as well.
  have empty : stringEmpty = stringConvert [] := rfl
  rw [empty, renamed_stringConvert, ρ.empty]

/-- Under other names, the same names are equal. -/
theorem same_renamed (label : LabelLine) (name : StringT) :
    (label.renamed ρ).name.Same (name.renamed ρ) ↔ label.name.Same name := by
  have apart {str1 str2 : StringT} (lengths : str1.length ≠ str2.length) : ¬ str1.Same str2 :=
    fun same => lengths same.1
  have nonneg' : 0 ≤ (stringConvert (ρ.name name.text)).length := by simp [stringConvert]
  -- A negative length is that of no name, and equal to none of those of names.
  by_cases negative : label.name.length < 0
  · have same : (label.renamed ρ).name = label.name := if_pos negative
    by_cases negative' : name.length < 0
    · rw [same, StringT.renamed, if_pos negative']
    · -- The other name has a natural length under any name.
      rw [same, StringT.renamed, if_neg negative', iff_false_intro (apart (by omega)),
        iff_false_intro (apart (by omega))]
  · -- Both names are texts, of which the renaming keeps different ones different.
    have renamed : (label.renamed ρ).name =
        (stringConvert (ρ.name label.name.text ++ [':'])).dropLast := if_neg negative
    have nonneg : 0 ≤ (stringConvert (ρ.name label.name.text ++ [':'])).dropLast.length := by
      simp [stringConvert, StringT.dropLast]
    by_cases negative' : name.length < 0
    · rw [renamed, StringT.renamed, if_pos negative', iff_false_intro (apart (by omega)),
        iff_false_intro (apart (by omega))]
    · rw [renamed, StringT.renamed, if_neg negative', StringT.same_iff nonneg nonneg',
        StringT.same_iff (by omega) (by omega), StringT.text_dropLast_stringConvert,
        StringT.text_stringConvert, List.dropLast_concat, ρ.injective.eq_iff]

/-- The same labels are defined under other names. -/
theorem definitions_renamed (name : StringT) :
    definitions (lines.map (AsmLine.renamed ρ)) (name.renamed ρ) =
      (definitions lines name).map (LabelLine.renamed ρ) := by
  -- By induction on the lines.
  induction lines with
  | nil => rfl
  | cons line rest ih =>
    simp only [definitions, List.map_cons] at ih ⊢
    cases line with
    | insnLine line => simpa [AsmLine.renamed] using ih
    | labelLine label =>
      -- The line defines the name exactly when it did before.
      have same := same_renamed (ρ := ρ) label name
      by_cases named : label.name.Same name
      · simp [AsmLine.renamed, same, named, ih]
      · simp [AsmLine.renamed, same, named, ih]

/-- Renaming does not change the type of a line. -/
@[simp] theorem isControl_renamed : (line.renamed ρ).isControl = line.isControl := rfl

/-- What is written for a line does not depend on the name of its label. -/
@[simp] theorem write_renamed : (line.renamed ρ).write = line.write := rfl

/-- A line is resolved to the same offset. -/
theorem resolve_renamed :
    (line.renamed ρ).resolve (all.map (AsmLine.renamed ρ)) = (line.resolve all).renamed ρ := by
  -- The last definition is the same one, at the same address.
  have label : (line.renamed ρ).label = line.label.renamed ρ := rfl
  rw [InsnLine.resolve, label, definitions_renamed, List.getLast?_map, InsnLine.resolve]
  cases (definitions all line.label).getLast? <;> rfl

/-- The instruction lines of renamed lines are the renamed instruction lines. -/
theorem insnLines_renamed :
    insnLines (lines.map (AsmLine.renamed ρ)) = (insnLines lines).map (InsnLine.renamed ρ) := by
  -- By induction on the lines.
  induction lines with
  | nil => rfl
  | cons line rest ih => cases line <;> simp [AsmLine.renamed, ih]

/-- Resolving and renaming can be done in either order. -/
theorem map_resolve_renamed :
    (lines.map (AsmLine.renamed ρ)).map (AsmLine.resolve (all.map (AsmLine.renamed ρ))) =
      (lines.map (AsmLine.resolve all)).map (AsmLine.renamed ρ) := by
  -- Line by line: only branches and jumps are resolved.
  rw [List.map_map, List.map_map]
  refine List.map_congr_left fun line _ => ?_
  cases line with
  | labelLine label => rfl
  | insnLine line =>
    simp only [Function.comp_apply, AsmLine.renamed, AsmLine.resolve, isControl_renamed,
      resolve_renamed]
    split <;> rfl

/-- The labels that are used have definitions. -/
theorem resolvable_iff : Resolvable lines ↔
    ∀ line ∈ insnLines lines, line.isControl → definitions lines line.label ≠ [] := by
  -- A label has a definition exactly when a line of one bears its name.
  simp only [Resolvable, mem_insnLines, Ne, definitions_eq_nil_iff, not_not]

/-- The labels that are used are defined, or they are not, under any names. -/
theorem resolvable_renamed : Resolvable (lines.map (AsmLine.renamed ρ)) ↔ Resolvable lines := by
  -- The lines that use labels are the same, and so is what is defined.
  have label (line : InsnLine) : (line.renamed ρ).label = line.label.renamed ρ := rfl
  simp only [resolvable_iff, insnLines_renamed, List.forall_mem_map, isControl_renamed, label,
    definitions_renamed, Ne, List.map_eq_nil_iff]

/-- The file does not depend on the names. -/
theorem asmLineText_renamed :
    asmLineText (lines.map (AsmLine.renamed ρ)) = asmLineText lines := by
  -- By induction on the lines.
  induction lines with
  | nil => rfl
  | cons line rest ih =>
    have same : (line.renamed ρ).write = line.write := by cases line <;> rfl
    rw [List.map_cons, asmLineText, same, ih, asmLineText]

end Names

section Programs

variable {ρ : Renaming} {lex : Lexem} {lexems : List Lexem}

/-- The name in front of a colon is changed. -/
theorem renamed_dropLast {text : CStr} (some_char : text ≠ []) {addr : ℤ} :
    LabelLine.renamed ρ ⟨(stringConvert text).dropLast, addr⟩ =
      ⟨(stringConvert (ρ.name text.dropLast ++ [':'])).dropLast, addr⟩ := by
  -- Without its colon the text still has a natural length.
  have positive := List.length_pos_iff.mpr some_char
  have nonneg : ¬ (stringConvert text).dropLast.length < 0 := by
    simp only [stringConvert, StringT.dropLast]
    omega
  rw [LabelLine.renamed, if_neg nonneg, StringT.text_dropLast_stringConvert]

/-- Neither definitions nor references are of the other types of operands. -/
theorem value_renamed_of_other {type : String} (mem : type ∈ ["symbole::register", "integer::dec"])
    (isType : lexemType lex type) : (lex.renamed ρ).value = lex.value := by
  -- A check of the type names: none of the four begins like another one.
  have others : ∀ type ∈ ["symbole::register", "integer::dec"],
      apart type "label" ∧ apart type "symbole::label" := by
    decide +kernel
  obtain ⟨noLabel, noReference⟩ := others type mem
  simp [Lexem.renamed, lexemType_of_apart noLabel isType, lexemType_of_apart noReference isType]

/-- The name of a register is no label, and is kept. -/
@[simp] theorem value_renamed_of_register (isRegister : lexemType lex "symbole::register") :
    (lex.renamed ρ).value = lex.value := value_renamed_of_other (by simp) isRegister

/-- The digits of an integer are kept. -/
@[simp] theorem value_renamed_of_integer (isInteger : lexemType lex "integer::dec") :
    (lex.renamed ρ).value = lex.value := value_renamed_of_other (by simp) isInteger

/-- A reference gets the other name. -/
@[simp] theorem value_renamed_of_reference (isReference : lexemType lex "symbole::label") :
    (lex.renamed ρ).value = ρ.name lex.value := by
  -- A reference is no definition, so the second case of the renaming applies.
  have noLabel := lexemType_of_apart (show apart "symbole::label" "label" by decide) isReference
  simp [Lexem.renamed, noLabel, isReference]

/-- Only the values of lexemes are renamed. -/
@[simp] theorem type_renamed (lex : Lexem) : (lex.renamed ρ).type = lex.type := rfl

/-- The lines of a program have the other names when its lexemes have. -/
theorem follows_renamed (ρ : Renaming) : Follows (Lexem.renamed ρ) (AsmLine.renamed ρ) where
  types _ := rfl
  label lex addr isLabel := by
    by_cases empty : lex.value = []
    · simp [Lexem.renamed, isLabel, empty, asmLineLabelAdd, AsmLine.renamed, LabelLine.renamed,
        stringConvert, StringT.dropLast]
    · -- The name ends in front of the colon, which is added again.
      have value : (lex.renamed ρ).value = ρ.name lex.value.dropLast ++ [':'] := by
        simp [Lexem.renamed, isLabel, empty]
      rw [value, asmLineLabelAdd, asmLineLabelAdd]
      simp [AsmLine.renamed, renamed_dropLast empty]
  emit prod mem taken addr fit := by
    simp only [productions, List.mem_cons, List.not_mem_nil, or_false] at mem
    rcases mem with rfl | rfl | rfl | rfl | rfl | rfl | rfl | rfl | rfl | rfl | rfl
    all_goals
      -- One lexeme for each terminal, and none behind the last.
      repeat
        obtain ⟨_, _, isType, later, rfl⟩ := List.forall₂_cons_left_iff.mp fit
        clear fit
        rename' later => fit
      obtain rfl := List.forall₂_nil_left_iff.mp fit
      simp only [List.any_cons, List.any_nil, Bool.or_false] at *
      -- Of the values, only that of a reference is another one.
      simp [*, insnRegreg, insnImm, insnBranch, insnLoad, insnStore, insnJal, insnJalr, insnUpper,
        unsninsnJ, unsninsnLi, unsninsnMv, AsmLine.renamed, InsnLine.renamed, asmLineRegregAdd,
        asmLineImmAdd, asmLineBranchAdd, asmLineNopAdd, asmLineLoadAdd, asmLineStoreAdd,
        asmLineJalAdd, asmLineJalrAdd, asmLineUpperAdd, asmLineNew]

/-- The lines that are added to a program keep their name. -/
theorem map_renamed_progStart : (progStart 0).map (AsmLine.renamed ρ) = progStart 0 := by
  -- The label is written with its colon.
  have text : "PROG_START:".toList.dropLast = "PROG_START".toList := by decide
  rw [progStart, asmLineLabelAdd, List.nil_append, List.map_singleton, AsmLine.renamed,
    renamed_dropLast (by decide), text, ρ.start]
  rfl

/-- The closing jump aims at `PROG_START`, which is kept. -/
theorem map_renamed_progLoop (addr : ℤ) :
    (progLoop addr).map (AsmLine.renamed ρ) = progLoop addr := by
  -- The label of the jump is a text that the renaming keeps.
  have same : (stringConvert "PROG_START".toList).renamed ρ =
      stringConvert "PROG_START".toList := by
    rw [renamed_stringConvert, ρ.start]
  simp only [progLoop, asmLineJalAdd, List.nil_append, List.map_singleton, AsmLine.renamed,
    InsnLine.renamed, same]

/--
What becomes of a program does not depend on the names of its labels.

With other names for them it is accepted or refused as before, and its file is the same.
-/
theorem assemble_renamed (ρ : Renaming) (fs : FileSystem) (verbose : Bool) (lexems : List Lexem)
    (binfile : CStr) :
    assemble fs verbose (lexems.map (Lexem.renamed ρ)) binfile =
      assemble fs verbose lexems binfile := by
  have accepts := @Follows.accepted_iff _ _ lexems (follows_renamed ρ)
  have lines := @Follows.parsedLines_eq _ _ lexems (follows_renamed ρ) map_renamed_progStart
    map_renamed_progLoop
  -- Either both programs are written, or both are refused.
  by_cases accepted : Accepted lexems ∧ (verbose → Resolvable (parsedLines lexems))
  · obtain ⟨accepted, linked⟩ := accepted
    have linked' : verbose → Resolvable (parsedLines (lexems.map (Lexem.renamed ρ))) := by
      rw [lines accepted, resolvable_renamed]
      exact linked
    -- The lines that are written have the other names, which are not written.
    have text : asmLineText (writtenLines verbose (lexems.map (Lexem.renamed ρ))) =
        asmLineText (writtenLines verbose lexems) := by
      cases verbose with
      | false => exact (congrArg asmLineText (lines accepted)).trans asmLineText_renamed
      | true =>
        rw [writtenLines, if_pos rfl, asmLineUpdateAdress_lines (linked' rfl), lines accepted,
          map_resolve_renamed, asmLineText_renamed, writtenLines, if_pos rfl,
          asmLineUpdateAdress_lines (linked rfl)]
    rw [assemble_of_accepted (accepts.mpr accepted) linked', text,
      assemble_of_accepted accepted linked]
  · -- What is refused is refused under the other names, or it would not be under the first.
    have refused : ¬ (Accepted (lexems.map (Lexem.renamed ρ)) ∧
        (verbose → Resolvable (parsedLines (lexems.map (Lexem.renamed ρ))))) := by
      rintro ⟨isAccepted, linked⟩
      rw [accepts] at isAccepted
      rw [lines isAccepted, resolvable_renamed] at linked
      exact accepted ⟨isAccepted, linked⟩
    rw [assemble_of_refused refused, assemble_of_refused accepted]

/-- With its two labels exchanged, a program is assembled as the same words. -/
example : ((lexemRead "a:\nj b\nb:\nj a\n".toList database).map fun read =>
    asmLineText (writtenLines true (read.2.map
      (Lexem.renamed (.exchange "a".toList "b".toList (by decide) (by decide)))))) =
    (lexemRead "b:\nj a\na:\nj b\n".toList database).map fun read =>
      asmLineText (writtenLines true read.2) := by
  decide +kernel

end Programs

end MiniRiscV
