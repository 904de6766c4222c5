import Mathlib.Data.List.Induction
import MiniRiscV.Asm.AsmLine

/-! The resolution of labels: what `asm_line_update_adress` accepts, and the list it leaves. -/

namespace MiniRiscV

/-- The label lines that define a name, in the order of the list. -/
def definitions (insnList : List AsmLine) (name : StringT) : List LabelLine :=
  insnList.filterMap fun line =>
    match line with
    | .labelLine label => if label.name.Same name then some label else none
    | .insnLine _ => none

/-- The line with the offset to the last definition of its label, when there is one. -/
def InsnLine.resolve (insnList : List AsmLine) (line : InsnLine) : InsnLine :=
  { line with
    imm :=
      match (definitions insnList line.label).getLast? with
      | some label => label.lineAddr - line.lineAddr
      | none => line.imm }

/-- A list with the offset of every branch and jump filled in, and nothing else changed. -/
def AsmLine.resolve (insnList : List AsmLine) : AsmLine → AsmLine
  | .insnLine line => .insnLine (if line.isControl then line.resolve insnList else line)
  | .labelLine label => .labelLine label

/-- Every branch and jump names a label that the list defines. -/
def Resolvable (insnList : List AsmLine) : Prop :=
  ∀ line, .insnLine line ∈ insnList → line.isControl →
    ∃ label, .labelLine label ∈ insnList ∧ label.name.Same line.label

/-- A name has definitions exactly when some label line bears it. -/
theorem definitions_eq_nil_iff (insnList : List AsmLine) (name : StringT) :
    definitions insnList name = [] ↔
      ¬ ∃ label, .labelLine label ∈ insnList ∧ label.name.Same name := by
  -- Only the lines of labels can define the name.
  simp only [definitions, List.filterMap_eq_nil_iff, not_exists, not_and]
  constructor
  · intro none label mem same
    simpa [same] using none _ mem
  · intro none line mem
    cases line with
    | insnLine line => rfl
    | labelLine label => simp [none label mem]

/-- Filling in offsets changes no definition. -/
@[simp] theorem definitions_map_resolve (insnList all : List AsmLine) (name : StringT) :
    definitions (insnList.map (AsmLine.resolve all)) name = definitions insnList name := by
  -- Resolving leaves the lines of labels alone, and they alone are read.
  rw [definitions, List.filterMap_map, definitions]
  congr
  funext line
  cases line <;> rfl

/-- The definitions of a name in two lists one after the other. -/
theorem definitions_append (left right : List AsmLine) (name : StringT) :
    definitions (left ++ right) name = definitions left name ++ definitions right name :=
  List.filterMap_append

/-- The inner loop keeps the last definition it meets. -/
theorem findLabel_eq (insnList : List AsmLine) (line : InsnLine) :
    findLabel insnList line =
      (line.resolve insnList, !(definitions insnList line.label).isEmpty) := by
  -- Induction from the back: the loop ends on the last line of the list.
  induction insnList using List.reverseRecOn with
  | nil => rfl
  | append_singleton front last ih =>
    rw [findLabel, List.foldl_append, ← findLabel, ih]
    cases last with
    | insnLine other =>
      have same : definitions (front ++ [.insnLine other]) line.label =
          definitions front line.label := by
        simp [definitions]
      simp [InsnLine.resolve, same]
    | labelLine label =>
      -- The name and the address that the loop compares with are never assigned.
      change (if stringCompare label.name line.label then _ else _) = _
      rw [ite_congr (propext (stringCompare_iff label.name line.label)) (fun _ => rfl)
        fun _ => rfl]
      by_cases named : label.name.Same line.label
      · have longer : definitions (front ++ [.labelLine label]) line.label =
            definitions front line.label ++ [label] := by
          simp [definitions, named]
        rw [if_pos named, longer, InsnLine.resolve, InsnLine.resolve, longer]
        simp
      · have same : definitions (front ++ [.labelLine label]) line.label =
            definitions front line.label := by
          simp [definitions, named]
        rw [if_neg named, same, InsnLine.resolve, InsnLine.resolve, same]

/-- The outer loop resolves the lines it has still to visit, or stops at an undefined label. -/
theorem updateFrom_eq (insnList visited rest : List AsmLine) (split : insnList = visited ++ rest) :
    ((updateFrom (visited.map (AsmLine.resolve insnList)) rest).1 = 0 ↔
        ∀ line, .insnLine line ∈ rest → line.isControl →
          definitions insnList line.label ≠ []) ∧
      ((updateFrom (visited.map (AsmLine.resolve insnList)) rest).1 = 0 →
        (updateFrom (visited.map (AsmLine.resolve insnList)) rest).2 =
          insnList.map (AsmLine.resolve insnList)) := by
  -- Each visited line moves to the resolved prefix; the list searched defines the same names.
  induction rest generalizing visited with
  | nil => simp [updateFrom, split]
  | cons line rest ih =>
    have next := ih (visited ++ [line]) (by simp [split])
    simp only [List.map_append, List.map_cons, List.map_nil] at next
    cases line with
    | labelLine label => simpa [updateFrom, AsmLine.resolve] using next
    | insnLine line =>
      by_cases control : line.isControl
      · -- The list searched is the original one with some offsets already filled in.
        have searched : definitions
            (visited.map (AsmLine.resolve insnList) ++ .insnLine line :: rest) line.label =
              definitions insnList line.label := by
          rw [split, definitions_append, definitions_append, definitions_map_resolve]
        have resolved : line.resolve
            (visited.map (AsmLine.resolve insnList) ++ .insnLine line :: rest) =
              line.resolve insnList := by
          rw [InsnLine.resolve, searched, InsnLine.resolve]
        simp only [AsmLine.resolve, control, if_true] at next
        simp only [updateFrom, control, if_true, findLabel_eq, resolved, searched]
        by_cases undefined : definitions insnList line.label = []
        · simp [undefined, control]
        · simpa [undefined, control] using next
      · simp only [AsmLine.resolve, control, if_false, Bool.false_eq_true] at next
        simpa [updateFrom, control] using next

/-- The update returns 0 exactly when the labels are defined. -/
theorem asmLineUpdateAdress_code (insnList : List AsmLine) :
    (asmLineUpdateAdress insnList).1 = 0 ↔ Resolvable insnList := by
  -- The list is its own remainder when the loop begins.
  apply (updateFrom_eq insnList [] insnList rfl).1.trans
  simp [Resolvable, definitions_eq_nil_iff]

/-- The update that returns 0 leaves the resolved lines. -/
theorem asmLineUpdateAdress_lines {insnList : List AsmLine} (resolvable : Resolvable insnList) :
    (asmLineUpdateAdress insnList).2 = insnList.map (AsmLine.resolve insnList) :=
  (updateFrom_eq insnList [] insnList rfl).2 ((asmLineUpdateAdress_code insnList).mpr resolvable)

/--
The update succeeds exactly when every branch and jump names a defined label.

It then leaves the list in place with each offset to the last definition of its label, and every
other field of every line as it was.
-/
theorem asmLineUpdateAdress_spec (insnList : List AsmLine) :
    ((asmLineUpdateAdress insnList).1 = 0 ↔ Resolvable insnList) ∧
      ((asmLineUpdateAdress insnList).1 = 0 →
        (asmLineUpdateAdress insnList).2 = insnList.map (AsmLine.resolve insnList)) := by
  have code := asmLineUpdateAdress_code insnList
  exact ⟨code, fun success => asmLineUpdateAdress_lines (code.mp success)⟩

end MiniRiscV
