import Mathlib.Computability.Language
import Mathlib.Data.List.Sections

/-! Languages of finitely many words, given as sequences of choices, and sequences of options. -/

open scoped Computability

namespace Language

variable {α : Type*}

/-- The words with one symbol out of each of some lists, in order. -/
def ofTerms (terms : List (List α)) : Language α :=
  {word | List.Forall₂ (fun symbol symbols => symbol ∈ symbols) word terms}

/-- The words of one of several sequences. -/
def alternatives (forms : List (List (List α))) : Language α :=
  {word | ∃ terms ∈ forms, word ∈ ofTerms terms}

/-- All words of several sequences. -/
def spellings (forms : List (List (List α))) : List (List α) := forms.flatMap List.sections

/-- The words of a choice of sequences are finitely many, and can be listed. -/
theorem mem_alternatives {forms : List (List (List α))} {word : List α} :
    word ∈ alternatives forms ↔ word ∈ spellings forms := by
  -- The words of one sequence are its sections.
  simp only [spellings, List.mem_flatMap, List.mem_sections]
  rfl

/-- A word and a sequence of words. -/
theorem append_mem_kstar {l : Language α} {word rest : List α} (first : word ∈ l)
    (behind : rest ∈ l∗) : word ++ rest ∈ l∗ :=
  (mul_kstar_le_kstar : l * l∗ ≤ l∗) (append_mem_mul first behind)

/-- A symbol that may be left out. -/
def optionally (l : Language α) : Language α := 1 + l

/-- An optional word is empty, or one of the language. -/
theorem mem_optionally {l : Language α} {word : List α} :
    word ∈ optionally l ↔ word = [] ∨ word ∈ l := by
  rw [optionally, mem_add, mem_one]

end Language

section Kleene

variable {α : Type*} [KleeneAlgebra α]

/-- Optional items, each with any number of separators behind it, are items and separators. -/
theorem optionally_kstar_eq (item separator : α) :
    (1 + item) * separator∗ * ((1 + item) * separator∗)∗ = (item + separator)∗ := by
  -- One turn of the left side is made of items and separators.
  have line : (1 + item) * separator∗ ≤ (item + separator)∗ := by
    calc (1 + item) * separator∗
        ≤ (item + separator)∗ * (item + separator)∗ := by
          gcongr
          · exact add_le one_le_kstar ((le_add_of_nonneg_right zero_le).trans le_kstar)
          · exact le_add_of_nonneg_left zero_le
      _ = (item + separator)∗ := kstar_mul_kstar _
  apply le_antisymm
  · calc (1 + item) * separator∗ * ((1 + item) * separator∗)∗
        ≤ (item + separator)∗ * (item + separator)∗∗ := by gcongr
      _ = (item + separator)∗ := by rw [kstar_idem, kstar_mul_kstar]
  · -- An item is a line without separators, a separator a line without an item.
    have one : item + separator ≤ (1 + item) * separator∗ := by
      refine add_le ?_ ?_
      · calc item = item * 1 := (mul_one item).symm
          _ ≤ (1 + item) * separator∗ := by
            gcongr
            · exact le_add_of_nonneg_left zero_le
            · exact one_le_kstar
      · calc separator = 1 * separator := (one_mul separator).symm
          _ ≤ (1 + item) * separator∗ := by
            gcongr
            · exact le_add_of_nonneg_right zero_le
            · exact le_kstar
    have empty : 1 ≤ (1 + item) * separator∗ := by
      calc (1 : α) = 1 * 1 := (mul_one 1).symm
        _ ≤ (1 + item) * separator∗ := by
          gcongr
          · exact le_add_of_nonneg_right zero_le
          · exact one_le_kstar
    calc (item + separator)∗ ≤ ((1 + item) * separator∗)∗ := by gcongr
      _ = 1 * ((1 + item) * separator∗)∗ := (one_mul _).symm
      _ ≤ (1 + item) * separator∗ * ((1 + item) * separator∗)∗ := by gcongr

end Kleene
