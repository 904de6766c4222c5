import Mathlib.Data.BitVec

/-! Words written as binary digits, most significant digit first, and read back. -/

namespace BitVec

variable {v w : ℕ}

/-- The digits of a word. -/
def binaryText (x : BitVec w) : List Char :=
  List.ofFn fun i : Fin w => if x.getMsbD i then '1' else '0'

/-- The word of a given width that a text spells, when it is made of that many binary digits. -/
def ofBinaryText (w : ℕ) (text : List Char) : Option (BitVec w) :=
  -- Only the right number of binary digits spells a word.
  if text.length = w ∧ text.all (fun c => c == '0' || c == '1') then
    some ((ofBoolListBE (text.map (· == '1'))).setWidth w)
  else none

/-- There is one digit for each bit. -/
@[simp] theorem length_binaryText (x : BitVec w) : x.binaryText.length = w := by
  simp [binaryText]

/-- The digit at a position is the bit at that position. -/
theorem getElem_binaryText (x : BitVec w) (i : ℕ) (inside : i < x.binaryText.length) :
    x.binaryText[i] = if x.getMsbD i then '1' else '0' := by
  simp [binaryText]

/-- A word is written with the digits zero and one only. -/
theorem mem_binaryText {x : BitVec w} {c : Char} (digit : c ∈ x.binaryText) :
    c = '0' ∨ c = '1' := by
  obtain ⟨i, rfl⟩ := (List.mem_ofFn' _ _).mp digit
  by_cases bit : x.getMsbD i <;> simp [bit]

/-- The digits of a concatenation are those of the high part and then those of the low part. -/
theorem binaryText_append (x : BitVec v) (y : BitVec w) :
    (x ++ y).binaryText = x.binaryText ++ y.binaryText := by
  -- Both sides have the same digit at every position, on either side of the seam.
  refine List.ext_getElem (by simp) fun i inside _ => ?_
  simp only [length_binaryText] at inside
  by_cases low : v ≤ i
  · rw [List.getElem_append_right (by simpa using low)]
    simp [getElem_binaryText, getMsbD_append, low]
  · rw [List.getElem_append_left (by simpa using low)]
    simp [getElem_binaryText, getMsbD_append, low]

/-- The digits of a word read back as that word. -/
@[simp] theorem ofBinaryText_binaryText (x : BitVec w) : ofBinaryText w x.binaryText = some x := by
  have written : x.binaryText.length = w ∧ x.binaryText.all (fun c => c == '0' || c == '1') := by
    refine ⟨length_binaryText x, List.all_eq_true.mpr fun c mem => ?_⟩
    simpa using mem_binaryText mem
  rw [ofBinaryText, if_pos written, Option.some_inj]
  -- Compared from the most significant bit, digit by digit.
  refine eq_of_getMsbD_eq fun i inside => ?_
  have digit : ∀ bit : Bool, ((if bit then '1' else '0') == '1') = bit := by decide
  simp [inside, binaryText, List.getElem_ofFn, digit]

/-- A text of as many binary digits as a word has spells a word. -/
theorem exists_binaryText {text : List Char} (size : text.length = w)
    (digits : ∀ c ∈ text, c = '0' ∨ c = '1') : ∃ x : BitVec w, x.binaryText = text := by
  refine ⟨(ofBoolListBE (text.map (· == '1'))).setWidth w, List.ext_getElem (by simp [size]) ?_⟩
  intro i inside inside'
  -- The digit at a position is the bit that was read there.
  rcases digits _ (List.getElem_mem inside') with zero | one
  · simp [getElem_binaryText, List.getElem?_eq_getElem inside', zero, size]
  · simp [getElem_binaryText, List.getElem?_eq_getElem inside', one, size]

/-- Words are written alike only when they are the same. -/
@[simp] theorem binaryText_inj {x y : BitVec w} : x.binaryText = y.binaryText ↔ x = y := by
  -- Reading the digits gives both words back.
  constructor
  · intro same
    simpa using congrArg (ofBinaryText w) same
  · rintro rfl
    rfl

end BitVec
