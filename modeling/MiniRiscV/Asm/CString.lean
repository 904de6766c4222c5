import Mathlib.Data.BitVec

/-! The texts of the assembler: C strings, `string_t`, and `atoi`. -/

namespace MiniRiscV

/-- The bytes of a C string before its terminator. -/
abbrev CStr := List Char

instance : Coe String CStr := ⟨String.toList⟩

/-- A buffer and the number of its bytes in use, a `string_t`. -/
structure StringT where
  content : CStr
  /-- Signed, as the removal of the last byte may make it negative. -/
  length : ℤ
  /-- The bytes in use lie inside the buffer. -/
  bounded : length ≤ content.length

/-- `string_new(&str, "", 0)`. -/
def stringEmpty : StringT where
  content := []
  length := 0
  bounded := by simp

/-- `string_convert`. -/
def stringConvert (str : CStr) : StringT where
  content := str
  length := str.length
  bounded := Int.le_refl _

namespace StringT

/-- Shorten the part in use by its last byte, which stays in the buffer. -/
def dropLast (str : StringT) : StringT where
  content := str.content
  length := str.length - 1
  bounded := by
    have := str.bounded
    omega

/-- The bytes in use. -/
def text (str : StringT) : CStr := str.content.take str.length.toNat

/-- All bytes of a converted C string are in use. -/
@[simp] theorem text_stringConvert (str : CStr) : (stringConvert str).text = str := by
  simp [text, stringConvert]

/-- The bytes of a shortened string are all but the last. -/
@[simp] theorem text_dropLast_stringConvert (str : CStr) :
    (stringConvert str).dropLast.text = str.dropLast := by
  simp [text, dropLast, stringConvert, List.dropLast_eq_take]

/-- Two strings are the same: as many bytes are in use, and they are equal. -/
def Same (str1 str2 : StringT) : Prop := str1.length = str2.length ∧ str1.text = str2.text

instance (str1 str2 : StringT) : Decidable (str1.Same str2) := inferInstanceAs (Decidable (_ ∧ _))

/-- For natural lengths, the bytes alone decide. -/
theorem same_iff {str1 str2 : StringT} (nonneg1 : 0 ≤ str1.length) (nonneg2 : 0 ≤ str2.length) :
    str1.Same str2 ↔ str1.text = str2.text := by
  -- The length of the part in use is the stored length, as it fits in the buffer.
  have bounded1 := str1.bounded
  have bounded2 := str2.bounded
  refine ⟨And.right, fun same => ⟨?_, same⟩⟩
  have lengths := congrArg List.length same
  simp only [text, List.length_take] at lengths
  omega

end StringT

/-- `string_compare`. -/
def stringCompare (str1 str2 : StringT) : Bool :=
  str1.length = str2.length ∧ ∀ i < str1.length.toNat, str1.content[i]? = str2.content[i]?

/-- The comparison finds out whether two strings are the same. -/
theorem stringCompare_iff (str1 str2 : StringT) : stringCompare str1 str2 ↔ str1.Same str2 := by
  simp only [stringCompare, decide_eq_true_eq, StringT.Same, StringT.text]
  constructor
  · rintro ⟨sameLength, same⟩
    refine ⟨sameLength, List.ext_getElem? fun i => ?_⟩
    -- In front of the common length the bytes agree, and behind it there are none.
    rw [← sameLength, List.getElem?_take, List.getElem?_take]
    split
    · exact same i ‹_›
    · rfl
  · rintro ⟨sameLength, same⟩
    refine ⟨sameLength, fun i inside => ?_⟩
    have atIndex := congrArg (fun bytes => bytes[i]?) same
    simpa [List.getElem?_take, inside, show i < str2.length.toNat by omega] using atIndex

/-- The white space that `strtol` skips. -/
def isSpace (c : Char) : Bool := c = ' ' ∨ ('\t' ≤ c ∧ c ≤ '\r')

/-- A decimal digit. -/
def isDecimalDigit (c : Char) : Bool := '0' ≤ c ∧ c ≤ '9'

/-- The value of a sequence of decimal digits. -/
def decimalValue (digits : CStr) : ℕ :=
  digits.foldl (fun value digit => 10 * value + (digit.toNat - '0'.toNat)) 0

/-- `strtol` in base ten, saturating at the bounds of a 64-bit integer. -/
def strtol (str : CStr) : ℤ :=
  let str := str.dropWhile isSpace
  let (negative, digits) :=
    match str with
    | '-' :: rest => (true, rest)
    | '+' :: rest => (false, rest)
    | _ => (false, str)
  let value : ℤ := decimalValue (digits.takeWhile isDecimalDigit)
  if negative then max (-2 ^ 63) (-value) else min (2 ^ 63 - 1) value

/-- `atoi`: the result of `strtol` cut to 32 bits. -/
def atoi (str : CStr) : ℤ := (BitVec.ofInt 32 (strtol str)).toInt

end MiniRiscV
