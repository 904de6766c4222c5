import Mathlib.Data.BitVec

/-! Overwriting a run of bits inside a bit vector, the hardware description's slice assignment. -/

namespace BitVec

/-- Replace the `len` bits of `x` starting at bit `lo` by `v`. -/
def setSlice {width len : Nat} (x : BitVec width) (lo : Nat) (v : BitVec len) : BitVec width :=
  -- Clear the addressed run first, then drop the new bits into the hole.
  (x &&& ~~~((allOnes len).setWidth width <<< lo)) ||| (v.setWidth width <<< lo)

/-- A bit inside the assigned run comes from the new value, and any other bit is kept. -/
theorem getLsbD_setSlice {width len : Nat} (x : BitVec width) (lo : Nat) (v : BitVec len)
    {i : Nat} (inside : i < width) :
    (x.setSlice lo v).getLsbD i =
      if lo ≤ i ∧ i < lo + len then v.getLsbD (i - lo) else x.getLsbD i := by
  -- The mask is set exactly on the assigned run, so the two halves never overlap.
  by_cases low : i < lo
  · simp [setSlice, inside, low, show ¬ lo ≤ i by omega]
  · by_cases high : i < lo + len
    · simp [setSlice, inside, low, show lo ≤ i by omega, high, show i - lo < len by omega]
    · have beyond : ¬ i - lo < len := by omega
      have absent : v.getLsbD (i - lo) = false := getLsbD_of_ge v _ (by omega)
      simp [setSlice, inside, low, beyond, high, absent]

end BitVec
