import Mathlib.Data.BitVec

/-! A store of bytes under natural addresses, whose accesses take several bytes at once. -/

namespace ByteStore

section LittleEndian

variable {w : ℕ} {bytes bytes' : ℕ → BitVec 8}

/-- The number that has some bytes at its low end, the first of them lowest, and zeros above. -/
def littleEndian (w : ℕ) (bytes : ℕ → BitVec 8) : ℕ → BitVec w
  | 0 => 0
  | size + 1 => littleEndian w bytes size ||| (bytes size).setWidth w <<< (8 * size)

/-- A bit of the number is the bit of one of its bytes. -/
theorem getLsbD_littleEndian {size i : ℕ} (inside : i < w) :
    (littleEndian w bytes size).getLsbD i =
      (decide (i < 8 * size) && (bytes (i / 8)).getLsbD (i % 8)) := by
  -- By induction on the number of bytes; the last one covers the bits from `8 * size` on.
  induction size with
  | zero => simp [littleEndian]
  | succ size ih =>
    rw [littleEndian, BitVec.getLsbD_or, ih, BitVec.getLsbD_shiftLeft, BitVec.getLsbD_setWidth]
    rcases (by omega : i < 8 * size ∨ (i / 8 = size ∧ i % 8 = i - 8 * size ∧ 8 * size ≤ i) ∨
      8 * (size + 1) ≤ i) with low | ⟨index, offset, low⟩ | high
    · simp [low, show i < 8 * (size + 1) by omega]
    · simp [index, offset, inside, show ¬ i < 8 * size by omega, show i < 8 * (size + 1) by omega,
        show i - 8 * size < w by omega]
    · have absent : (bytes size).getLsbD (i - 8 * size) = false :=
        BitVec.getLsbD_of_ge _ _ (by omega)
      simp [absent, show ¬ i < 8 * size by omega, show ¬ i < 8 * (size + 1) by omega]

/-- The number depends only on the bytes it has. -/
theorem littleEndian_congr {size : ℕ} (same : ∀ j < size, bytes j = bytes' j) :
    littleEndian w bytes size = littleEndian w bytes' size := by
  -- By induction on the number of bytes, the last of which is the same too.
  induction size with
  | zero => rfl
  | succ size ih =>
    rw [littleEndian, littleEndian, ih fun j less => same j (by omega), same size (by omega)]

/-- Bytes of zero at the high end can be left out. -/
theorem littleEndian_of_zero {few size : ℕ} (less : few ≤ size)
    (zero : ∀ j, few ≤ j → j < size → bytes j = 0) :
    littleEndian w bytes size = littleEndian w bytes few := by
  -- By induction on the bytes beyond the first few.
  induction size, less using Nat.le_induction with
  | base => rfl
  | succ size above ih =>
    rw [littleEndian, zero size above (by omega), ih fun j from_ below => zero j from_ (by omega)]
    simp

/-- One byte is extended by zeros. -/
theorem littleEndian_one : littleEndian w bytes 1 = (bytes 0).setWidth w := by
  simp [littleEndian]

/-- Two bytes are put side by side, and extended by zeros. -/
theorem littleEndian_two : littleEndian w bytes 2 = (bytes 1 ++ bytes 0).setWidth w := by
  -- One case for each byte, and one for the zeros above them.
  refine BitVec.eq_of_getLsbD_eq fun i inside => ?_
  rw [getLsbD_littleEndian inside, BitVec.getLsbD_setWidth, BitVec.getLsbD_append]
  rcases (by omega : i < 8 ∨ (8 ≤ i ∧ i < 16) ∨ 16 ≤ i) with low | ⟨above, below⟩ | high
  · simp [low, inside, show i / 8 = 0 by omega, show i % 8 = i by omega, show i < 16 by omega]
  · simp [below, inside, show i / 8 = 1 by omega, show i % 8 = i - 8 by omega,
      show ¬ i < 8 by omega]
  · have absent : (bytes 1).getLsbD (i - 8) = false := BitVec.getLsbD_of_ge _ _ (by omega)
    simp [absent, show ¬ i < 8 by omega, show ¬ i < 16 by omega]

/-- Four bytes fill a word. -/
theorem littleEndian_four :
    littleEndian 32 bytes 4 = bytes 3 ++ bytes 2 ++ bytes 1 ++ bytes 0 := by
  -- One case for each byte.
  refine BitVec.eq_of_getLsbD_eq fun i inside => ?_
  rw [getLsbD_littleEndian inside]
  simp only [BitVec.getLsbD_append]
  rcases (by omega : i < 8 ∨ (8 ≤ i ∧ i < 16) ∨ (16 ≤ i ∧ i < 24) ∨ 24 ≤ i) with
    low | ⟨above, below⟩ | ⟨above, below⟩ | high
  · simp [low, inside, show i / 8 = 0 by omega, show i % 8 = i by omega]
  · simp [inside, show i / 8 = 1 by omega, show i % 8 = i - 8 by omega, show ¬ i < 8 by omega,
      show i - 8 < 8 by omega]
  · simp [inside, show i / 8 = 2 by omega, show i % 8 = i - 16 by omega, show ¬ i < 8 by omega,
      show ¬ i - 8 < 8 by omega, show i - 8 - 8 = i - 16 by omega, show i - 16 < 8 by omega]
  · simp [inside, show i / 8 = 3 by omega, show i % 8 = i - 24 by omega, show ¬ i < 8 by omega,
      show ¬ i - 8 < 8 by omega, show ¬ i - 8 - 8 < 8 by omega,
      show i - 8 - 8 - 8 = i - 24 by omega]

end LittleEndian

section Requests

variable {w : ℕ}

/-- A store of the lowest bytes of a number, or a load. -/
inductive Request (w : ℕ) where
  | store (addr size : ℕ) (data : BitVec w)
  | load (addr size : ℕ)

/-- The byte that a request leaves at an address, if it stores one there. -/
def Request.byteAt (i : ℕ) : Request w → Option (BitVec 8)
  | .store addr size data =>
    if addr ≤ i ∧ i < addr + size then some (data.extractLsb' (8 * (i - addr)) 8) else none
  | .load _ _ => none

/-- The byte last stored at an address, or the one it had initially. -/
def lastByte (initial : ℕ → BitVec 8) (requests : List (Request w)) (i : ℕ) : BitVec 8 :=
  (requests.reverse.findSome? (Request.byteAt i)).getD (initial i)

/-- The last request decides, if it stores at the address. -/
theorem lastByte_append (initial : ℕ → BitVec 8) (requests : List (Request w))
    (request : Request w) (i : ℕ) :
    lastByte initial (requests ++ [request]) i =
      (request.byteAt i).getD (lastByte initial requests i) := by
  -- The search begins with the last request.
  rw [lastByte, List.reverse_append, List.reverse_singleton, List.singleton_append,
    List.findSome?_cons]
  cases request.byteAt i <;> rfl

/--
A machine that takes each request as the store does has the bytes last stored.

Only some addresses need to be right, and only some requests have to be taken rightly.
-/
theorem bytes_foldl {State Command : Type*} {step : State → Command → State}
    {bytes : State → ℕ → BitVec 8} {request : Command → Request w} {valid : ℕ → Prop}
    {accepted : Command → Prop} {initial : ℕ → BitVec 8} {start : State}
    (started : ∀ i, valid i → bytes start i = initial i)
    (taken : ∀ s command i, accepted command → valid i →
      bytes (step s command) i = ((request command).byteAt i).getD (bytes s i))
    (commands : List Command) (all : ∀ command ∈ commands, accepted command) {i : ℕ}
    (inside : valid i) :
    bytes (commands.foldl step start) i = lastByte initial (commands.map request) i := by
  -- By induction from the end of the list, whose last request comes last.
  induction commands using List.reverseRecOn with
  | nil => exact started i inside
  | append_singleton commands command ih =>
    rw [List.foldl_append, List.map_append, List.map_singleton, lastByte_append,
      ← ih fun c member => all c (List.mem_append_left _ member)]
    exact taken _ command i (all command (by simp)) inside

end Requests

end ByteStore
