import MiniRiscV.Rtl.DataMemory

/-! Accesses that begin inside the data memory and end behind it. -/

namespace MiniRiscV

open ByteStore

namespace Mem

variable {n : ℕ} {dataSecI : BitVec 2} {addrI : Word}

/-- The guard of a read, where the address does not wrap around. -/
theorem past_iff (parameter : n < 2 ^ 32) (offset : ℕ) (below : addrI.toNat + offset < 2 ^ 32) :
    addrI + BitVec.ofNat 32 offset > BitVec.ofNat 32 n ↔ n < addrI.toNat + offset := by
  -- It is the negation of the guard of a store.
  rw [gt_iff_lt, ← BitVec.not_le, guard_iff parameter offset below, Nat.not_le]

/-- A read that ends behind the array takes the bytes inside, unless they are three. -/
theorem readCount_past (parameter : n < 2 ^ 32) (starts : addrI.toNat ≤ n)
    (past : n < addrI.toNat + accessSize dataSecI - 1)
    (below : addrI.toNat + accessSize dataSecI ≤ 2 ^ 32)
    (notThree : accessSize dataSecI = 4 → addrI.toNat + 2 ≠ n) :
    min (accessSize dataSecI) (readCount n addrI) = n + 1 - addrI.toNat := by
  -- There are one or two bytes inside.
  have size := accessSize_cases dataSecI
  have guard1 : addrI + 1 > BitVec.ofNat 32 n ↔ n < addrI.toNat + 1 :=
    past_iff parameter 1 (by omega)
  rw [readCount]
  by_cases one : n < addrI.toNat + 1
  · rw [if_pos (guard1.mpr one)]
    omega
  · -- With more than one byte inside, the access is of a word, and there are two.
    have word : accessSize dataSecI = 4 := by omega
    have two := notThree word
    have guard2 : addrI + 2 > BitVec.ofNat 32 n ↔ n < addrI.toNat + 2 :=
      past_iff parameter 2 (by omega)
    rw [if_neg (mt guard1.mp one), if_pos (guard2.mpr (by omega))]
    omega

/-- A byte of ones stays one under assignments of ones, whether they are made or not. -/
theorem ones_write {mem : Mem n} {i : ℕ} (inside : i ≤ n) (ones : mem.byte i = 0xff)
    (made : Prop) [Decidable made] (index : Word) :
    (if made then mem.write index 0xff else mem).byte i = 0xff := by
  -- What is assigned is what is there.
  split
  · rw [byte_write _ _ _ inside]
    split
    · rfl
    · exact ones
  · exact ones

/-- A store of ones whose addresses wrap around writes its last byte there. -/
theorem clockedWrite_wrapped (mem : Mem n) (sized : dataSecI ≠ 0b11#2)
    (wraps : 2 ^ 32 < addrI.toNat + accessSize dataSecI)
    (inside : addrI.toNat + accessSize dataSecI - 1 - 2 ^ 32 ≤ n) :
    (mem.clockedWrite dataSecI 0xffffffff#32 addrI).byte
      (addrI.toNat + accessSize dataSecI - 1 - 2 ^ 32) = 0xff := by
  -- The last byte is assigned first, without a guard.
  have top := addrI.isLt
  rcases dataSec_cases dataSecI sized with rfl | rfl | rfl
  · -- A single byte does not wrap around.
    have size : accessSize 0b00#2 = 1 := rfl
    rw [size] at wraps
    omega
  · have size : accessSize 0b01#2 = 2 := rfl
    rw [size] at wraps inside ⊢
    have index : (addrI + 1).toNat = addrI.toNat + 2 - 1 - 2 ^ 32 := by
      rw [BitVec.toNat_add, show (1 : Word).toNat = 1 from rfl]
      omega
    apply ones_write inside
    rw [byte_write _ _ _ inside, if_pos index.symm]
    rfl
  · have size : accessSize 0b10#2 = 4 := rfl
    rw [size] at wraps inside ⊢
    have index : (addrI + 3).toNat = addrI.toNat + 4 - 1 - 2 ^ 32 := by
      rw [BitVec.toNat_add, show (3 : Word).toNat = 3 from rfl]
      omega
    -- The three other bytes come behind it.
    apply ones_write inside
    apply ones_write inside
    apply ones_write inside
    rw [byte_write _ _ _ inside, if_pos index.symm]
    rfl

end Mem

namespace DataMem

variable {n : ℕ} {dataSecI : BitVec 2} {addrI : Word}

/-- What an access that ends behind the array does, whatever the module and the outside hold. -/
structure PastEndRight (n : ℕ) (dataSecI : BitVec 2) (addrI : Word) : Prop where
  /-- A store writes all its bytes inside the array, or none of them. -/
  store : ∀ outer (s : DataMem n) dataWI,
    (∀ i ≤ n, (s.step outer false ⟨true, dataSecI, dataWI, addrI⟩).mem.byte i =
      ((Request.store addrI.toNat (accessSize dataSecI) dataWI).byteAt i).getD (s.mem.byte i)) ∨
    ∀ i ≤ n, (s.step outer false ⟨true, dataSecI, dataWI, addrI⟩).mem.byte i = s.mem.byte i
  /-- A load gives the bytes inside the array, and zeros for the others. -/
  load : ∀ outer (s : DataMem n) dataWI,
    (s.step outer false ⟨false, dataSecI, dataWI, addrI⟩).dataO =
      littleEndian 32 (fun j => s.mem.byte (addrI.toNat + j)) (accessSize dataSecI)

/-- A store that ends behind the array writes nothing, unless it has three bytes inside. -/
theorem store_past (parameter : n < 2 ^ 32) (sized : dataSecI ≠ 0b11#2)
    (starts : addrI.toNat ≤ n) (past : n < addrI.toNat + accessSize dataSecI - 1)
    (below : addrI.toNat + accessSize dataSecI ≤ 2 ^ 32)
    (notThree : accessSize dataSecI = 4 → addrI.toNat + 2 ≠ n) (outer : Word → BitVec 8)
    (s : DataMem n) (dataWI : Word) {i : ℕ} (inside : i ≤ n) :
    (s.step outer false ⟨true, dataSecI, dataWI, addrI⟩).mem.byte i = s.mem.byte i := by
  simp only [step, Bool.false_eq_true, if_false, if_true]
  rw [Mem.byte_clockedWrite parameter s.mem sized dataWI starts below inside]
  -- The guard of each byte inside is for an offset outside.
  refine if_neg fun written => ?_
  rcases Mem.accessSize_cases dataSecI with size | size | size <;> rw [size] at written past
  · omega
  · omega
  · have := notThree size
    omega

/-- A load that ends behind the array fills up with zeros, unless it has three bytes inside. -/
theorem load_past (parameter : n < 2 ^ 32) (starts : addrI.toNat ≤ n)
    (past : n < addrI.toNat + accessSize dataSecI - 1)
    (below : addrI.toNat + accessSize dataSecI ≤ 2 ^ 32)
    (notThree : accessSize dataSecI = 4 → addrI.toNat + 2 ≠ n) (outer : Word → BitVec 8)
    (s : DataMem n) (dataWI : Word) :
    (s.step outer false ⟨false, dataSecI, dataWI, addrI⟩).dataO =
      littleEndian 32 (fun j => s.mem.byte (addrI.toNat + j)) (accessSize dataSecI) := by
  simp only [step, Bool.false_eq_true, if_false]
  -- As many bytes are taken as there are inside.
  rw [Mem.dataR_eq, Mem.readCount_past parameter starts past below notThree]
  have absent (j : ℕ) (behind : n + 1 - addrI.toNat ≤ j) : s.mem.byte (addrI.toNat + j) = 0 :=
    dif_neg (by omega)
  rw [@littleEndian_of_zero 32 (fun j => s.mem.byte (addrI.toNat + j)) (n + 1 - addrI.toNat) _
    (by omega) fun j behind _ => absent j behind]
  refine littleEndian_congr fun j less => ?_
  have index := @Mem.toNat_addr_add addrI j (by omega)
  rw [Mem.read_eq_byte outer s.mem (by omega), index]

/-- Where all bytes are ones, inside and outside, a load of a word has ones up to its top byte. -/
theorem not_load_three (parameter : n < 2 ^ 32) (word : accessSize dataSecI = 4)
    (three : addrI.toNat + 2 = n) : ¬ PastEndRight n dataSecI addrI := by
  intro right
  have load := right.load (fun _ => 0xff) ⟨fun _ => 0xff, 0, 0⟩ 0
  have read (index : Word) : Mem.read (fun _ => 0xff) (fun _ => 0xff : Mem n) index = 0xff := by
    rw [Mem.read]
    split <;> rfl
  -- Neither guard stops the read.
  have guard1 : ¬ addrI + 1 > BitVec.ofNat 32 n :=
    mt (Mem.past_iff parameter 1 (by omega)).mp (by omega)
  have guard2 : ¬ addrI + 2 > BitVec.ofNat 32 n :=
    mt (Mem.past_iff parameter 2 (by omega)).mp (by omega)
  simp only [step, Bool.false_eq_true, if_false, Mem.dataR_eq, Mem.readCount, if_neg guard1,
    if_neg guard2, word, read, min_self] at load
  -- The top byte of the load is the one behind the end.
  have top := congrArg (fun w : Word => w.getLsbD 24) load
  simp only [getLsbD_littleEndian (show 24 < 32 by decide)] at top
  have absent : Mem.byte (fun _ => 0xff : Mem n) (addrI.toNat + 24 / 8) = 0 := dif_neg (by omega)
  rw [absent] at top
  exact absurd top (by decide)

/-- Where the addresses wrap around, a store changes a byte at the other end of the array. -/
theorem not_store_wrapped (sized : dataSecI ≠ 0b11#2) (starts : addrI.toNat ≤ n)
    (wraps : 2 ^ 32 < addrI.toNat + accessSize dataSecI) : ¬ PastEndRight n dataSecI addrI := by
  intro right
  have store := right.store (fun _ => 0) ⟨fun _ => 0, 0, 0⟩ 0xffffffff#32
  have size := Mem.accessSize_cases dataSecI
  have top := addrI.isLt
  -- The last byte of the access has come around.
  have inside : addrI.toNat + accessSize dataSecI - 1 - 2 ^ 32 ≤ n := by omega
  have written : (({ mem := fun _ => 0, dataO := 0, aluO := 0 } : DataMem n).step (fun _ => 0) false
      ⟨true, dataSecI, 0xffffffff#32, addrI⟩).mem.byte
        (addrI.toNat + accessSize dataSecI - 1 - 2 ^ 32) = 0xff := by
    simp only [step, Bool.false_eq_true, if_false, if_true]
    exact Mem.clockedWrite_wrapped _ sized wraps inside
  have before :
      Mem.byte (fun _ => 0 : Mem n) (addrI.toNat + accessSize dataSecI - 1 - 2 ^ 32) = 0 := by
    rw [Mem.byte]
    split <;> rfl
  rcases store with all | none
  · have byte := all _ inside
    rw [written, Request.byteAt, if_neg (by omega), Option.getD_none, before] at byte
    exact absurd byte (by decide)
  · have byte := none _ inside
    rw [written, before] at byte
    exact absurd byte (by decide)

/--
An access behind the end is right exactly when its addresses do not wrap around, and it is not of
a word that has three bytes inside.
-/
theorem pastEndRight_iff (parameter : n < 2 ^ 32) (sized : dataSecI ≠ 0b11#2)
    (starts : addrI.toNat ≤ n) (past : n < addrI.toNat + accessSize dataSecI - 1) :
    PastEndRight n dataSecI addrI ↔
      addrI.toNat + accessSize dataSecI ≤ 2 ^ 32 ∧
        (accessSize dataSecI = 4 → addrI.toNat + 2 ≠ n) := by
  constructor
  · intro right
    constructor
    · by_contra wraps
      exact not_store_wrapped sized starts (Nat.lt_of_not_le wraps) right
    · intro word inside
      exact not_load_three parameter word inside right
  · intro condition
    obtain ⟨below, notThree⟩ := condition
    refine ⟨fun outer s dataWI => .inr fun i inside => ?_, fun outer s dataWI => ?_⟩
    · exact store_past parameter sized starts past below notThree outer s dataWI inside
    · exact load_past parameter starts past below notThree outer s dataWI

/-- In a memory of eight bytes, a half-word at the last one. -/
theorem pastEndRight_half : PastEndRight 7 0b01#2 7#32 :=
  (pastEndRight_iff (by decide) (by decide) (by decide) (by decide)).mpr
    ⟨by decide, fun word => absurd word (by decide)⟩

/-- In a memory of eight bytes, a word at the sixth one: of its three bytes, two are written. -/
theorem not_pastEndRight_word :
    let stored := (reset : DataMem 7).step (fun _ => 0) false ⟨true, 0b10#2, 0#32, 5#32⟩
    let loaded := (reset : DataMem 7).step (fun _ => 0xAA) false ⟨false, 0b10#2, 0#32, 5#32⟩
    (stored.mem.byte 5 = 0xff ∧ stored.mem.byte 6 = 0 ∧ stored.mem.byte 7 = 0) ∧
      loaded.dataO = 0xAAFFFFFF#32 ∧ ¬ PastEndRight 7 0b10#2 5#32 := by
  -- The load also shows the byte behind the end.
  refine ⟨by decide, by decide, fun right => ?_⟩
  exact absurd (right.load (fun _ => 0xAA) reset 0) (by decide)

end DataMem
end MiniRiscV
