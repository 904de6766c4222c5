import Mathlib.Data.BitVec

/-! The six instruction formats of RV32I: the fields of a word, and words made of fields. -/

namespace Rv32i

section Fields

variable (w : BitVec 32)

def opcode : BitVec 7 := w.extractLsb' 0 7
def rd : BitVec 5 := w.extractLsb' 7 5
def funct3 : BitVec 3 := w.extractLsb' 12 3
def rs1 : BitVec 5 := w.extractLsb' 15 5
def rs2 : BitVec 5 := w.extractLsb' 20 5
def funct7 : BitVec 7 := w.extractLsb' 25 7

/-- The immediate of an I-format word. -/
def immI : BitVec 12 := w.extractLsb' 20 12

/-- The immediate of an S-format word. -/
def immS : BitVec 12 := w.extractLsb' 25 7 ++ w.extractLsb' 7 5

/-- The offset of a B-format word, an even number of bytes. -/
def immB : BitVec 13 :=
  w.extractLsb' 31 1 ++ w.extractLsb' 7 1 ++ w.extractLsb' 25 6 ++ w.extractLsb' 8 4 ++ 0#1

/-- The upper immediate of a U-format word. -/
def immU : BitVec 20 := w.extractLsb' 12 20

/-- The offset of a J-format word, an even number of bytes. -/
def immJ : BitVec 21 :=
  w.extractLsb' 31 1 ++ w.extractLsb' 12 8 ++ w.extractLsb' 20 1 ++ w.extractLsb' 21 10 ++ 0#1

end Fields

section Comparisons

variable (f3 : BitVec 3) (a b : BitVec 32)

/-- A branch with this `funct3` is taken on these operands; two of the codes are reserved. -/
def Branches : Prop :=
  -- In pairs: equality, the signed order, the unsigned order, and their negations.
  (f3 = 0b000#3 ∧ a = b) ∨ (f3 = 0b001#3 ∧ a ≠ b) ∨
    (f3 = 0b100#3 ∧ a.toInt < b.toInt) ∨ (f3 = 0b101#3 ∧ ¬ a.toInt < b.toInt) ∨
    (f3 = 0b110#3 ∧ a.toNat < b.toNat) ∨ (f3 = 0b111#3 ∧ ¬ a.toNat < b.toNat)

/-- The result of `SLT` or `SLTU`, by its `funct3`. -/
def setLess : BitVec 32 :=
  if f3 = 0b010#3 then if a.toInt < b.toInt then 1 else 0
  else if a.toNat < b.toNat then 1 else 0

/-- The signed and the unsigned order agree on two words exactly when their signs do. -/
theorem slt_eq_ult_iff : a.slt b = a.ult b ↔ a.msb = b.msb := by
  rw [BitVec.slt_eq_ult]
  -- The signed order is the unsigned one, reversed when the signs differ.
  cases a.msb <;> cases b.msb <;> cases a.ult b <;> decide

end Comparisons

section Operations

/-- The operations on two registers that compute with their operands, and do not compare them. -/
inductive Operation where
  | add | sub | sll | xor | srl | sra | or | and
  deriving DecidableEq

namespace Operation

variable (op : Operation) (a b : BitVec 32)

/-- The `funct3` of an operation, on two registers as with an immediate. -/
def funct3 : BitVec 3 :=
  match op with
  | add | sub => 0b000#3
  | sll => 0b001#3
  | xor => 0b100#3
  | srl | sra => 0b101#3
  | or => 0b110#3
  | and => 0b111#3

/-- The `funct7` of an operation, which tells apart those with the same `funct3`. -/
def funct7 : BitVec 7 :=
  match op with
  | sub | sra => 0b0100000#7
  | add | sll | xor | srl | or | and => 0b0000000#7

/-- The operation is one of the shifts, whose immediate is a shift amount. -/
def shifts : Bool :=
  match op with
  | sll | srl | sra => true
  | add | sub | xor | or | and => false

/-- The result of an operation, of which the shifts use five bits of their second operand. -/
def result : BitVec 32 :=
  match op with
  | add => a + b
  | sub => a - b
  | sll => a <<< (b.extractLsb' 0 5).toNat
  | xor => a ^^^ b
  | srl => a >>> (b.extractLsb' 0 5).toNat
  | sra => a.sshiftRight (b.extractLsb' 0 5).toNat
  | or => a ||| b
  | and => a &&& b

end Operation

/-- A logical and an arithmetic shift differ in the top bit, when they shift a one out of it. -/
theorem ushiftRight_eq_sshiftRight_iff {w : Nat} (a : BitVec w) (shamt : Nat) :
    a >>> shamt = a.sshiftRight shamt ↔ (a.msb = false ∨ shamt = 0) := by
  constructor
  · intro same
    have top := congrArg BitVec.msb same
    rw [BitVec.msb_ushiftRight, BitVec.msb_sshiftRight] at top
    by_cases none : shamt = 0
    · exact .inr none
    · -- The logical shift has left a zero there.
      rw [decide_eq_true (Nat.pos_of_ne_zero none)] at top
      exact .inl top.symm
  · intro either
    rcases either with positive | rfl
    · exact (BitVec.sshiftRight_eq_of_msb_false positive).symm
    · simp

/-- A logical shift leaves zero exactly when the number is below that power of two. -/
theorem ushiftRight_eq_zero_iff {w : Nat} (a : BitVec w) (shamt : Nat) :
    a >>> shamt = 0#w ↔ a.toNat < 2 ^ shamt := by
  -- The shift divides by that power.
  rw [← BitVec.toNat_inj, BitVec.toNat_ushiftRight, BitVec.toNat_zero, Nat.shiftRight_eq_div_pow]
  exact Nat.div_eq_zero_iff_lt (Nat.two_pow_pos shamt)

end Operations

section Loads

/-- The value of a load by its `funct3`, from the bytes at its address and behind. -/
def loadValue (f3 : BitVec 3) (bytes : ℕ → BitVec 8) : BitVec 32 :=
  -- In this order: `LB`, `LH`, `LW`, `LBU`, `LHU`.
  if f3 = 0b000#3 then (bytes 0).signExtend 32
  else if f3 = 0b001#3 then (bytes 1 ++ bytes 0).signExtend 32
  else if f3 = 0b010#3 then bytes 3 ++ bytes 2 ++ bytes 1 ++ bytes 0
  else if f3 = 0b100#3 then (bytes 0).setWidth 32
  else (bytes 1 ++ bytes 0).setWidth 32

/-- The two extensions of a number agree exactly when it is not negative. -/
theorem setWidth_eq_signExtend_iff {v w : ℕ} (wider : v < w) (x : BitVec v) :
    x.setWidth w = x.signExtend w ↔ x.msb = false := by
  constructor
  · intro same
    -- The top bit is a zero on one side, and the sign on the other.
    have top := congrArg (fun y : BitVec w => y.getLsbD v) same
    simp only [BitVec.getLsbD_setWidth, BitVec.getLsbD_signExtend, decide_eq_true wider,
      BitVec.getLsbD_of_ge x v (le_refl v), Bool.true_and, if_neg (lt_irrefl v)] at top
    exact top.symm
  · intro positive
    exact (BitVec.signExtend_eq_setWidth_of_msb_false positive).symm

end Loads

section Formats

variable (op : BitVec 7) (d s1 s2 : BitVec 5) (f3 : BitVec 3) (f7 : BitVec 7)

def rType : BitVec 32 := f7 ++ s2 ++ s1 ++ f3 ++ d ++ op
def iType (imm : BitVec 12) : BitVec 32 := imm ++ s1 ++ f3 ++ d ++ op
def uType (imm : BitVec 20) : BitVec 32 := imm ++ d ++ op

def sType (imm : BitVec 12) : BitVec 32 :=
  imm.extractLsb' 5 7 ++ s2 ++ s1 ++ f3 ++ imm.extractLsb' 0 5 ++ op

/-- A branch word; the lowest bit of the offset has no place in it. -/
def bType (imm : BitVec 13) : BitVec 32 :=
  imm.extractLsb' 12 1 ++ imm.extractLsb' 5 6 ++ s2 ++ s1 ++ f3 ++ imm.extractLsb' 1 4 ++
    imm.extractLsb' 11 1 ++ op

/-- A jump word; the lowest bit of the offset has no place in it. -/
def jType (imm : BitVec 21) : BitVec 32 :=
  imm.extractLsb' 20 1 ++ imm.extractLsb' 1 10 ++ imm.extractLsb' 11 1 ++ imm.extractLsb' 12 8 ++
    d ++ op

/-- The six fields of an R-format word. -/
theorem fields_rType :
    opcode (rType op d s1 s2 f3 f7) = op ∧ rd (rType op d s1 s2 f3 f7) = d ∧
      rs1 (rType op d s1 s2 f3 f7) = s1 ∧ rs2 (rType op d s1 s2 f3 f7) = s2 ∧
      funct3 (rType op d s1 s2 f3 f7) = f3 ∧ funct7 (rType op d s1 s2 f3 f7) = f7 := by
  refine ⟨?_, ?_, ?_, ?_, ?_, ?_⟩
  -- A field is found by discarding the lower parts of the word, and then the higher ones.
  all_goals
    simp only [rType, opcode, rd, rs1, rs2, funct3, funct7]
    repeat first
      | rw [BitVec.extractLsb'_append_eq_of_add_le (by decide)]
      | rw [BitVec.extractLsb'_append_eq_of_le (by decide)]
    simp

/-- The fields of an I-format word. -/
theorem fields_iType (imm : BitVec 12) :
    opcode (iType op d s1 f3 imm) = op ∧ rd (iType op d s1 f3 imm) = d ∧
      rs1 (iType op d s1 f3 imm) = s1 ∧ funct3 (iType op d s1 f3 imm) = f3 ∧
      immI (iType op d s1 f3 imm) = imm := by
  -- The parts of the word are discarded as in the R format.
  refine ⟨?_, ?_, ?_, ?_, ?_⟩
  all_goals
    simp only [iType, opcode, rd, rs1, funct3, immI]
    repeat first
      | rw [BitVec.extractLsb'_append_eq_of_add_le (by decide)]
      | rw [BitVec.extractLsb'_append_eq_of_le (by decide)]
    simp

/-- The fields of an S-format word. -/
theorem fields_sType (imm : BitVec 12) :
    opcode (sType op s1 s2 f3 imm) = op ∧ rs1 (sType op s1 s2 f3 imm) = s1 ∧
      rs2 (sType op s1 s2 f3 imm) = s2 ∧ funct3 (sType op s1 s2 f3 imm) = f3 ∧
      immS (sType op s1 s2 f3 imm) = imm := by
  refine ⟨?_, ?_, ?_, ?_, ?_⟩
  all_goals
    simp only [sType, opcode, rs1, rs2, funct3, immS]
    repeat first
      | rw [BitVec.extractLsb'_append_eq_of_add_le (by decide)]
      | rw [BitVec.extractLsb'_append_eq_of_le (by decide)]
    simp
  -- The two pieces of the immediate meet again.
  rw [BitVec.extractLsb'_append_extractLsb'_eq_extractLsb' (by decide)]
  simp

/-- The fields of a B-format word, whose offset is even. -/
theorem fields_bType (imm : BitVec 13) (even : imm.getLsbD 0 = false) :
    opcode (bType op s1 s2 f3 imm) = op ∧ rs1 (bType op s1 s2 f3 imm) = s1 ∧
      rs2 (bType op s1 s2 f3 imm) = s2 ∧ funct3 (bType op s1 s2 f3 imm) = f3 ∧
      immB (bType op s1 s2 f3 imm) = imm := by
  -- The bit without a place in the word is known to be zero.
  have last : 0#1 = imm.extractLsb' 0 1 := by
    ext i inside
    obtain rfl : i = 0 := by omega
    simpa [BitVec.getElem_extractLsb'] using even
  refine ⟨?_, ?_, ?_, ?_, ?_⟩
  all_goals
    simp only [bType, opcode, rs1, rs2, funct3, immB]
    repeat first
      | rw [BitVec.extractLsb'_append_eq_of_add_le (by decide)]
      | rw [BitVec.extractLsb'_append_eq_of_le (by decide)]
    simp
  -- The pieces of the offset meet again, with the zero at the end.
  rw [last]
  repeat rw [BitVec.extractLsb'_append_extractLsb'_eq_extractLsb' (by decide)]
  simp

/-- The fields of a U-format word. -/
theorem fields_uType (imm : BitVec 20) :
    opcode (uType op d imm) = op ∧ rd (uType op d imm) = d ∧ immU (uType op d imm) = imm := by
  refine ⟨?_, ?_, ?_⟩
  all_goals
    simp only [uType, opcode, rd, immU]
    repeat first
      | rw [BitVec.extractLsb'_append_eq_of_add_le (by decide)]
      | rw [BitVec.extractLsb'_append_eq_of_le (by decide)]
    simp

/-- The fields of a J-format word, whose offset is even. -/
theorem fields_jType (imm : BitVec 21) (even : imm.getLsbD 0 = false) :
    opcode (jType op d imm) = op ∧ rd (jType op d imm) = d ∧ immJ (jType op d imm) = imm := by
  -- The bit without a place in the word is known to be zero.
  have last : 0#1 = imm.extractLsb' 0 1 := by
    ext i inside
    obtain rfl : i = 0 := by omega
    simpa [BitVec.getElem_extractLsb'] using even
  refine ⟨?_, ?_, ?_⟩
  all_goals
    simp only [jType, opcode, rd, immJ]
    repeat first
      | rw [BitVec.extractLsb'_append_eq_of_add_le (by decide)]
      | rw [BitVec.extractLsb'_append_eq_of_le (by decide)]
    simp
  -- The pieces of the offset meet again, with the zero at the end.
  rw [last]
  repeat rw [BitVec.extractLsb'_append_extractLsb'_eq_extractLsb' (by decide)]
  simp

end Formats

end Rv32i
