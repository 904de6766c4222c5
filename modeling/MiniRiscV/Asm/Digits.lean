import MiniRiscV.Asm.Write
import MiniRiscV.Lib.BinaryText
import MiniRiscV.Lib.Rv32i

/-! The digits printed for each field are those of a field of the instruction word. -/

namespace MiniRiscV

/-- `print_binary` writes the low bits of its argument. -/
theorem printBinary_eq (n : BitVec 32) {size : ℕ} (fits : size ≤ 32) :
    printBinary n size = (n.setWidth size).binaryText := by
  refine List.ext_getElem (by simp [printBinary]) fun i inside _ => ?_
  have small : i < size := by simpa [printBinary] using inside
  -- The shift brings the wanted bit to the bottom, where the mask isolates it.
  have bit : (n.sshiftRight (size - 1 - i) &&& 1#32 ≠ 0#32) ↔
      (n.setWidth size).getMsbD i = true := by
    have shifted : (n.sshiftRight (size - 1 - i)).getLsbD 0 = n.getLsbD (size - 1 - i) := by
      rw [BitVec.getLsbD_sshiftRight]
      simp [show size - 1 - i < 32 by omega]
    rw [BitVec.and_one_eq_setWidth_ofBool_getLsbD, shifted, BitVec.getMsbD_eq_getLsbD,
      BitVec.getLsbD_setWidth]
    cases n.getLsbD (size - 1 - i) <;> simp [small]
    omega
  simp only [printBinary, BitVec.getElem_binaryText, List.getElem_map, List.getElem_reverse,
    List.getElem_range, List.length_range, bit]

/-- The low bits of an arithmetic shift are a slice of the shifted word. -/
theorem setWidth_sshiftRight (n : BitVec 32) {k size : ℕ} (fits : k + size ≤ 32) :
    (n.sshiftRight k).setWidth size = n.extractLsb' k size := by
  ext i inside
  rw [BitVec.getElem_setWidth, BitVec.getLsbD_sshiftRight]
  simp [show ¬ 32 ≤ i by omega, show k + i < 32 by omega]

/-- A single masked bit, brought down to the lowest place. -/
theorem sshiftRight_bit (n : BitVec 32) {k : ℕ} (fits : k < 31) :
    (n &&& 1#32 <<< k).sshiftRight k = if n.getLsbD k then 1#32 else 0#32 := by
  -- Above the lowest place the mask has left nothing, the sign included.
  refine BitVec.eq_of_getLsbD_eq fun i inside => ?_
  rw [BitVec.getLsbD_sshiftRight, BitVec.msb_eq_getLsbD_last]
  by_cases lowest : i = 0
  · have position : k < 32 := by omega
    cases bit : n.getLsbD k <;> simpa [lowest, position] using bit
  · have zero : ((if n.getLsbD k then 1#32 else 0#32).getLsbD i) = false := by
      cases n.getLsbD k <;> simp [lowest]
    rw [zero]
    simp [lowest, show ¬ 31 - k = 0 by omega]

/-- `fprintf` of a single masked bit, brought down to the lowest place, writes that bit. -/
theorem printDecimal_bit (n : BitVec 32) {mask : BitVec 32} {k : ℕ} (fits : k < 31)
    (single : mask = 1#32 <<< k) :
    printDecimal ((n &&& mask).sshiftRight k) = (n.extractLsb' k 1).binaryText := by
  -- The single bit left is printed as its digit.
  rw [single, sshiftRight_bit n fits]
  cases bit : n.getLsbD k
  · have zero : n.extractLsb' k 1 = 0#1 := by
      ext i inside
      simpa [show i = 0 by omega] using bit
    rw [zero]
    decide
  · have one : n.extractLsb' k 1 = 1#1 := by
      ext i inside
      simpa [show i = 0 by omega] using bit
    rw [one]
    decide

/-- The sign of a jump is written as zero: its mask keeps one bit, which the shift pushes out. -/
theorem printDecimal_jalSign (n : BitVec 32) :
    printDecimal ((n &&& 0x40000#32).sshiftRight 20) = (0#1).binaryText := by
  -- The mask keeps bit 18, and the shift drops it.
  have mask : ∀ i < 32, (0x40000#32).getLsbD i = decide (i = 18) := by decide
  have lost : (n &&& 0x40000#32).sshiftRight 20 = 0#32 := by
    refine BitVec.eq_of_getLsbD_eq fun i inside => ?_
    rw [BitVec.getLsbD_sshiftRight, BitVec.msb_eq_getLsbD_last, BitVec.getLsbD_and,
      BitVec.getLsbD_and, mask (32 - 1) (by decide)]
    by_cases small : 20 + i < 32
    · rw [mask (20 + i) small]
      simp [show ¬ 20 + i = 18 by omega]
    · simp [small]
  rw [lost]
  decide

/-- The code of a register is its number in five digits. -/
theorem reg2code_some (r : Fin 32) :
    reg2code (some r) = some (BitVec.ofNat 5 r).binaryText := by
  revert r
  decide

/-- No code is known for the undefined register. -/
@[simp] theorem reg2code_none : reg2code none = none := rfl

end MiniRiscV

namespace Rv32i

open BitVec

variable (op : BitVec 7) (d s1 s2 : BitVec 5) (f3 : BitVec 3) (f7 : BitVec 7)

/-- The digits of a word of the R format are those of its fields. -/
theorem binaryText_rType : (rType op d s1 s2 f3 f7).binaryText =
    f7.binaryText ++ s2.binaryText ++ s1.binaryText ++ f3.binaryText ++ d.binaryText ++
      op.binaryText := by
  rw [rType]
  repeat rw [binaryText_append]

/-- The same for the I format, with the twelve digits of the immediate in front. -/
theorem binaryText_iType (imm : BitVec 12) : (iType op d s1 f3 imm).binaryText =
    imm.binaryText ++ s1.binaryText ++ f3.binaryText ++ d.binaryText ++ op.binaryText := by
  rw [iType]
  repeat rw [binaryText_append]

/-- In the S format the immediate is cut in two. -/
theorem binaryText_sType (imm : BitVec 12) : (sType op s1 s2 f3 imm).binaryText =
    (imm.extractLsb' 5 7).binaryText ++ s2.binaryText ++ s1.binaryText ++ f3.binaryText ++
      (imm.extractLsb' 0 5).binaryText ++ op.binaryText := by
  rw [sType]
  repeat rw [binaryText_append]

/-- In the B format it is cut in four, and its lowest bit is left out. -/
theorem binaryText_bType (imm : BitVec 13) : (bType op s1 s2 f3 imm).binaryText =
    (imm.extractLsb' 12 1).binaryText ++ (imm.extractLsb' 5 6).binaryText ++ s2.binaryText ++
      s1.binaryText ++ f3.binaryText ++ (imm.extractLsb' 1 4).binaryText ++
      (imm.extractLsb' 11 1).binaryText ++ op.binaryText := by
  rw [bType]
  repeat rw [binaryText_append]

/-- In the U format the immediate has twenty digits. -/
theorem binaryText_uType (imm : BitVec 20) : (uType op d imm).binaryText =
    imm.binaryText ++ d.binaryText ++ op.binaryText := by
  rw [uType]
  repeat rw [binaryText_append]

/-- In the J format it is cut in four, in another order than in the B format. -/
theorem binaryText_jType (imm : BitVec 21) : (jType op d imm).binaryText =
    (imm.extractLsb' 20 1).binaryText ++ (imm.extractLsb' 1 10).binaryText ++
      (imm.extractLsb' 11 1).binaryText ++ (imm.extractLsb' 12 8).binaryText ++ d.binaryText ++
      op.binaryText := by
  rw [jType]
  repeat rw [binaryText_append]

end Rv32i
