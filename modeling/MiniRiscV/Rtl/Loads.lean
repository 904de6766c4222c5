import MiniRiscV.Lib.Rv32i
import MiniRiscV.Rtl.DataMemory
import MiniRiscV.Rtl.Operands

/-! The values that the five loads write to their registers. -/

namespace MiniRiscV

open ControlLogic ByteStore

/-- The instruction is one of the five loads. -/
def Loads (inst : Word) : Prop :=
  opcode inst = instLoad ∧ (funct3 inst = 0b000#3 ∨ funct3 inst = 0b001#3 ∨
    funct3 inst = 0b010#3 ∨ funct3 inst = 0b100#3 ∨ funct3 inst = 0b101#3)

namespace Core

variable {outer : Word → BitVec 8} {s : Core}

/-- The bytes at the address in the memory stage and behind it. -/
def addressed (s : Core) (j : ℕ) : BitVec 8 := s.mem.byte (s.aluResultO.toNat + j)

/-- A load inside the memory gives its bytes, extended by zeros. -/
theorem loadedWord_eq (load : opcode s.instReg1 = instLoad)
    (inside : s.aluResultO.toNat + accessSize (memSizeO false s.instReg1) - 1 ≤ 63) :
    s.loadedWord outer =
      littleEndian 32 s.addressed (accessSize (memSizeO false s.instReg1)) := by
  -- The instruction is no store, so the memory reads.
  have read : memRwO false s.instReg1 = false := by simp [memRwO, load, instLoad, instStore]
  rw [loadedWord, read]
  exact Mem.dataR_inside (by decide) outer s.mem inside

/--
A load inside the memory writes what RV32I defines, unless it is an `LB` or `LH` of a number with
its top bit set.
-/
theorem registers_of_loads_iff (inv : Decoded s) (loads : Loads s.instReg1)
    (inside : s.aluResultO.toNat + accessSize (memSizeO false s.instReg1) - 1 ≤ 63)
    (instL instL' : Word) :
    ((s.step outer false instL).step outer false instL').registers (rd s.instReg1) =
        Rv32i.loadValue (funct3 s.instReg1) s.addressed ↔
      (funct3 s.instReg1 = 0b000#3 → (s.addressed 0).msb = false) ∧
        (funct3 s.instReg1 = 0b001#3 → (s.addressed 1).msb = false) := by
  obtain ⟨load, kind⟩ := loads
  have notNop : opcode s.instReg1 ≠ instNop := by rw [load]; decide
  have half : (s.addressed 1 ++ s.addressed 0).msb = (s.addressed 1).msb := by
    rw [BitVec.msb_append]
    rfl
  rw [registers_of_load inv load, loadedWord_eq load inside]
  -- The two signed loads have the sizes of the unsigned ones.
  rcases kind with code | code | code | code | code
  · have size : accessSize (memSizeO false s.instReg1) = 1 := by
      simp [memSizeO, notNop, code, memByte, accessSize]
    rw [size, littleEndian_one, code]
    simpa [Rv32i.loadValue] using Rv32i.setWidth_eq_signExtend_iff (by decide) (s.addressed 0)
  · have size : accessSize (memSizeO false s.instReg1) = 2 := by
      simp [memSizeO, notNop, code, memHalf, accessSize]
    rw [size, littleEndian_two, code, ← half]
    simpa [Rv32i.loadValue] using
      Rv32i.setWidth_eq_signExtend_iff (by decide) (s.addressed 1 ++ s.addressed 0)
  · have size : accessSize (memSizeO false s.instReg1) = 4 := by
      simp [memSizeO, notNop, code, memWord, accessSize]
    rw [size, littleEndian_four, code]
    simp [Rv32i.loadValue]
  · have size : accessSize (memSizeO false s.instReg1) = 1 := by
      simp [memSizeO, notNop, code, memByte, accessSize]
    rw [size, littleEndian_one, code]
    simp [Rv32i.loadValue]
  · have size : accessSize (memSizeO false s.instReg1) = 2 := by
      simp [memSizeO, notNop, code, memHalf, accessSize]
    rw [size, littleEndian_two, code]
    simp [Rv32i.loadValue]

end Core

/-- `lw r1, 0(r0)` on the memory as the reset leaves it. -/
theorem Core.registers_of_loads_lw :
    let s := ((Riscv.holding [0x00002083#32]).run (fun _ => 0) (fun _ => 0) 3).core
    ((s.step (fun _ => 0) false 0).step (fun _ => 0) false 0).registers (rd s.instReg1) =
      Rv32i.loadValue (funct3 s.instReg1) s.addressed :=
  (registers_of_loads_iff (Riscv.run_decoded 3) ⟨by decide, by decide⟩ (by decide) 0 0).mpr
    ⟨fun code => absurd code (by decide), fun code => absurd code (by decide)⟩

/-- `lb r1, 0(r0)` and `lh r1, 0(r0)` on that memory load a minus one, and do not write it. -/
theorem Core.not_registers_of_loads_lb :
    let byte := ((Riscv.holding [0x00000083#32]).run (fun _ => 0) (fun _ => 0) 3).core
    let half := ((Riscv.holding [0x00001083#32]).run (fun _ => 0) (fun _ => 0) 3).core
    (Loads byte.instReg1 ∧
        ((byte.step (fun _ => 0) false 0).step (fun _ => 0) false 0).registers 1 = 0xFF#32 ∧
        Rv32i.loadValue (funct3 byte.instReg1) byte.addressed = 0xFFFFFFFF#32) ∧
      Loads half.instReg1 ∧
        ((half.step (fun _ => 0) false 0).step (fun _ => 0) false 0).registers 1 = 0xFFFF#32 ∧
        Rv32i.loadValue (funct3 half.instReg1) half.addressed = 0xFFFFFFFF#32 := by
  -- The zeros above the byte and above the half-word are written as well.
  refine ⟨⟨⟨by decide, by decide⟩, by decide, by decide⟩, ⟨by decide, by decide⟩, ?_, ?_⟩
  · decide
  · decide

end MiniRiscV
