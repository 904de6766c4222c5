import MiniRiscV.Lib.Rv32i

/-! The RV32I instructions that go on to the next one: their words, and their effect. -/

namespace Rv32i

/-- The five loads. -/
inductive Load where
  | lb | lh | lw | lbu | lhu
  deriving DecidableEq

def Load.funct3 : Load → BitVec 3
  | lb => 0b000#3
  | lh => 0b001#3
  | lw => 0b010#3
  | lbu => 0b100#3
  | lhu => 0b101#3

/-- The number of bytes of a load. -/
def Load.size : Load → ℕ
  | lb | lbu => 1
  | lh | lhu => 2
  | lw => 4

/-- The three stores. -/
inductive Store where
  | sb | sh | sw
  deriving DecidableEq

def Store.funct3 : Store → BitVec 3
  | sb => 0b000#3
  | sh => 0b001#3
  | sw => 0b010#3

/-- The number of bytes of a store. -/
def Store.size : Store → ℕ
  | sb => 1
  | sh => 2
  | sw => 4

/-- The two instructions that compare their operands for a result. -/
inductive SetLess where
  | slt | sltu
  deriving DecidableEq

def SetLess.funct3 : SetLess → BitVec 3
  | slt => 0b010#3
  | sltu => 0b011#3

/-- An instruction behind which the next one in the memory is executed. -/
inductive Instr where
  | register (op : Operation) (rd rs1 rs2 : BitVec 5)
  /-- The immediate of a shift is its amount. -/
  | immediate (op : Operation) (rd rs1 : BitVec 5) (imm : BitVec 12)
  | compare (op : SetLess) (rd rs1 rs2 : BitVec 5)
  | compareImm (op : SetLess) (rd rs1 : BitVec 5) (imm : BitVec 12)
  | lui (rd : BitVec 5) (imm : BitVec 20)
  | load (op : Load) (rd rs1 : BitVec 5) (imm : BitVec 12)
  | store (op : Store) (rs1 rs2 : BitVec 5) (imm : BitVec 12)
  deriving DecidableEq

/-- The word of an instruction. -/
def Instr.encode : Instr → BitVec 32
  | .register op rd rs1 rs2 => rType 0b0110011#7 rd rs1 rs2 op.funct3 op.funct7
  | .immediate op rd rs1 imm =>
    if op.shifts then rType 0b0010011#7 rd rs1 (imm.extractLsb' 0 5) op.funct3 op.funct7
    else iType 0b0010011#7 rd rs1 op.funct3 imm
  | .compare op rd rs1 rs2 => rType 0b0110011#7 rd rs1 rs2 op.funct3 0
  | .compareImm op rd rs1 imm => iType 0b0010011#7 rd rs1 op.funct3 imm
  | .lui rd imm => uType 0b0110111#7 rd imm
  | .load op rd rs1 imm => iType 0b0000011#7 rd rs1 op.funct3 imm
  | .store op rs1 rs2 imm => sType 0b0100011#7 rs1 rs2 op.funct3 imm

/-- What a program without transfers computes with: the registers and the bytes of the memory. -/
structure Machine where
  regs : BitVec 5 → BitVec 32
  mem : BitVec 32 → BitVec 8
  /-- Register zero holds zero. -/
  zero : regs 0 = 0

namespace Machine

variable (m : Machine)

/-- The bytes at an address and behind. -/
def bytes (addr : BitVec 32) (j : ℕ) : BitVec 8 := m.mem (addr + BitVec.ofNat 32 j)

/-- The address of an access, its offset being signed. -/
def address (rs1 : BitVec 5) (imm : BitVec 12) : BitVec 32 := m.regs rs1 + imm.signExtend 32

/-- The register that an instruction assigns, and its value. -/
def assigned : Instr → Option (BitVec 5 × BitVec 32)
  | .register op rd rs1 rs2 => some (rd, op.result (m.regs rs1) (m.regs rs2))
  | .immediate op rd rs1 imm => some (rd, op.result (m.regs rs1) (imm.signExtend 32))
  | .compare op rd rs1 rs2 => some (rd, setLess op.funct3 (m.regs rs1) (m.regs rs2))
  | .compareImm op rd rs1 imm => some (rd, setLess op.funct3 (m.regs rs1) (imm.signExtend 32))
  | .lui rd imm => some (rd, imm.setWidth 32 <<< 12)
  | .load op rd rs1 imm => some (rd, loadValue op.funct3 (m.bytes (m.address rs1 imm)))
  | .store _ _ _ _ => none

/-- The memory behind an instruction. -/
def stored : Instr → BitVec 32 → BitVec 8
  | .store op rs1 rs2 imm => fun a =>
    let j := (a - m.address rs1 imm).toNat
    if j < op.size then (m.regs rs2).extractLsb' (8 * j) 8 else m.mem a
  | _ => m.mem

/-- Assign a register, other than register zero. -/
def write (target : Option (BitVec 5 × BitVec 32)) (r : BitVec 5) : BitVec 32 :=
  match target with
  | some (rd, value) => if r = rd ∧ rd ≠ 0 then value else m.regs r
  | none => m.regs r

/-- Register zero keeps its value. -/
theorem write_zero (target : Option (BitVec 5 × BitVec 32)) : m.write target 0 = 0 := by
  -- The register that is assigned is another one.
  unfold write
  split
  · rw [if_neg fun same => same.2 same.1.symm]
    exact m.zero
  · exact m.zero

/-- The state with another value in a register. -/
def setReg (r : BitVec 5) (value : BitVec 32) : Machine where
  regs := m.write (some (r, value))
  mem := m.mem
  zero := m.write_zero _

/-- The effect of an instruction. -/
def exec (i : Instr) : Machine where
  regs := m.write (m.assigned i)
  mem := m.stored i
  zero := m.write_zero _

/-- The effect of some instructions, one after the other. -/
def execAll (program : List Instr) : Machine := program.foldl exec m

end Machine

end Rv32i
