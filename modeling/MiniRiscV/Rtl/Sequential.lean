import MiniRiscV.Rtl.Riscv

/-! Executing instructions one at a time, with the combinational blocks of the pipeline. -/

namespace MiniRiscV

open ControlLogic

/-- What a program can observe between two instructions: the registers and the data memory. -/
structure Arch where
  registers : Registers
  mem : Mem 63

namespace Arch

/-- The registers and the memory as the reset leaves them. -/
def reset : Arch where
  registers := fun _ => 0
  mem := Mem.reset

variable (outer : Word → BitVec 8)

/-- The ALU result of an instruction whose two registers hold `a` and `b`. -/
def resultOf (inst a b : Word) : Word :=
  -- The comparison is made on the registers, whatever the second ALU operand turns out to be.
  let comp := branchComp a b (brUnO false inst)
  alu (aluOpO false inst comp.brEqO comp.brLTO).code a
    (if b2SelO false inst then immGen (immSelO false inst).code inst else b)

/-- The ALU result of an instruction in this state. -/
def result (s : Arch) (inst : Word) : Word :=
  resultOf inst (s.registers (rs1 inst)) (s.registers (rs2 inst))

/-- The word an instruction reads from the data memory. -/
def loaded (s : Arch) (inst : Word) : Word :=
  s.mem.dataR outer (memRwO false inst) (memSizeO false inst) (s.result inst)

/-- The value an instruction puts on the write-back bus. -/
def writeBack (s : Arch) (inst : Word) : Word :=
  if wbSel1O false inst then s.result inst else s.loaded outer inst

/-- The state after one instruction, executed alone from decode to write-back. -/
def exec (s : Arch) (inst : Word) : Arch where
  registers := s.registers.clockedWrite (regWEnO false inst) (rd inst) (s.writeBack outer inst)
  mem :=
    if memRwO false inst then
      s.mem.clockedWrite (memSizeO false inst) (s.registers (rs2 inst)) (s.result inst)
    else s.mem

/-- The state after a list of instructions, executed one at a time in order. -/
def execAll (s : Arch) (insts : List Word) : Arch := insts.foldl (exec outer) s

/-- The state before the instruction numbered `count` of an unending stream. -/
def execUpTo (s : Arch) (insts : ℕ → Word) : ℕ → Arch
  | 0 => s
  | count + 1 => (execUpTo s insts count).exec outer (insts count)

/-- An older instruction is compared for forwarding exactly when it writes a register. -/
theorem regWEnO_eq_hasResult (inst : Word) : regWEnO false inst = hasResult inst := by
  -- The two tests list the same three opcodes in different orders.
  simp only [regWEnO, hasResult, Bool.not_false, Bool.true_and]
  by_cases nop : opcode inst = instNop <;> by_cases branch : opcode inst = instBranch <;>
    by_cases store : opcode inst = instStore <;> simp [nop, branch, store]

/-- One instruction changes at most its destination register. -/
theorem exec_registers (s : Arch) (inst : Word) (r : BitVec 5) :
    (s.exec outer inst).registers r =
      if hasResult inst ∧ rd inst = r then s.writeBack outer inst else s.registers r := by
  -- The write enable and the destination address are the two halves of the condition.
  simp only [exec, Registers.clockedWrite, regWEnO_eq_hasResult]
  by_cases writes : hasResult inst
  · by_cases same : r = rd inst
    · simp [writes, Registers.write, same]
    · simp [writes, Registers.write, same, Ne.symm same]
  · simp [writes]

/-- The word zero is an instruction without effect. -/
@[simp] theorem exec_zero (s : Arch) : s.exec outer 0#32 = s := by
  -- Its opcode is the no-operation, for which both write enables are off.
  have noWrite : regWEnO false 0#32 = false := by decide
  have noStore : memRwO false 0#32 = false := by decide
  simp [exec, Registers.clockedWrite, noWrite, noStore]

/-- The word zero leaves zero on the ALU output. -/
theorem result_zero (s : Arch) : s.result 0#32 = 0#32 := by
  -- Whatever the comparison answers, the operation is the constant zero.
  have zero : ∀ eq lt, (aluOpO false 0#32 eq lt).code = AluOp.outZero.code := by decide
  simp only [result, resultOf, zero]
  simp [alu, AluOp.code]

end Arch
end MiniRiscV
