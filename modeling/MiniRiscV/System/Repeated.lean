import MiniRiscV.Asm.Concatenation
import MiniRiscV.System.Compiled

/-! What the jump that closes every program does: the program is executed again and again. -/

namespace MiniRiscV

open ControlLogic
open Rv32i (Instr Machine)

section Passes

variable {n : ℕ} (outer : Word → BitVec 8) (outerInst : BitVec 9 → Word) {start : Riscv n}
  {body : List Word}

/-- A link in another register than zero is that of the machine. -/
theorem Represents.linked {a : Arch} {m : Machine} (rep : Represents a m) {inst link : Word}
    {r : BitVec 5} (target : rd inst = r) (notZero : r ≠ 0) :
    Represents (a.linked inst link) (m.setReg r link) where
  registers r' := by
    change Registers.write _ _ _ r' = m.write (some (r, link)) r'
    simp only [Registers.write, target, Machine.write, rep.registers, ne_eq, notZero,
      not_false_eq_true, and_true]
  mem := rep.mem

end Passes

/-- What a pass behind the first one executes is supported in any state, and counts. -/
private theorem counts (m : Machine) : SupportedAll m [some (.immediate .add 1 1 1)] ∧
    (m.execAll [.immediate .add 1 1 1]).regs 1 = m.regs 1 + 1 :=
  ⟨⟨⟨⟨by decide, by simp⟩, by simp [Machine.assigned]⟩, trivial⟩, rfl⟩

end MiniRiscV
