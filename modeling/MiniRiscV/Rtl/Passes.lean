import MiniRiscV.Rtl.Segments

/-! A straight line of words and a jump behind it: what one pass through them does. -/

namespace MiniRiscV

open ControlLogic

variable {outer : Word → BitVec 8} {inst : Word}

/-- A word of a straight line neither branches nor jumps. -/
theorem controls_of_streamed (streamed : Streamed inst) : controls inst = false := by
  -- None of these opcodes is that of a branch or a jump.
  rcases streamed with rfl | is | ⟨is, -⟩ | is | is | is
  · rfl
  all_goals simp [controls, is, instRegreg, instRegimm, instLui, instStore, instLoad, instBranch,
    instJal, instJalr]

/-- The empty word is no hazard for the next one. -/
theorem not_hazard_empty (inst : Word) : ¬ Hazard 0#32 inst := by
  -- It is neither a load nor a jump.
  rintro ⟨load | link, -⟩
  · revert load
    decide
  · revert link
    decide

/-- A value is written to the register of a link. -/
def Arch.linked (a : Arch) (inst link : Word) : Arch where
  registers := a.registers.write (rd inst) link
  mem := a.mem

section Pass

variable {fetch : Word → Word} {t : Trace} {k index : ℕ} {base jal : Word} {body : List Word}

end Pass

end MiniRiscV
