import MiniRiscV.Rtl.Run

/-! Where an operand comes from: one lemma for each distance to the instruction that wrote it. -/

namespace MiniRiscV

open ControlLogic

/-- The instruction takes an operand from a register. -/
def ReadsReg (inst : Word) (r : BitVec 5) : Prop :=
  (readsRs1 inst ∧ rs1 inst = r) ∨ (needsRs2 inst ∧ rs2 inst = r)

/-- The instruction writes a register. -/
def WritesReg (inst : Word) (r : BitVec 5) : Prop := hasResult inst ∧ rd inst = r

/-- Whether an instruction writes a register is decided by its opcode and its destination. -/
instance (inst : Word) (r : BitVec 5) : Decidable (WritesReg inst r) :=
  inferInstanceAs (Decidable (_ ∧ _))

namespace Core

variable {s : Core} {r : BitVec 5} {value value' : Word}

/-- The operands of the instruction in execute that name a register have this value. -/
structure Supplied (s : Core) (r : BitVec 5) (value : Word) : Prop where
  first : readsRs1 s.instReg0 → rs1 s.instReg0 = r → s.br1 false = value
  second : needsRs2 s.instReg0 → rs2 s.instReg0 = r → s.br2 false = value

/-- An instruction that reads the register can tell its value. -/
theorem Supplied.unique (one : s.Supplied r value) (other : s.Supplied r value')
    (reads : ReadsReg s.instReg0 r) : value = value' := by
  -- Whichever operand names the register, it has both values.
  rcases reads with ⟨reads, named⟩ | ⟨reads, named⟩
  · exact (one.first reads named).symm.trans (other.first reads named)
  · exact (one.second reads named).symm.trans (other.second reads named)

/-- To an instruction that does not read the register, any value is as good. -/
theorem Supplied.trans (one : s.Supplied r value)
    (same : ReadsReg s.instReg0 r → value = value') : s.Supplied r value' where
  first := fun reads named => (one.first reads named).trans (same (.inl ⟨reads, named⟩))
  second := fun reads named => (one.second reads named).trans (same (.inr ⟨reads, named⟩))

/-- The instruction directly before supplies its ALU result. -/
theorem supplied_aluResultO (writes : WritesReg s.instReg1 r) : s.Supplied r s.aluResultO where
  first := by
    intro reads named
    rw [br1_eq (notNop_of_readsRs1 reads), named]
    exact if_pos writes
  second := by
    intro reads named
    rw [br2_eq reads, named]
    exact if_pos writes

/-- The instruction before the last one supplies what is on the write-back bus. -/
theorem supplied_dataDO (kept : ¬ WritesReg s.instReg1 r) (writes : WritesReg s.instReg2 r) :
    s.Supplied r (s.dataDO false) where
  first := by
    intro reads named
    rw [br1_eq (notNop_of_readsRs1 reads), named]
    exact (if_neg kept).trans (if_pos writes)
  second := by
    intro reads named
    rw [br2_eq reads, named]
    exact (if_neg kept).trans (if_pos writes)

/-- All older instructions are supplied by the register file. -/
theorem supplied_registers (inv : Decoded s) (kept1 : ¬ WritesReg s.instReg1 r)
    (kept2 : ¬ WritesReg s.instReg2 r) : s.Supplied r (s.registers r) where
  first := by
    intro reads named
    -- The register file is read at the delayed address.
    have notNop := notNop_of_readsRs1 reads
    rw [br1_eq notNop, (inv.readAddr0 notNop).1, named]
    exact (if_neg kept1).trans (if_neg kept2)
  second := by
    intro reads named
    rw [br2_eq reads, (inv.readAddr0 (notNop_of_needsRs2 reads)).2, named]
    exact (if_neg kept1).trans (if_neg kept2)

end Core
end MiniRiscV
