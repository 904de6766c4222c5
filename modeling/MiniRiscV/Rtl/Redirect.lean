import MiniRiscV.Rtl.Run

/-! The loads of the program counter: which instruction asks for them, and what they load. -/

namespace MiniRiscV

open ControlLogic

namespace Core

variable {outer : Word → BitVec 8} {s : Core}

/-- The instruction in execute is a jump or a taken branch. -/
def Transfers (s : Core) : Prop :=
  opcode s.instReg0 = instJal ∨ opcode s.instReg0 = instJalr ∨ s.taken

/-- A transfer selects the write-back bus when it is in write-back. -/
theorem controls_of_transfers (transfers : s.Transfers) : controls s.instReg0 := by
  rcases transfers with jal | jalr | taken
  · simp [controls, jal]
  · simp [controls, jalr]
  · simp [controls, opcode_of_taken taken]

/-- A branch that is not taken leaves zero on the ALU output. -/
theorem resultR_notTaken (branch : opcode s.instReg0 = instBranch) (notTaken : s.taken = false) :
    s.resultR false = 0 := by
  -- Its operation is the constant zero.
  have operation :
      aluOpO false s.instReg0 (s.comp false).brEqO (s.comp false).brLTO = .outZero := by
    rw [aluOpO_branch branch]
    exact if_neg (by simpa [taken] using notTaken)
  simp [resultR, operation, alu, AluOp.code]

/-- For a branch or a jump the bus to the program counter carries the ALU result. -/
theorem wb_of_controls (control : controls s.instReg2) : s.wb false = s.aluO := by
  -- None of the three is a load, so the bus is not that of the data memory.
  simp only [controls, decide_eq_true_eq] at control
  rcases control with is | is | is <;> simp [wb, wbSel1O, is, instBranch, instJal, instJalr,
    instNop, instLoad]

end Core

section Loads

/-- The instruction in execute at cycle `j` selects the write-back bus at cycle `k`. -/
def Causes (states : ℕ → Core) (j k : ℕ) : Prop :=
  (k = j ∧ (states j).taken) ∨ (k = j + 2 ∧ controls (states j).instReg0)

/-- The program counter is loaded only on behalf of a transfer, with its own target, and once. -/
structure RedirectsRight (states : ℕ → Core) (cycle : ℕ) : Prop where
  target : (states (cycle + 1)).pcO ≠ (states cycle).pcO + 4 →
    ∃ j, Causes states j cycle ∧ (states j).Transfers ∧
      (states (cycle + 1)).pcO = (states j).resultR false
  once : (states cycle).Transfers → ∃! k, Causes states cycle k
  /-- The bus carries the value of the instruction that was in execute two cycles before. -/
  own : ∀ k, Causes states cycle k → k = cycle + 2

end Loads

namespace Riscv

variable {n : ℕ} {outer : Word → BitVec 8} {outerInst : BitVec 9 → Word} {start : Riscv n}

/-- An instruction in write-back was in execute two cycles before. -/
theorem run_instReg2 {cycle : ℕ}
    (control : controls (start.run outer outerInst cycle).core.instReg2) :
    ∃ j, cycle = j + 2 := by
  -- In the first two cycles the reset has left an empty word there.
  have empty : ¬ controls 0#32 := by decide
  rcases cycle with _ | _ | j
  · exact absurd control empty
  · exact absurd control empty
  · exact ⟨j, rfl⟩

/-- The next program counter of a run. -/
theorem run_succ_pcO (cycle : ℕ) :
    (start.run outer outerInst (cycle + 1)).core.pcO =
      if (start.run outer outerInst cycle).core.taken ||
          controls (start.run outer outerInst cycle).core.instReg2 then
        (start.run outer outerInst cycle).core.wb false
      else (start.run outer outerInst cycle).core.pcO + 4 :=
  Core.pcR_eq _

/-- A branch or a jump in write-back loads the ALU result that it had in execute. -/
theorem run_pcO_of_controls {j : ℕ}
    (control : controls (start.run outer outerInst j).core.instReg0) :
    (start.run outer outerInst (j + 3)).core.pcO =
      (start.run outer outerInst j).core.resultR false := by
  have later : controls (start.run outer outerInst (j + 2)).core.instReg2 := control
  rw [run_succ_pcO, later, Bool.or_true, if_pos rfl, Core.wb_of_controls later]
  rfl

/-- The loads of a run that the code gets right: all those of jumps, and no others. -/
structure LoadsOnlyJumps (s : Core) : Prop where
  notTaken : s.taken = false
  /-- A branch that was not taken loads a zero, which may be the next address by chance. -/
  wrapped : opcode s.instReg2 = instBranch → s.pcO + 4 = 0

/-- Where only jumps load the program counter, every redirection is right. -/
theorem run_redirectsRight
    (jumps : ∀ cycle, LoadsOnlyJumps (start.run outer outerInst cycle).core) (cycle : ℕ) :
    RedirectsRight (fun k => (start.run outer outerInst k).core) cycle := by
  have noCause : ∀ k, ¬ (start.run outer outerInst k).core.taken := by
    intro k taken
    rw [(jumps k).notTaken] at taken
    cases taken
  -- What an instruction causes comes two cycles later, as no branch is taken.
  have own : ∀ k, Causes (fun k => (start.run outer outerInst k).core) cycle k →
      k = cycle + 2 := by
    rintro k (⟨-, taken⟩ | ⟨same, -⟩)
    · exact absurd taken (noCause cycle)
    · exact same
  refine ⟨fun redirected => ?_, fun transfers => ?_, own⟩
  · -- Only an instruction in write-back selects the bus, and it is a jump.
    rw [run_succ_pcO, (jumps cycle).notTaken, Bool.false_or] at redirected
    by_cases control : controls (start.run outer outerInst cycle).core.instReg2
    · obtain ⟨j, rfl⟩ := run_instReg2 control
      have loaded := run_pcO_of_controls control
      refine ⟨j, .inr ⟨rfl, control⟩, ?_, loaded⟩
      rw [if_pos control, Core.wb_of_controls control] at redirected
      have kinds := control
      simp only [controls, decide_eq_true_eq] at kinds
      -- A branch has loaded a zero, which is then where the fetch went on anyway.
      rcases kinds with branch | jal | jalr
      · have zero := Core.resultR_notTaken (s := (start.run outer outerInst j).core) branch
          (jumps j).notTaken
        exact absurd (zero.trans ((jumps (j + 2)).wrapped branch).symm) redirected
      · exact .inl jal
      · exact .inr (.inl jalr)
    · rw [if_neg control] at redirected
      exact absurd rfl redirected
  · exact ⟨cycle + 2, .inr ⟨rfl, Core.controls_of_transfers transfers⟩, own⟩

/-- Without branches in the program every redirection is right. -/
theorem redirectsRight_of_program (program : ∀ i, opcode (start.tabInst i) ≠ instBranch)
    (outside : ∀ i, opcode (outerInst i) ≠ instBranch) (cycle : ℕ) :
    RedirectsRight (fun k => (start.run outer outerInst k).core) cycle := by
  -- Neither execute nor write-back ever holds a branch.
  refine run_redirectsRight (fun cycle => ?_) cycle
  have words := run_words outer (fun inst => opcode inst ≠ instBranch) (by decide) program outside
    cycle
  refine ⟨?_, fun branch => absurd branch words.2.2.2⟩
  by_contra taken
  exact words.2.1 (Core.opcode_of_taken (Bool.eq_true_of_not_eq_false taken))

/--
A run redirects the fetch as it should exactly when no branch is taken, and a branch that is not
taken leaves write-back only where the incremented program counter is zero.
-/
theorem redirectsRight_iff (start : Riscv n) :
    (∀ cycle, RedirectsRight (fun k => (start.run outer outerInst k).core) cycle) ↔
      ∀ cycle, LoadsOnlyJumps (start.run outer outerInst cycle).core := by
  refine ⟨fun right => ?_, run_redirectsRight⟩
  -- A taken branch selects the bus two cycles before the bus carries its target.
  have noneTaken : ∀ cycle, (start.run outer outerInst cycle).core.taken = false := by
    intro cycle
    by_contra taken
    have own := (right cycle).own cycle (.inl ⟨rfl, Bool.eq_true_of_not_eq_false taken⟩)
    omega
  have noCause : ∀ k, ¬ (start.run outer outerInst k).core.taken := by
    intro k taken
    rw [noneTaken] at taken
    cases taken
  refine fun cycle => ⟨noneTaken cycle, fun branch => ?_⟩
  by_contra nonzero
  have control : controls (start.run outer outerInst cycle).core.instReg2 := by
    simp [controls, branch]
  obtain ⟨j, rfl⟩ := run_instReg2 control
  have inExecute : opcode (start.run outer outerInst j).core.instReg0 = instBranch := branch
  -- The branch was not taken, so it loads a zero, which is the target of nothing.
  have loaded : (start.run outer outerInst (j + 3)).core.pcO = 0 := by
    rw [run_pcO_of_controls control]
    exact Core.resultR_notTaken inExecute (noneTaken j)
  obtain ⟨j', cause, transfers, -⟩ := (right (j + 2)).target (by
    rw [show j + 2 + 1 = j + 3 from rfl, loaded]
    exact fun same => nonzero same.symm)
  -- The only possible cause is the branch itself, which is no transfer.
  rcases cause with ⟨-, taken⟩ | ⟨same, -⟩
  · exact noCause _ taken
  · obtain rfl : j = j' := by omega
    rcases transfers with jal | jalr | taken
    · rw [inExecute] at jal
      exact absurd jal (by decide)
    · rw [inExecute] at jalr
      exact absurd jalr (by decide)
    · exact noCause _ taken

/-- `addi r1, r0, 100`, `nop`, `beq r0, r0, 8`: the branch first loads the hundred. -/
theorem not_redirectsRight_beq :
    ¬ ∀ cycle, RedirectsRight (fun k => ((holding
      [0x06400093#32, 0#32, 0x00000463#32]).run (fun _ => 0) (fun _ => 0) k).core) cycle := by
  intro right
  -- In cycle 4 the branch is in execute, and the bus carries the hundred.
  obtain ⟨j, cause, -, loaded⟩ := (right 4).target (by decide)
  rcases cause with ⟨same, -⟩ | ⟨same, control⟩
  · -- The branch itself is aiming at another address.
    obtain rfl : j = 4 := same.symm
    exact absurd loaded (by decide)
  · obtain rfl : j = 2 := by omega
    exact absurd control (by decide)

end Riscv
end MiniRiscV
