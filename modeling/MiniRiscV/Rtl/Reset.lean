import MiniRiscV.Rtl.Run

/-! Resets at any time: the stages stay in step, and nothing older than a reset shows behind it. -/

namespace MiniRiscV

open ControlLogic

namespace Core

variable {outer : Word → BitVec 8} {s : Core}

/-- What the stages keep beside their words belongs to these words, also behind a late reset. -/
structure InStep (s : Core) : Prop extends Decoded s where
  /-- Only an empty word goes without its read addresses. -/
  emptyOrRead : s.instReg0 = 0 ∨ (s.oldAddrAR = rs1 s.instReg0 ∧ s.oldAddrBR = rs2 s.instReg0)

namespace InStep

/-- A reset edge empties the stages. -/
theorem reset (outer : Word → BitVec 8) (s : Core) (instL : Word) :
    InStep (s.step outer true instL) where
  toDecoded := .reset outer s instL
  emptyOrRead := .inl rfl

/-- Every edge, with or without a reset, keeps the stages in step. -/
theorem step (inv : InStep s) (rst : Bool) (instL : Word) : InStep (s.step outer rst instL) := by
  cases rst with
  | true => exact .reset outer s instL
  | false => exact { toDecoded := inv.toDecoded.step instL, emptyOrRead := .inr ⟨rfl, rfl⟩ }

/-- A register that is written is the destination of the instruction in write-back. -/
theorem step_registers (inv : InStep s) (instL : Word) :
    (s.step outer false instL).registers =
      s.registers.clockedWrite (regWEnO false s.instReg2) (rd s.instReg2) (s.dataDO false) := by
  rw [← inv.addrD2]
  rfl

end InStep

/-- The core on a stream of resets and of words on the fetch bus. -/
def runOn (outer : Word → BitVec 8) (inputs : ℕ → Bool × Word) (start : Core) (cycle : ℕ) : Core :=
  Clocked.run (fun input s => s.step outer input.1 input.2) inputs start cycle

/--
Behind a first reset the delay chains stay in step with the instructions, whatever comes.

The words on the fetch bus are arbitrary, and so are the resets that follow.
-/
theorem runOn_inStep (outer : Word → BitVec 8) (inputs : ℕ → Bool × Word) (start : Core)
    {k cycle : ℕ} (pulse : (inputs k).1 = true) (later : k < cycle) :
    let s := runOn outer inputs start cycle
    InStep s ∧ ∀ instL, (s.step outer false instL).registers =
      s.registers.clockedWrite (regWEnO false s.instReg2) (rd s.instReg2) (s.dataDO false) := by
  intro s
  -- The first reset establishes the invariant, and every later edge keeps it.
  have inStep : InStep s := by
    refine Clocked.run_established InStep (fun state => ?_) (fun input state inv => ?_) later
    · rw [pulse]
      exact .reset outer state (inputs k).2
    · exact inv.step input.1 input.2
  exact ⟨inStep, inStep.step_registers⟩

/-- A second reset while `lw r1, 4(r2)` is fetched over and over again. -/
theorem runOn_inStep_pulses :
    InStep (runOn (fun _ => 0) (fun cycle => (cycle = 0 ∨ cycle = 3, 0x00412083)) default 6) :=
  (runOn_inStep (fun _ => 0) (fun cycle => (cycle = 0 ∨ cycle = 3, 0x00412083)) default
    (k := 0) (by decide) (by decide)).1

/-- Nothing is in the stages behind execute, and all registers are zero. -/
structure Idle (s : Core) : Prop where
  instReg0 : s.instReg0 = 0
  instReg1 : s.instReg1 = 0
  registers : s.registers = fun _ => 0

/-- The core with other contents in the registers that have no reset. -/
def withLeftovers (s : Core) (oldAddrAR oldAddrBR : BitVec 5) (dataWO : Word) : Core :=
  { s with oldAddrAR, oldAddrBR, dataWO }

/-- An idle core has zeros for operands. -/
theorem Idle.operands (idle : Idle s) (rst : Bool) : s.br1 rst = 0 ∧ s.br2 rst = 0 := by
  -- Behind an empty word both operands come from the register file.
  have empty : opcode 0#32 = instNop := by decide
  simp [br1, br2, a1SelO, b1SelO, idle.instReg0, idle.registers, empty]

/-- An idle core does not look at what has no reset. -/
theorem Idle.step_withLeftovers (idle : Idle s) (oldAddrAR oldAddrBR : BitVec 5) (dataWO : Word)
    (rst : Bool) (instL : Word) :
    (s.withLeftovers oldAddrAR oldAddrBR dataWO).step outer rst instL =
      s.step outer rst instL := by
  -- With other leftovers the core is idle as well, so its operands are the same.
  have idle' : Idle (s.withLeftovers oldAddrAR oldAddrBR dataWO) :=
    ⟨idle.instReg0, idle.instReg1, idle.registers⟩
  have first := (idle'.operands rst).1.trans (idle.operands rst).1.symm
  have second := (idle'.operands rst).2.trans (idle.operands rst).2.symm
  have result : (s.withLeftovers oldAddrAR oldAddrBR dataWO).resultR rst = s.resultR rst := by
    simp only [resultR, comp, reg1O, reg2O, first, second]
    rfl
  have next : (s.withLeftovers oldAddrAR oldAddrBR dataWO).pcR rst = s.pcR rst := by
    simp only [pcR, comp, first, second]
    rfl
  -- The word in the memory stage is no store.
  have noStore : memRwO rst s.instReg1 = false := by
    rw [idle.instReg1]
    cases rst <;> decide
  have bus : (s.withLeftovers oldAddrAR oldAddrBR dataWO).dataDO rst = s.dataDO rst := rfl
  simp only [step, result, next, second, bus]
  simp [withLeftovers, noStore]

end Core

namespace Riscv

variable {n : ℕ} {outer : Word → BitVec 8} {outerInst : BitVec 9 → Word} {s s' : Riscv n}

/-- What is seen of the processor while `rst` is on its wire. -/
structure SameOutputs (rst : Bool) (s s' : Riscv n) : Prop where
  pcO : s.core.pcO = s'.core.pcO
  instOut : s.instOut = s'.instOut
  registers : s.core.registers = s'.core.registers
  mem : s.core.mem = s'.core.mem
  aluResultO : s.core.aluResultO = s'.core.aluResultO
  dataO : s.core.dataO = s'.core.dataO
  aluO : s.core.aluO = s'.core.aluO
  dataDO : s.core.dataDO rst = s'.core.dataDO rst

/-- Two states that differ at most in leftovers, and then have an idle core. -/
def SameButLeftovers (s s' : Riscv n) : Prop :=
  s' = s ∨ (s.core.Idle ∧ ∃ oldAddrAR oldAddrBR dataWO,
    s' = { s with core := s.core.withLeftovers oldAddrAR oldAddrBR dataWO })

/-- A reset edge leaves nothing but leftovers of two states with the same program. -/
theorem sameButLeftovers_of_reset (program : s.tabInst = s'.tabInst) :
    SameButLeftovers (s.step outer outerInst true) (s'.step outer outerInst true) := by
  refine .inr ⟨⟨rfl, rfl, rfl⟩, rs1 s'.instOut, rs2 s'.instOut, s'.core.br2 true, ?_⟩
  simp [step, program, Core.step, Core.withLeftovers]

/-- The leftovers are gone behind the next edge. -/
theorem SameButLeftovers.step (same : SameButLeftovers s s') (rst : Bool) :
    SameButLeftovers (s.step outer outerInst rst) (s'.step outer outerInst rst) := by
  -- A step of an idle core does not read what was left over.
  rcases same with rfl | ⟨idle, oldAddrAR, oldAddrBR, dataWO, rfl⟩
  · exact .inl rfl
  · left
    simp only [Riscv.step, idle.step_withLeftovers]
    rfl

/-- Leftovers are not seen. -/
theorem SameButLeftovers.sameOutputs (same : SameButLeftovers s s') (rst : Bool) :
    SameOutputs rst s s' := by
  rcases same with rfl | ⟨-, oldAddrAR, oldAddrBR, dataWO, rfl⟩
  · exact ⟨rfl, rfl, rfl, rfl, rfl, rfl, rfl, rfl⟩
  · exact ⟨rfl, rfl, rfl, rfl, rfl, rfl, rfl, rfl⟩

/--
A reset forgets the past.

From two states with the same program, whatever else they hold, one reset edge and then any common
sequence of resets lead through the same outputs.
-/
theorem reset_forgets (outer : Word → BitVec 8) (outerInst : BitVec 9 → Word)
    {start start' : Riscv n} (program : start.tabInst = start'.tabInst) (rsts : ℕ → Bool)
    (cycle : ℕ) :
    SameOutputs (rsts cycle)
      (Clocked.run (step outer outerInst) rsts (start.step outer outerInst true) cycle)
      (Clocked.run (step outer outerInst) rsts (start'.step outer outerInst true) cycle) := by
  -- Behind the reset edge the two states differ in leftovers, which no edge brings back.
  have same : SameButLeftovers
      (Clocked.run (step outer outerInst) rsts (start.step outer outerInst true) cycle)
      (Clocked.run (step outer outerInst) rsts (start'.step outer outerInst true) cycle) := by
    apply Clocked.run_related SameButLeftovers (sameButLeftovers_of_reset program)
    intro rst s s' same
    exact same.step rst
  exact same.sameOutputs (rsts cycle)

/-- Two processors with an empty program, of which one holds ones in its read addresses. -/
theorem reset_forgets_holding :
    SameOutputs false
      (Clocked.run (step (fun _ => 0) (fun _ => 0)) (fun cycle => cycle = 2)
        ((holding []).step (fun _ => 0) (fun _ => 0) true) 4)
      (Clocked.run (step (fun _ => 0) (fun _ => 0)) (fun cycle => cycle = 2)
        ({ holding [] with
            core := (default : Core).withLeftovers 31 31 1 }.step (fun _ => 0) (fun _ => 0) true)
        4) :=
  reset_forgets (fun _ => 0) (fun _ => 0) rfl (fun cycle => cycle = 2) 4

end Riscv
end MiniRiscV
