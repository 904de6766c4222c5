import MiniRiscV.Rtl.Supplied

/-! The operands behind a load and the operands of register zero, in every state of a run. -/

namespace MiniRiscV

open ControlLogic

namespace Core

variable {outer : Word → BitVec 8} {s : Core}

/-- The word that the memory stage reads at the address on the ALU output. -/
def loadedWord (outer : Word → BitVec 8) (s : Core) : Word :=
  s.mem.dataR outer (memRwO false s.instReg1) (memSizeO false s.instReg1) s.aluResultO

/-- The instruction in execute reads the destination of a load directly before it. -/
def FollowsLoad (s : Core) : Prop :=
  opcode s.instReg1 = instLoad ∧
    ((readsRs1 s.instReg0 ∧ rs1 s.instReg0 = rd s.instReg1) ∨
      (needsRs2 s.instReg0 ∧ rs2 s.instReg0 = rd s.instReg1))

/-- The operands taken from the destination of a load directly before are the value it loads. -/
structure TakesLoaded (s next : Core) (loaded : Word) : Prop where
  first : readsRs1 s.instReg0 → rs1 s.instReg0 = rd s.instReg1 → s.br1 false = loaded
  second : needsRs2 s.instReg0 → rs2 s.instReg0 = rd s.instReg1 → s.br2 false = loaded
  storeData : opcode s.instReg0 = instStore → rs2 s.instReg0 = rd s.instReg1 →
    next.dataWO = loaded

/-- A load has a result. -/
theorem hasResult_of_load {inst : Word} (load : opcode inst = instLoad) : hasResult inst := by
  -- A load is none of the instructions without a result.
  simp [hasResult, load, instLoad, instBranch, instNop, instStore]

/-- Two edges behind the memory stage, a load has put its word into its register. -/
theorem registers_of_load (inv : Decoded s) (load : opcode s.instReg1 = instLoad)
    (instL instL' : Word) :
    ((s.step outer false instL).step outer false instL').registers (rd s.instReg1) =
      s.loadedWord outer := by
  rw [step_registers (inv.step instL)]
  -- The word is latched by the first edge, and the second one writes it.
  have select : wbSel1O false s.instReg1 = false := by simp [wbSel1O, load]
  have noLink : wbSel2O false s.instReg1 = false := by
    simp [wbSel2O, load, instLoad, instJalr, instJal]
  have bus : (s.step outer false instL).dataDO false = s.loadedWord outer := by
    simp [dataDO, wb, step, loadedWord, select, noLink]
  simp [step, hasResult_of_load load, ← bus]

/--
At distance one the forwarding network supplies the address of the load, not its word.

The operands are right exactly when the memory holds its own address there.
-/
theorem takesLoaded_iff_of_follows (follows : s.FollowsLoad) (instL : Word) :
    s.TakesLoaded (s.step outer false instL) (s.loadedWord outer) ↔
      s.aluResultO = s.loadedWord outer := by
  obtain ⟨load, reads⟩ := follows
  -- Whichever operand names the destination, it comes from the ALU output.
  have near : s.Supplied (rd s.instReg1) s.aluResultO :=
    supplied_aluResultO ⟨hasResult_of_load load, rfl⟩
  constructor
  · intro takes
    exact near.unique ⟨takes.first, takes.second⟩ reads
  · intro same
    have loaded := near.trans fun _ => same
    refine ⟨loaded.first, loaded.second, fun store named => ?_⟩
    -- The store data is the second operand, latched.
    have reads : needsRs2 s.instReg0 := by simp [needsRs2, store]
    exact loaded.second reads named

/-- Register zero holds zero, and so does every operand designated by its index. -/
structure RegisterZero (s : Core) : Prop where
  register : s.registers 0 = 0
  first : readsRs1 s.instReg0 → rs1 s.instReg0 = 0 → s.br1 false = 0
  second : needsRs2 s.instReg0 → rs2 s.instReg0 = 0 → s.br2 false = 0

/-- What older instructions supply under the index zero is zero. -/
structure SuppliesZero (s : Core) : Prop where
  writeBack : hasResult s.instReg2 → rd s.instReg2 = 0 → s.dataDO false = 0
  /-- The ALU output is supplied only to an operand with this index. -/
  forwarded : hasResult s.instReg1 → rd s.instReg1 = 0 →
    (readsRs1 s.instReg0 ∧ rs1 s.instReg0 = 0) ∨ (needsRs2 s.instReg0 ∧ rs2 s.instReg0 = 0) →
    s.aluResultO = 0

/-- With zeros from the older instructions and in the register, the operands are zero. -/
theorem RegisterZero.of_supplies (inv : Decoded s) (register : s.registers 0 = 0)
    (supplies : s.SuppliesZero) : s.RegisterZero := by
  -- One case for each of the three sources.
  have operands : s.Supplied 0 0 := by
    by_cases one : WritesReg s.instReg1 0
    · exact (supplied_aluResultO one).trans fun reads => supplies.forwarded one.1 one.2 reads
    · by_cases two : WritesReg s.instReg2 0
      · exact (supplied_dataDO one two).trans fun _ => supplies.writeBack two.1 two.2
      · exact (supplied_registers inv one two).trans fun _ => register
  exact ⟨register, operands.first, operands.second⟩

/-- An operand with the index zero shows what the instruction before supplies. -/
theorem RegisterZero.forwarded (zero : s.RegisterZero) (writes : hasResult s.instReg1)
    (dest : rd s.instReg1 = 0)
    (reads : (readsRs1 s.instReg0 ∧ rs1 s.instReg0 = 0) ∨
      (needsRs2 s.instReg0 ∧ rs2 s.instReg0 = 0)) : s.aluResultO = 0 :=
  (supplied_aluResultO ⟨writes, dest⟩).unique ⟨zero.first, zero.second⟩ reads

end Core

namespace Riscv

variable {n : ℕ} {outer : Word → BitVec 8} {outerInst : BitVec 9 → Word} {start : Riscv n}

/--
An instruction that follows a load gets the loaded value exactly when it is its own address.

The value loaded is what the register holds behind the write-back of the load.
-/
theorem takesLoaded_iff (start : Riscv n) (cycle : ℕ)
    (follows : (start.run outer outerInst cycle).core.FollowsLoad) :
    (start.run outer outerInst cycle).core.TakesLoaded
        (start.run outer outerInst (cycle + 1)).core
        ((start.run outer outerInst (cycle + 2)).core.registers
          (rd (start.run outer outerInst cycle).core.instReg1)) ↔
      (start.run outer outerInst cycle).core.aluResultO =
        (start.run outer outerInst cycle).core.loadedWord outer := by
  -- The load is in write-back one cycle later, and its register holds the word after another one.
  have loaded : (start.run outer outerInst (cycle + 2)).core.registers
      (rd (start.run outer outerInst cycle).core.instReg1) =
        (start.run outer outerInst cycle).core.loadedWord outer :=
    Core.registers_of_load (run_decoded cycle) follows.1 _ _
  rw [loaded]
  exact Core.takesLoaded_iff_of_follows follows _

/-- `sb r0, 0(r0)`, `lbu r1, 0(r0)`, `add r2, r1, r1`: the byte at the address zero is zero. -/
theorem takesLoaded_ownAddress :
    let start := holding [0x00000023#32, 0x00004083#32, 0x00108133#32]
    (start.run (fun _ => 0) (fun _ => 0) 4).core.TakesLoaded
      (start.run (fun _ => 0) (fun _ => 0) 5).core
      ((start.run (fun _ => 0) (fun _ => 0) 6).core.registers 1) :=
  (takesLoaded_iff (holding [0x00000023#32, 0x00004083#32, 0x00108133#32]) 4
    ⟨by decide, .inl ⟨by decide, by decide⟩⟩).mpr (by decide)

/-- `lw r1, 0(r0)`, `add r2, r1, r1`: the word loaded is all ones, and the operand is zero. -/
theorem not_takesLoaded_reset :
    let start := holding [0x00002083#32, 0x00108133#32]
    (start.run (fun _ => 0) (fun _ => 0) 3).core.FollowsLoad ∧
      ¬ (start.run (fun _ => 0) (fun _ => 0) 3).core.TakesLoaded
        (start.run (fun _ => 0) (fun _ => 0) 4).core
        ((start.run (fun _ => 0) (fun _ => 0) 5).core.registers 1) := by
  -- The memory holds ones after reset, and the address is zero.
  refine ⟨⟨by decide, .inl ⟨by decide, by decide⟩⟩, fun takes => ?_⟩
  exact absurd (takes.first (by decide) (by decide)) (by decide)

/-- As long as only zeros are supplied for register zero, it is zero. -/
theorem run_registerZero
    (supplies : ∀ cycle, (start.run outer outerInst cycle).core.SuppliesZero) (cycle : ℕ) :
    (start.run outer outerInst cycle).core.RegisterZero := by
  refine .of_supplies (run_decoded cycle) ?_ (supplies cycle)
  -- The reset clears the register, and every write to it is of a zero.
  induction cycle with
  | zero => rfl
  | succ cycle ih =>
    rw [run_succ_core, Core.step_registers (run_decoded cycle)]
    split
    · next writes => exact (supplies cycle).writeBack writes.1 writes.2
    · exact ih

/-- A program without a result for register zero keeps it zero. -/
theorem registerZero_of_program
    (program : ∀ i, hasResult (start.tabInst i) → rd (start.tabInst i) ≠ 0)
    (outside : ∀ i, hasResult (outerInst i) → rd (outerInst i) ≠ 0) (cycle : ℕ) :
    (start.run outer outerInst cycle).core.RegisterZero := by
  refine run_registerZero (fun cycle => ?_) cycle
  -- No instruction in flight has such a result, so nothing is supplied at all.
  have words := run_words outer (fun inst => hasResult inst → rd inst ≠ 0)
    (fun writes => absurd writes (by decide)) program outside cycle
  exact ⟨fun writes dest => absurd dest (words.2.2.2 writes),
    fun writes dest => absurd dest (words.2.2.1 writes)⟩

/-- Register zero is zero throughout a run exactly when nothing else is supplied for it. -/
theorem registerZero_iff (start : Riscv n) :
    (∀ cycle, (start.run outer outerInst cycle).core.RegisterZero) ↔
      ∀ cycle, (start.run outer outerInst cycle).core.SuppliesZero := by
  constructor
  · intro zero cycle
    refine ⟨fun writes dest => ?_, (zero cycle).forwarded⟩
    -- What the write-back bus carries is in the register one edge later.
    have next := (zero (cycle + 1)).register
    rwa [run_succ_core, Core.step_registers (run_decoded cycle), if_pos ⟨writes, dest⟩] at next
  · exact run_registerZero

/-- `addi r0, r0, 1`, `addi r1, r0, 0`: the expansion of `li r1, 0` reads a one. -/
theorem not_registerZero_li :
    ¬ ∀ cycle, ((holding [0x00100013#32, 0x00000093#32]).run (fun _ => 0) (fun _ => 0)
      cycle).core.RegisterZero :=
  fun zero => absurd ((zero 3).first (by decide) (by decide)) (by decide)

end Riscv
end MiniRiscV
