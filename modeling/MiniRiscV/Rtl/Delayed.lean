import MiniRiscV.Rtl.Segments

/-! The processor as a machine that executes one instruction after the other, with delayed jumps. -/

namespace MiniRiscV

open ControlLogic

/-- An instruction that is executed already, and may still change the program counter. -/
structure Slot where
  inst : Word
  /-- The value that it moves to the write-back stage. -/
  moved : Word
  /-- The program counter takes this value when the instruction leaves the write-back stage. -/
  redirects : Bool

/-- The program counter behind this one. -/
def Slot.next (slot : Slot) (pc : Word) : Word := if slot.redirects then slot.moved else pc + 4

/-- The state between two instructions, with the last four by the stages that they are in. -/
structure Delayed where
  /-- The address of the next instruction. -/
  pc : Word
  arch : Arch
  fetched : Slot
  execute : Slot
  memory : Slot
  writeBack : Slot

namespace Delayed

variable (outer : Word → BitVec 8) (fetch : Word → Word)

/-- The state behind the reset. -/
def reset : Delayed where
  pc := 0
  arch := Arch.reset
  fetched := ⟨0, Arch.reset.moved outer 0 0, false⟩
  execute := ⟨0, Arch.reset.moved outer 0 0, false⟩
  memory := ⟨0, Arch.reset.moved outer 0 0, false⟩
  writeBack := ⟨0, Arch.reset.moved outer 0 0, false⟩

variable (d : Delayed)

/-- The address behind the next one. -/
def next : Word := d.writeBack.next d.pc

/-- The program counter that is an operand, two addresses on. -/
def operandPc : Word := d.memory.next d.next

/-- The address that is linked, the one behind four more instructions. -/
def link : Word := d.fetched.next (d.execute.next d.operandPc) + 4

/-- The result of the next instruction, whose operands are the registers as they are. -/
def result (inst : Word) : Word :=
  Arch.resultAt inst d.operandPc (d.arch.registers (rs1 inst)) (d.arch.registers (rs2 inst))

/-- The next instruction is a branch whose condition holds. -/
def taken (inst : Word) : Bool :=
  let comp := branchComp (d.arch.registers (rs1 inst)) (d.arch.registers (rs2 inst))
    (brUnO false inst)
  branchTaken inst comp.brEqO comp.brLTO

/-- The effect of the next instruction. -/
def step : Delayed where
  pc := d.next
  arch := d.arch.execAt outer (fetch d.pc) (d.result (fetch d.pc))
    (d.arch.registers (rs2 (fetch d.pc))) d.link
  fetched := ⟨fetch d.pc, d.arch.moved outer (fetch d.pc) (d.result (fetch d.pc)),
    controls (fetch d.pc)⟩
  execute := d.fetched
  -- A taken branch redirects the program counter to what the second instruction before it moves.
  memory := { d.execute with redirects := d.taken (fetch d.pc) || d.execute.redirects }
  writeBack := d.memory

/-- The state behind some instructions. -/
def run : ℕ → Delayed
  | 0 => reset outer
  | count + 1 => (run count).step outer fetch

/--
The next instruction finds its operands written, and it is executed as the registers say.

A value that the instruction before it loads or links is still missing.
-/
structure Allowed : Prop where
  /-- A comparison with an immediate depends on a register that it does not name. -/
  plain : opcode (fetch d.pc) = instRegimm →
    funct3 (fetch d.pc) ≠ 0b010#3 ∧ funct3 (fetch d.pc) ≠ 0b011#3
  written : opcode d.fetched.inst = instLoad ∨ wbSel2O false d.fetched.inst →
    (readsRs1 (fetch d.pc) → rs1 (fetch d.pc) ≠ rd d.fetched.inst) ∧
      (needsRs2 (fetch d.pc) → rs2 (fetch d.pc) ≠ rd d.fetched.inst)
  /-- A branch behind a jump redirects the program counter that is to be linked. -/
  linked : wbSel2O false (fetch d.pc) → opcode (fetch d.next) ≠ instBranch

instance : Decidable (d.Allowed fetch) :=
  decidable_of_iff (_ ∧ _ ∧ _)
    ⟨fun ⟨plain, written, linked⟩ => ⟨plain, written, linked⟩,
      fun ⟨plain, written, linked⟩ => ⟨plain, written, linked⟩⟩

end Delayed

section Operands

variable {inst pc a b a' b' : Word}

/-- The result depends on the registers that are read. -/
theorem Arch.resultAt_congr
    (plain : opcode inst = instRegimm → funct3 inst ≠ 0b010#3 ∧ funct3 inst ≠ 0b011#3)
    (first : readsRs1 inst → a = a') (second : needsRs2 inst → b = b') :
    resultAt inst pc a b = resultAt inst pc a' b' := by
  -- The kind of the instruction decides which of the two registers it reads.
  by_cases reads : readsRs1 inst
  · rw [first reads]
    by_cases needs : needsRs2 inst
    · rw [second needs]
    · -- The immediate is the second operand, and the comparison does not choose the operation.
      have kinds : opcode inst = instRegimm ∨ opcode inst = instLoad ∨ opcode inst = instJalr := by
        simp only [readsRs1, needsRs2, decide_eq_true_eq] at reads needs
        tauto
      -- Each of the three has its own decoding of the operation.
      rcases kinds with is | is | is
      · obtain ⟨notSlt, notSltu⟩ := plain is
        simp [resultAt, aluOpO, b2SelO, is, notSlt, notSltu, instRegimm, instRegreg, instNop]
      · simp [resultAt, aluOpO, b2SelO, is, instRegimm, instRegreg, instNop, instLoad]
      · simp [resultAt, aluOpO, b2SelO, is, instRegimm, instRegreg, instNop, instLoad, instStore,
          instBranch, instJalr]
  · -- Where no register is read, the operands are the program counter and the immediate.
    simp only [readsRs1, decide_eq_true_eq, not_or] at reads
    obtain ⟨notRegreg, notRegimm, notLoad, notStore, notBranch, notJalr⟩ := reads
    have operation : ∀ eq lt, aluOpO false inst eq lt =
        if opcode inst = instJal then .add else if opcode inst = instLui then .lui
        else if opcode inst = instAuipc then .auipc else .outZero := by
      intro eq lt
      simp [aluOpO, notRegreg, notRegimm, notLoad, notStore, notBranch, notJalr]
    simp only [resultAt, operation]
    -- Of these, each with its operation, and of the others, which have none.
    by_cases jal : opcode inst = instJal
    · simp [jal, a2SelO, b2SelO, instJal, instNop, instRegreg]
    · by_cases lui : opcode inst = instLui
      · simp [lui, b2SelO, alu, AluOp.code, instJal, instLui, instNop, instRegreg]
      · by_cases auipc : opcode inst = instAuipc
        · simp [auipc, a2SelO, b2SelO, instAuipc, instJal, instLui, instNop, instRegreg]
        · simp [jal, lui, auipc, alu, AluOp.code]

/-- The store data matter for a store, and the link for a jump. -/
theorem Arch.execAt_congr {outer : Word → BitVec 8} {s : Arch} {result data data' link link' : Word}
    (store : memRwO false inst → data = data') (links : wbSel2O false inst → link = link') :
    s.execAt outer inst result data link = s.execAt outer inst result data' link' := by
  -- Only a jump writes the link.
  have value : (if wbSel2O false inst then link else s.moved outer inst result) =
      if wbSel2O false inst then link' else s.moved outer inst result := by
    split
    · exact links ‹_›
    · rfl
  -- Only a store writes its data.
  have mem : (if memRwO false inst then
        s.mem.clockedWrite (memSizeO false inst) data result else s.mem) =
      if memRwO false inst then
        s.mem.clockedWrite (memSizeO false inst) data' result else s.mem := by
    split
    · rw [store ‹_›]
    · rfl
  rw [execAt, execAt, value, mem]

/-- Only a branch is taken. -/
theorem branchTaken_of_ne (notBranch : opcode inst ≠ instBranch) (eq lt : Bool) :
    branchTaken inst eq lt = false := by simp [branchTaken, notBranch]

/-- What writes a link is no branch. -/
theorem not_branch_of_links (links : wbSel2O false inst) : opcode inst ≠ instBranch := by
  -- A branch has another opcode than both jumps.
  intro branch
  simp [wbSel2O, branch, instJal, instJalr, instBranch] at links

end Operands

namespace Trace

variable (t : Trace) (outer : Word → BitVec 8)

/-- An instruction of a trace that may still redirect the program counter. -/
def slot (k : ℕ) (redirects : Bool) : Slot where
  inst := t.inst k
  moved := (t.arch k).moved outer (t.inst k) (t.result k)
  redirects := redirects

/-- The state of a trace in front of the instruction numbered `k + 4`. -/
def delayed (k : ℕ) : Delayed where
  pc := t.pc k
  arch := t.arch (k + 4)
  -- The branches that redirect for the two youngest are still to come.
  fetched := t.slot outer (k + 3) (controls (t.inst (k + 3)))
  execute := t.slot outer (k + 2) (controls (t.inst (k + 2)))
  memory := t.slot outer (k + 1) (t.taken (k + 1) || controls (t.inst (k + 1)))
  writeBack := t.slot outer k (t.taken k || controls (t.inst k))

end Trace

namespace Serial

variable {outer : Word → BitVec 8} {fetch : Word → Word} {t : Trace} {k : ℕ}

/-- The program counter goes on by what the oldest instruction says. -/
theorem next_slot (serial : Serial outer fetch t) (k : ℕ) :
    (t.slot outer k (t.taken k || controls (t.inst k))).next (t.pc k) = t.pc (k + 1) :=
  (serial.continued k).symm

/-- The address behind the next one is the one of the trace. -/
theorem next_delayed (serial : Serial outer fetch t) (k : ℕ) :
    (t.delayed outer k).next = t.pc (k + 1) := serial.next_slot k

/-- So is the one that is an operand. -/
theorem operandPc_delayed (serial : Serial outer fetch t) (k : ℕ) :
    (t.delayed outer k).operandPc = t.pc (k + 2) := by
  -- The second oldest instruction decides about the second address.
  rw [Delayed.operandPc, serial.next_delayed]
  exact serial.next_slot (k + 1)

/-- The link is known when neither the instruction nor the next one is a branch. -/
theorem link_delayed (serial : Serial outer fetch t) (notTaken : t.taken (k + 2) = false)
    (notTaken' : t.taken (k + 3) = false) :
    (t.delayed outer k).link = t.pc (k + 4) + 4 := by
  -- Without a branch, the two youngest redirect only as jumps.
  have third := serial.next_slot (k + 2)
  have fourth := serial.next_slot (k + 3)
  rw [notTaken, Bool.false_or] at third
  rw [notTaken', Bool.false_or] at fourth
  rw [Delayed.link, serial.operandPc_delayed, ← fourth, ← third]
  rfl

/-- The reset leaves the first state. -/
theorem delayed_zero (serial : Serial outer fetch t) :
    t.delayed outer 0 = Delayed.reset outer := by
  -- Four empty words are in the pipeline, and they have no effect.
  have empty (j : ℕ) (less : j < 4) : t.inst j = 0#32 := serial.empty j less
  have arch : ∀ j < 5, t.arch j = Arch.reset := by
    -- The third and the fourth empty word are executed, without an effect.
    have third := serial.executed 0
    have fourth := serial.executed 1
    rw [empty 2 (by decide), Arch.execAt_zero, serial.reset 2 (by decide)] at third
    rw [empty 3 (by decide), Arch.execAt_zero, third] at fourth
    intro j less
    obtain early | rfl | rfl : j < 3 ∨ j = 3 ∨ j = 4 := by omega
    · exact serial.reset j early
    · exact third
    · exact fourth
  -- The results of the first two are reset, and the others are computed as zero.
  have result : ∀ j < 4, t.result j = 0 := by
    intro j less
    by_cases early : j < 2
    · exact serial.zero j early
    · obtain ⟨i, rfl⟩ : ∃ i, j = i + 2 := ⟨j - 2, by omega⟩
      rw [serial.computed, empty _ less]
      exact Arch.resultAt_nop rfl _ _ _
  -- So all slots are alike, and none of them redirects.
  have slot (j : ℕ) (less : j < 4) (redirects : Bool) :
      t.slot outer j redirects = ⟨0, Arch.reset.moved outer 0 0, redirects⟩ := by
    rw [Trace.slot, empty j less, arch j (by omega), result j less]
    rfl
  have stays (j : ℕ) (less : j < 2) : t.taken j = false := by
    rw [Trace.taken, empty (j + 2) (by omega)]
    exact branchTaken_of_ne (by decide) _ _
  have noControl (j : ℕ) (less : j < 4) : controls (t.inst j) = false := by
    rw [empty j less]
    rfl
  simp only [Trace.delayed, Delayed.reset, Nat.zero_add, slot, stays, noControl, serial.start,
    arch, Bool.or_false, Nat.reduceLT]

section Step

variable (serial : Serial outer fetch t) (allowed : (t.delayed outer k).Allowed fetch)

include serial allowed

/-- An operand that is read has been written. -/
theorem operand_delayed {r : BitVec 5}
    (reads : (readsRs1 (t.inst (k + 4)) ∧ rs1 (t.inst (k + 4)) = r) ∨
      (needsRs2 (t.inst (k + 4)) ∧ rs2 (t.inst (k + 4)) = r)) :
    t.operand (k + 2) r = (t.arch (k + 4)).registers r := by
  -- The pipeline forwards a result, but neither what is loaded nor a link.
  refine serial.operand_eq (k + 2) r fun target => ?_
  have written := allowed.written
  rw [show fetch (t.delayed outer k).pc = t.inst (k + 4) from (serial.fetched k).symm] at written
  -- Else the one before it would be a load or a jump to a register that is read.
  have notLate : ¬ (opcode (t.inst (k + 3)) = instLoad ∨ wbSel2O false (t.inst (k + 3))) := by
    intro late
    rcases reads with ⟨reads, names⟩ | ⟨reads, names⟩
    · exact (written late).1 reads (names.trans target.symm)
    · exact (written late).2 reads (names.trans target.symm)
  rw [not_or, Bool.not_eq_true] at notLate
  exact notLate

/-- The result is that of the registers as they are. -/
theorem result_delayed :
    t.result (k + 4) = (t.delayed outer k).result (t.inst (k + 4)) := by
  -- The instruction that is fetched here is in execute two cycles later.
  have plain := allowed.plain
  rw [show fetch (t.delayed outer k).pc = t.inst (k + 4) from (serial.fetched k).symm] at plain
  rw [serial.computed, Delayed.result, serial.operandPc_delayed]
  -- Each register that it reads has its value.
  refine Arch.resultAt_congr plain (fun reads => ?_) fun reads => ?_
  · exact serial.operand_delayed allowed (.inl ⟨reads, rfl⟩)
  · rw [Trace.second, if_pos reads]
    exact serial.operand_delayed allowed (.inr ⟨reads, rfl⟩)

/-- A branch is decided by the registers as they are. -/
theorem taken_delayed : t.taken (k + 2) = (t.delayed outer k).taken (t.inst (k + 4)) := by
  by_cases branch : opcode (t.inst (k + 4)) = instBranch
  · -- A branch reads both registers.
    have reads : readsRs1 (t.inst (k + 4)) := by simp [readsRs1, branch]
    have needs : needsRs2 (t.inst (k + 4)) := by simp [needsRs2, branch]
    have first : t.first (k + 2) = (t.arch (k + 4)).registers (rs1 (t.inst (k + 4))) :=
      serial.operand_delayed allowed (.inl ⟨reads, rfl⟩)
    have second : t.second (k + 2) = (t.arch (k + 4)).registers (rs2 (t.inst (k + 4))) := by
      rw [Trace.second, if_pos needs]
      exact serial.operand_delayed allowed (.inr ⟨needs, rfl⟩)
    rw [Trace.taken, first, second]
    rfl
  · -- Another instruction is never taken.
    exact (branchTaken_of_ne branch _ _).trans (branchTaken_of_ne branch _ _).symm

/-- The effect on the registers and the memory is that of a step. -/
theorem arch_delayed : t.arch (k + 5) = (t.arch (k + 4)).execAt outer (t.inst (k + 4))
    ((t.delayed outer k).result (t.inst (k + 4)))
    ((t.arch (k + 4)).registers (rs2 (t.inst (k + 4)))) (t.delayed outer k).link := by
  rw [serial.executed (k + 2), serial.result_delayed allowed]
  refine Arch.execAt_congr (fun store => ?_) fun links => ?_
  · -- A store reads its data from the second register.
    have needs : needsRs2 (t.inst (k + 4)) := by
      simp only [memRwO, Bool.not_false, Bool.true_and, decide_eq_true_eq] at store
      simp [needsRs2, store]
    rw [Trace.second, if_pos needs]
    exact serial.operand_delayed allowed (.inr ⟨needs, rfl⟩)
  · -- Neither the jump nor the next instruction is a branch.
    have notNext := allowed.linked
    rw [show fetch (t.delayed outer k).pc = t.inst (k + 4) from (serial.fetched k).symm,
      serial.next_delayed, ← serial.fetched (k + 1)] at notNext
    rw [serial.link_delayed (branchTaken_of_ne (not_branch_of_links links) _ _)
      (branchTaken_of_ne (notNext links) _ _)]

/-- An instruction that is allowed has the effect of a step. -/
theorem delayed_succ : t.delayed outer (k + 1) = (t.delayed outer k).step outer fetch := by
  have inst : fetch (t.delayed outer k).pc = t.inst (k + 4) := (serial.fetched k).symm
  have arch := serial.arch_delayed allowed
  have taken := serial.taken_delayed allowed
  have result := serial.result_delayed allowed
  rw [Delayed.step, inst, serial.next_delayed, ← taken, ← result]
  rw [← result] at arch
  -- The slots move on by one, and the branch is entered into its own.
  change Delayed.mk (t.pc (k + 1)) (t.arch (k + 5)) _ _ _ _ = _
  rw [arch]
  rfl

end Step

/-- The trace of a program comes to the states of its run, as far as that is allowed. -/
theorem delayed_run (serial : Serial outer fetch t) {count : ℕ}
    (allowed : ∀ m < count, (Delayed.run outer fetch m).Allowed fetch) :
    t.delayed outer count = Delayed.run outer fetch count := by
  -- By induction on the instructions.
  induction count with
  | zero => exact serial.delayed_zero
  | succ count ih =>
    -- The last state is allowed, so one more step is that of the trace.
    have before := ih fun m less => allowed m (by omega)
    have last := allowed count (by omega)
    rw [← before] at last
    rw [serial.delayed_succ last, before, Delayed.run]

end Serial

namespace Riscv

variable {n : ℕ}

/--
A run of the processor is a run of the machine, as long as the machine comes to allowed states.

A jump is made behind four more instructions, and a branch also behind two.
-/
theorem run_delayed (start : Riscv n) (outer : Word → BitVec 8) (outerInst : BitVec 9 → Word)
    {count : ℕ} (allowed : ∀ m < count,
      (Delayed.run outer (start.fetch outerInst) m).Allowed (start.fetch outerInst)) :
    (start.run outer outerInst count).core.pcO =
        (Delayed.run outer (start.fetch outerInst) count).pc ∧
      start.archAt outer outerInst (count + 4) =
        (Delayed.run outer (start.fetch outerInst) count).arch := by
  -- Every run has a trace, whose states are compared.
  have same := (serial_trace start outer outerInst).delayed_run allowed
  exact ⟨congrArg Delayed.pc same, congrArg Delayed.arch same⟩

/-- A branch that is taken, behind `addi r1, r0, 24`, and in front of `jal r4, 8` at address 28. -/
def behindBranch : Riscv 20 :=
  holding [0x01800093#32, 0x00100113#32, 0x00108863#32, 0x00110113#32, 0x00110113#32,
    0x00110113#32, 0x00700193#32, 0x0080026F#32]

/-- The word at address 20 is left out, and the link is the address behind the four instructions. -/
theorem run_delayed_behindBranch :
    (behindBranch.run (fun _ => 0) (fun _ => 0) 11).core.pcO = 44 ∧
      (behindBranch.archAt (fun _ => 0) (fun _ => 0) 15).registers 2 = 3 ∧
      (behindBranch.archAt (fun _ => 0) (fun _ => 0) 15).registers 4 = 48 := by
  -- Each of the eleven states is allowed.
  obtain ⟨pc, arch⟩ := run_delayed behindBranch (fun _ => 0) (fun _ => 0)
    (show ∀ m < 11, (Delayed.run _ _ m).Allowed _ by decide)
  rw [pc, arch]
  decide

end Riscv

end MiniRiscV
