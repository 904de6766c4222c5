import MiniRiscV.Rtl.Run

/-! Every run of the processor as a serial execution, with the delays that the pipeline shows. -/

namespace MiniRiscV

open ControlLogic

namespace Arch

variable (outer : Word → BitVec 8)

/-- The ALU result of an instruction, from a program counter and the values of two registers. -/
def resultAt (inst pc a b : Word) : Word :=
  let comp := branchComp a b (brUnO false inst)
  alu (aluOpO false inst comp.brEqO comp.brLTO).code (if a2SelO false inst then pc else a)
    (if b2SelO false inst then immGen (immSelO false inst).code inst else b)

/-- What an instruction with this result hands to write-back: the word it loads, or its result. -/
def moved (s : Arch) (inst result : Word) : Word :=
  if wbSel1O false inst then result
  else s.mem.dataR outer (memRwO false inst) (memSizeO false inst) result

/-- The state behind an instruction with this result, store data and link. -/
def execAt (s : Arch) (inst result data link : Word) : Arch where
  registers := s.registers.clockedWrite (regWEnO false inst) (rd inst)
    (if wbSel2O false inst then link else s.moved outer inst result)
  mem := if memRwO false inst then s.mem.clockedWrite (memSizeO false inst) data result else s.mem

end Arch

/--
The instructions in the order in which they are fetched, and what becomes of them.

They are numbered by the cycle in which the pipeline has them in write-back.
-/
@[ext] structure Trace where
  inst : ℕ → Word
  /-- The address in the program counter, from which the fourth instruction behind is fetched. -/
  pc : ℕ → Word
  result : ℕ → Word
  /-- The registers and the memory before the instruction. -/
  arch : ℕ → Arch

namespace Trace

variable (t : Trace)

/-- A register as the instruction numbered `k + 2` sees it. -/
def operand (k : ℕ) (r : BitVec 5) : Word :=
  -- Behind a load or a jump this is its ALU result, and not what it writes to the register.
  if hasResult (t.inst (k + 1)) ∧ rd (t.inst (k + 1)) = r then t.result (k + 1)
  else (t.arch (k + 1)).registers r

/-- The first operand of the instruction numbered `k + 2`. -/
def first (k : ℕ) : Word := t.operand k (rs1 (t.inst (k + 2)))

/-- The second operand of the instruction numbered `k + 2`, which is also its store data. -/
def second (k : ℕ) : Word :=
  if needsRs2 (t.inst (k + 2)) then t.operand k (rs2 (t.inst (k + 2)))
  -- Nothing is forwarded to an operand that is not needed, though `SLTI` compares with it.
  else (t.arch k).registers (rs2 (t.inst (k + 2)))

/-- The instruction numbered `k + 2` is a branch whose condition holds. -/
def taken (k : ℕ) : Bool :=
  let comp := branchComp (t.first k) (t.second k) (brUnO false (t.inst (k + 2)))
  branchTaken (t.inst (k + 2)) comp.brEqO comp.brLTO

end Trace

/-- The instructions of a trace are fetched and executed one after the other. -/
structure Serial (outer : Word → BitVec 8) (fetch : Word → Word) (t : Trace) : Prop where
  /-- The reset leaves three empty words in the stages and one on the fetch bus. -/
  empty : ∀ k < 4, t.inst k = 0
  zero : ∀ k < 2, t.result k = 0
  reset : ∀ k < 3, t.arch k = Arch.reset
  start : t.pc 0 = 0
  fetched : ∀ k, t.inst (k + 4) = fetch (t.pc k)
  /-- The program counter in execute has gone on by two fetches. -/
  computed : ∀ k, t.result (k + 2) =
    Arch.resultAt (t.inst (k + 2)) (t.pc k) (t.first k) (t.second k)
  /-- The one that is linked has gone on by two more. -/
  executed : ∀ k, t.arch (k + 3) = (t.arch (k + 2)).execAt outer (t.inst (k + 2))
    (t.result (k + 2)) (t.second k) (t.pc (k + 2) + 4)
  /-- A transfer takes its target from write-back, and a taken branch before that another word. -/
  continued : ∀ k, t.pc (k + 1) =
    if t.taken k || controls (t.inst k) then (t.arch k).moved outer (t.inst k) (t.result k)
    else t.pc k + 4

namespace Arch

/-- A word with the opcode of the no-operation gives zero, whatever its operands. -/
theorem resultAt_nop {inst : Word} (nop : opcode inst = instNop) (pc a b : Word) :
    resultAt inst pc a b = 0 := by
  -- The operation is the constant zero, as no case of the decoder has this opcode.
  have operation : ∀ eq lt, aluOpO false inst eq lt = .outZero := by
    intro eq lt
    simp [aluOpO, nop, instNop, instRegreg, instRegimm, instLoad, instStore, instBranch, instJalr,
      instJal, instLui, instAuipc]
  simp [resultAt, operation, alu, AluOp.code]

/-- An empty word changes nothing. -/
theorem execAt_zero (outer : Word → BitVec 8) (s : Arch) (result data link : Word) :
    s.execAt outer 0#32 result data link = s := by
  have noWrite : regWEnO false 0#32 = false := by decide
  have noStore : memRwO false 0#32 = false := by decide
  simp [execAt, Registers.clockedWrite, noWrite, noStore]

end Arch

/-- Two traces agree as far as they are fixed when the instruction numbered `k` is in write-back. -/
structure Trace.AgreeTo (t t' : Trace) (k : ℕ) : Prop where
  inst : ∀ i < k + 4, t.inst i = t'.inst i
  pc : ∀ i ≤ k, t.pc i = t'.pc i
  result : ∀ i < k + 2, t.result i = t'.result i
  arch : ∀ i ≤ k, t.arch i = t'.arch i

namespace Trace.AgreeTo

variable {t t' : Trace} {k : ℕ}

/-- The operands of an instruction depend on what is before it. -/
theorem operand (agree : t.AgreeTo t' k) {i : ℕ} (before : i + 1 ≤ k) (r : BitVec 5) :
    t.operand i r = t'.operand i r := by
  rw [Trace.operand, Trace.operand, agree.inst _ (by omega), agree.result _ (by omega),
    agree.arch _ before]

/-- So does the second operand, also when it is not needed. -/
theorem second (agree : t.AgreeTo t' k) {i : ℕ} (before : i + 1 ≤ k) :
    t.second i = t'.second i := by
  rw [Trace.second, Trace.second, agree.inst _ (by omega), agree.operand before,
    agree.arch _ (by omega)]

end Trace.AgreeTo

namespace Serial

variable {outer : Word → BitVec 8} {fetch : Word → Word} {t t' : Trace}

/-- What two serial executions of one program agree on grows by one instruction. -/
theorem agreeTo_succ (one : Serial outer fetch t) (other : Serial outer fetch t') {k : ℕ}
    (agree : t.AgreeTo t' k) : t.AgreeTo t' (k + 1) := by
  -- The instruction in write-back leaves the state that the operands in execute are read from.
  have arch : ∀ i ≤ k + 1, t.arch i = t'.arch i := by
    intro i before
    by_cases old : i ≤ k
    · exact agree.arch i old
    · obtain rfl : i = k + 1 := by omega
      by_cases early : k + 1 < 3
      · rw [one.reset _ early, other.reset _ early]
      · obtain ⟨j, rfl⟩ : ∃ j, k = j + 2 := ⟨k - 2, by omega⟩
        rw [one.executed, other.executed, agree.arch _ le_rfl, agree.inst _ (by omega),
          agree.result _ (by omega), agree.second (by omega), agree.pc _ le_rfl]
  have operand (r : BitVec 5) : t.operand k r = t'.operand k r := by
    rw [Trace.operand, Trace.operand, agree.inst _ (by omega), agree.result _ (by omega),
      arch _ le_rfl]
  have first : t.first k = t'.first k := by
    rw [Trace.first, Trace.first, agree.inst _ (by omega), operand]
  have second : t.second k = t'.second k := by
    rw [Trace.second, Trace.second, agree.inst _ (by omega), operand, agree.arch _ le_rfl]
  have taken : t.taken k = t'.taken k := by
    rw [Trace.taken, Trace.taken, agree.inst _ (by omega), first, second]
  refine ⟨fun i before => ?_, fun i before => ?_, fun i before => ?_, arch⟩
  · by_cases old : i < k + 4
    · exact agree.inst i old
    · obtain rfl : i = k + 4 := by omega
      rw [one.fetched, other.fetched, agree.pc _ le_rfl]
  · by_cases old : i ≤ k
    · exact agree.pc i old
    · obtain rfl : i = k + 1 := by omega
      rw [one.continued, other.continued, taken, agree.inst _ (by omega), agree.arch _ le_rfl,
        agree.result _ (by omega), agree.pc _ le_rfl]
  · by_cases old : i < k + 2
    · exact agree.result i old
    · obtain rfl : i = k + 2 := by omega
      rw [one.computed, other.computed, agree.inst _ (by omega), agree.pc _ le_rfl, first, second]

/-- A program has one serial execution only. -/
theorem unique (one : Serial outer fetch t) (other : Serial outer fetch t') : t = t' := by
  have agree : ∀ k, t.AgreeTo t' k := by
    intro k
    -- By induction on the instructions, from the empty ones of the reset.
    induction k with
    | zero =>
      refine ⟨fun i early => ?_, fun i early => ?_, fun i early => ?_, fun i early => ?_⟩
      · rw [one.empty i early, other.empty i early]
      · obtain rfl : i = 0 := by omega
        rw [one.start, other.start]
      · rw [one.zero i early, other.zero i early]
      · rw [one.reset i (by omega), other.reset i (by omega)]
    | succ k ih => exact agreeTo_succ one other ih
  refine Trace.ext (funext fun k => ?_) (funext fun k => ?_) (funext fun k => ?_)
    (funext fun k => ?_)
  · exact (agree k).inst k (by omega)
  · exact (agree k).pc k le_rfl
  · exact (agree k).result k (by omega)
  · exact (agree k).arch k le_rfl

end Serial

namespace Riscv

variable {n : ℕ} {outer : Word → BitVec 8} {outerInst : BitVec 9 → Word} {start : Riscv n}

/-- The word that is fetched from an address. -/
def fetch (s : Riscv n) (outerInst : BitVec 9 → Word) (pc : Word) : Word :=
  let count : BitVec 9 := (pc / 4).setWidth 9
  if inside : count.toNat < n + 1 then s.tabInst ⟨count.toNat, inside⟩ else outerInst count

/-- The instructions of a run, as the write-back stage comes to them. -/
def trace (start : Riscv n) (outer : Word → BitVec 8) (outerInst : BitVec 9 → Word) : Trace where
  inst k := (start.run outer outerInst k).core.instReg2
  pc k := (start.run outer outerInst k).core.pcO
  result k := (start.run outer outerInst k).core.aluO
  -- A store is done one stage before write-back.
  arch k :=
    { registers := (start.run outer outerInst k).core.registers
      mem := (start.run outer outerInst (k - 1)).core.mem }

/-- The word fetched in a cycle of a run comes from the program. -/
theorem inst_run (cycle : ℕ) : (start.run outer outerInst cycle).inst outerInst =
    start.fetch outerInst (start.run outer outerInst cycle).core.pcO := by
  simp only [inst, fetch, run_tabInst]

/-- The instruction two behind the one in write-back is in execute. -/
theorem trace_execute (k : ℕ) : (start.trace outer outerInst).inst (k + 2) =
    (start.run outer outerInst k).core.instReg0 := rfl

/-- Forwarding and the register file together read a register as the trace has it. -/
theorem operand_trace (k : ℕ) (r : BitVec 5) :
    (start.trace outer outerInst).operand k r =
      let s := (start.run outer outerInst k).core
      if hasResult s.instReg1 ∧ rd s.instReg1 = r then s.aluResultO
      else if hasResult s.instReg2 ∧ rd s.instReg2 = r then s.dataDO false
      else s.registers r := by
  -- The edge writes the register of the instruction in write-back, which is older than both.
  have inv := @run_decoded n outer outerInst start k
  exact if_congr Iff.rfl rfl
    (@Core.step_registers outer _ inv (start.run outer outerInst k).instOut r)

/-- The first operand of an instruction in execute, if it is one. -/
theorem first_trace (k : ℕ)
    (notNop : opcode (start.run outer outerInst k).core.instReg0 ≠ instNop) :
    (start.trace outer outerInst).first k = (start.run outer outerInst k).core.br1 false := by
  have inv := @run_decoded n outer outerInst start k
  rw [Trace.first, operand_trace, trace_execute, Core.br1_eq notNop, (inv.readAddr0 notNop).1]

/-- The second operand of an instruction in execute, if it is one. -/
theorem second_trace (k : ℕ)
    (notNop : opcode (start.run outer outerInst k).core.instReg0 ≠ instNop) :
    (start.trace outer outerInst).second k = (start.run outer outerInst k).core.br2 false := by
  have addr := ((@run_decoded n outer outerInst start k).readAddr0 notNop).2
  rw [Trace.second, trace_execute]
  by_cases reads : needsRs2 (start.run outer outerInst k).core.instReg0
  · rw [if_pos reads, operand_trace, Core.br2_eq reads, addr]
  · -- The select code of an operand that is not needed is that of the register file.
    simp [reads, Core.br2, b1SelO, addr, trace]

/-- What the trace computes for an instruction in execute is what the ALU computes. -/
theorem resultAt_trace (k : ℕ) :
    Arch.resultAt (start.run outer outerInst k).core.instReg0
        (start.run outer outerInst k).core.pcO ((start.trace outer outerInst).first k)
        ((start.trace outer outerInst).second k) =
      (start.run outer outerInst k).core.resultR false := by
  have inv := @run_decoded n outer outerInst start k
  have plain : ∀ a b, a = (start.run outer outerInst k).core.br1 false →
      b = (start.run outer outerInst k).core.br2 false →
      Arch.resultAt (start.run outer outerInst k).core.instReg0
        (start.run outer outerInst k).core.pcO a b =
          (start.run outer outerInst k).core.resultR false := by
    rintro a b rfl rfl
    simp only [Arch.resultAt, Core.resultR, Core.comp, Core.reg1O, Core.reg2O, inv.imm0]
  by_cases nop : opcode (start.run outer outerInst k).core.instReg0 = instNop
  · -- The operands of the no-operation need not be the same, but they do not matter.
    rw [Arch.resultAt_nop nop, ← plain _ _ rfl rfl, Arch.resultAt_nop nop]
  · exact plain _ _ (first_trace k nop) (second_trace k nop)

/-- The trace takes a branch in execute when the processor does. -/
theorem taken_trace (k : ℕ) : (start.trace outer outerInst).taken k =
    (start.run outer outerInst k).core.taken := by
  by_cases nop : opcode (start.run outer outerInst k).core.instReg0 = instNop
  · -- The no-operation is no branch.
    simp [Trace.taken, Core.taken, branchTaken, trace_execute, nop, instNop, instBranch]
  · simp only [Trace.taken, Core.taken, Core.comp, trace_execute, first_trace k nop,
      second_trace k nop]

/-- Behind the first cycle, the bus in front of write-back carries what the trace moves there. -/
theorem wb_trace (k : ℕ) : (start.run outer outerInst (k + 1)).core.wb false =
    ((start.trace outer outerInst).arch (k + 1)).moved outer
      ((start.trace outer outerInst).inst (k + 1))
      ((start.trace outer outerInst).result (k + 1)) := rfl

/-- One edge behind the stores of the second stage executes one instruction. -/
theorem execAt_trace (k : ℕ) : (start.trace outer outerInst).arch (k + 3) =
    ((start.trace outer outerInst).arch (k + 2)).execAt outer
      ((start.trace outer outerInst).inst (k + 2)) ((start.trace outer outerInst).result (k + 2))
      ((start.trace outer outerInst).second k) ((start.trace outer outerInst).pc (k + 2) + 4) := by
  have inv := @run_decoded n outer outerInst start (k + 2)
  -- The memory is written in the cycle before, with the data of the second operand.
  have store : memRwO false (start.run outer outerInst k).core.instReg0 →
      (start.trace outer outerInst).second k = (start.run outer outerInst k).core.br2 false := by
    intro store
    refine second_trace k fun nop => ?_
    simp [memRwO, nop, instNop, instStore] at store
  have registers : (start.run outer outerInst (k + 3)).core.registers =
      (start.run outer outerInst (k + 2)).core.registers.clockedWrite
        (regWEnO false (start.run outer outerInst (k + 2)).core.instReg2)
        (rd (start.run outer outerInst (k + 2)).core.instReg2)
        ((start.run outer outerInst (k + 2)).core.dataDO false) := by
    rw [← inv.addrD2]
    rfl
  have mem : (start.run outer outerInst (k + 2)).core.mem =
      if memRwO false (start.run outer outerInst k).core.instReg0 then
        (start.run outer outerInst (k + 1)).core.mem.clockedWrite
          (memSizeO false (start.run outer outerInst k).core.instReg0)
          ((start.trace outer outerInst).second k)
          (start.run outer outerInst (k + 1)).core.aluResultO
      else (start.run outer outerInst (k + 1)).core.mem := by
    by_cases stores : memRwO false (start.run outer outerInst k).core.instReg0
    · rw [if_pos stores, store stores]
      exact if_pos stores
    · rw [if_neg stores]
      exact if_neg stores
  exact congrArg₂ Arch.mk registers mem

/-- The instructions of a run form a serial execution of the program. -/
theorem serial_trace (start : Riscv n) (outer : Word → BitVec 8) (outerInst : BitVec 9 → Word) :
    Serial outer (start.fetch outerInst) (start.trace outer outerInst) where
  empty k early := by
    obtain rfl | rfl | rfl | rfl : k = 0 ∨ k = 1 ∨ k = 2 ∨ k = 3 := by omega
    all_goals rfl
  zero k early := by
    obtain rfl | rfl : k = 0 ∨ k = 1 := by omega
    · rfl
    · rfl
  reset k early := by
    -- The empty words of the reset are in write-back, and write nothing.
    obtain rfl | rfl | rfl : k = 0 ∨ k = 1 ∨ k = 2 := by omega
    all_goals rfl
  start := rfl
  fetched k := inst_run k
  computed k := (resultAt_trace k).symm
  executed := execAt_trace
  continued k := by
    change (start.run outer outerInst k).core.pcR false = _
    rw [Core.pcR_eq, taken_trace]
    cases k with
    | zero =>
      -- Behind the reset there is neither a taken branch nor a transfer.
      have stays : ¬ ((start.run outer outerInst 0).core.taken ||
          controls (start.run outer outerInst 0).core.instReg2) := by
        rw [Bool.or_eq_true, not_or]
        refine ⟨fun taken => ?_, show ¬ controls 0#32 by decide⟩
        exact absurd (Core.opcode_of_taken taken) (show opcode 0#32 ≠ instBranch by decide)
      exact (if_neg stays).trans (if_neg stays).symm
    | succ k =>
      rw [← wb_trace]
      rfl

/--
The processor runs any program as its one serial execution, and writes what this writes.

The delays that a program can see are in the equations: two fetches for a program counter that is
an operand, four for a link and for a target, and one instruction for a loaded or linked value. A
taken branch also loads the program counter early, with what is on the write-back bus when it is in
execute, and the register that `SLTI` and `SLTIU` compare with is read without forwarding.
-/
theorem serial_iff (start : Riscv n) (outer : Word → BitVec 8) (outerInst : BitVec 9 → Word)
    (t : Trace) :
    Serial outer (start.fetch outerInst) t ↔
      ∀ k, t.inst k = (start.run outer outerInst k).core.instReg2 ∧
        t.pc k = (start.run outer outerInst k).core.pcO ∧
        t.result k = (start.run outer outerInst k).core.aluO ∧
        (t.arch k).registers = (start.run outer outerInst k).core.registers ∧
        (t.arch k).mem = (start.run outer outerInst (k - 1)).core.mem := by
  have serial := serial_trace start outer outerInst
  constructor
  · intro other k
    obtain rfl := other.unique serial
    exact ⟨rfl, rfl, rfl, rfl, rfl⟩
  · intro same
    -- A trace with these entries is the one of the run.
    obtain rfl : t = start.trace outer outerInst := by
      refine Trace.ext (funext fun k => ?_) (funext fun k => ?_) (funext fun k => ?_)
        (funext fun k => ?_)
      · exact (same k).1
      · exact (same k).2.1
      · exact (same k).2.2.1
      · exact congrArg₂ Arch.mk (same k).2.2.2.1 (same k).2.2.2.2
    exact serial


end Riscv

end MiniRiscV
