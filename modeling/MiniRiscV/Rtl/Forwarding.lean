import Mathlib.Data.List.Chain
import MiniRiscV.Rtl.Run

/-! The overlapped execution of a straight-line stream gives the sequential result. -/

namespace MiniRiscV

open ControlLogic

/-- The instructions of a straight-line stream. -/
def Streamed (inst : Word) : Prop :=
  inst = 0 ∨ opcode inst = instRegreg ∨
    (opcode inst = instRegimm ∧ funct3 inst ≠ 0b010#3 ∧ funct3 inst ≠ 0b011#3) ∨
    opcode inst = instLui ∨ opcode inst = instStore ∨ opcode inst = instLoad

/-- The instruction has a first register operand. -/
def ReadsRs1 (inst : Word) : Prop :=
  opcode inst = instRegreg ∨ opcode inst = instRegimm ∨ opcode inst = instStore ∨
    opcode inst = instLoad

/-- The instruction has a second register operand. -/
def ReadsRs2 (inst : Word) : Prop := opcode inst = instRegreg ∨ opcode inst = instStore

/-- The older instruction is a load into a register that the next instruction reads. -/
def LoadUse (older inst : Word) : Prop :=
  opcode older = instLoad ∧
    ((ReadsRs1 inst ∧ rs1 inst = rd older) ∨ (ReadsRs2 inst ∧ rs2 inst = rd older))

instance (inst : Word) : Decidable (Streamed inst) := inferInstanceAs (Decidable (_ ∨ _))

instance (inst : Word) : Decidable (ReadsRs1 inst) := inferInstanceAs (Decidable (_ ∨ _))

instance (inst : Word) : Decidable (ReadsRs2 inst) := inferInstanceAs (Decidable (_ ∨ _))

instance (older inst : Word) : Decidable (LoadUse older inst) :=
  inferInstanceAs (Decidable (_ ∧ _))

namespace Arch

/-- An ALU result depends only on the operands its instruction reads. -/
theorem resultOf_congr {inst a b a' b' : Word} (streamed : Streamed inst)
    (first : ReadsRs1 inst → a = a') (second : ReadsRs2 inst → b = b') :
    resultOf inst a b = resultOf inst a' b' := by
  rcases streamed with rfl | regreg | ⟨regimm, notSlt, notSltu⟩ | lui | store | load
  · -- The empty word selects the constant zero.
    rfl
  · rw [first (.inl regreg), second (.inl regreg)]
  · -- Apart from the two comparisons, an immediate form never looks at the second register.
    rw [first (.inr (.inl regimm))]
    simp [resultOf, aluOpO, b2SelO, regimm, notSlt, notSltu, instRegimm, instRegreg, instNop]
  · -- `LUI` takes its result from the immediate alone.
    simp [resultOf, aluOpO, b2SelO, lui, instLui, instRegimm, instRegreg, instNop, instLoad,
      instStore, instBranch, instJalr, instJal, alu, AluOp.code]
  · rw [first (.inr (.inr (.inl store)))]
    simp [resultOf, aluOpO, b2SelO, store, instStore, instRegimm, instRegreg, instNop, instLoad]
  · rw [first (.inr (.inr (.inr load)))]
    simp [resultOf, aluOpO, b2SelO, load, instRegimm, instRegreg, instNop, instLoad]

end Arch

/-- A streamed instruction never replaces its first operand by the program counter. -/
theorem a2SelO_streamed {inst : Word} (streamed : Streamed inst) : a2SelO false inst = false := by
  -- None of the four opcodes that ask for the program counter is in the stream.
  rcases streamed with rfl | is | ⟨is, -⟩ | is | is | is
  · rfl
  all_goals simp [a2SelO, is, instRegreg, instRegimm, instLui, instStore, instLoad, instBranch,
    instJal, instJalr, instAuipc]

/-- A streamed instruction never writes the incremented program counter back. -/
theorem wbSel2O_streamed {inst : Word} (streamed : Streamed inst) :
    wbSel2O false inst = false := by
  -- Only the two jumps do.
  rcases streamed with rfl | is | ⟨is, -⟩ | is | is | is
  · rfl
  all_goals simp [wbSel2O, is, instRegreg, instRegimm, instLui, instStore, instLoad, instJal,
    instJalr]

variable {outer : Word → BitVec 8}

/--
The pipeline holds three instructions, and each stage carries what the sequential execution
of its instruction computes.

`arch` is the sequential state before the instruction in write-back.
-/
structure Overlap (outer : Word → BitVec 8) (arch : Arch) (inst2 inst1 inst0 : Word)
    (s : Core) : Prop where
  reg2 : s.instReg2 = inst2
  reg1 : s.instReg1 = inst1
  reg0 : s.instReg0 = inst0
  addrD2 : s.out = rd inst2
  addrD1 : s.intermediate2 = rd inst1
  addrD0 : s.intermediate1 = rd inst0
  /-- The register file is behind by the three instructions in flight. -/
  registers : s.registers = arch.registers
  /-- The data memory is behind by two, a store being done one stage before write-back. -/
  mem : s.mem = (arch.exec outer inst2).mem
  aluOut2 : s.aluO = arch.result inst2
  memOut2 : opcode inst2 = instLoad → s.dataO = arch.loaded outer inst2
  aluOut1 : s.aluResultO = (arch.exec outer inst2).result inst1
  storeData1 : opcode inst1 = instStore →
    s.dataWO = (arch.exec outer inst2).registers (rs2 inst1)
  imm0 : s.immO = immGen (immSelO false inst0).code inst0
  /-- The delayed read addresses have no reset, but matter only behind an instruction. -/
  readAddr0 : opcode inst0 ≠ instNop → s.oldAddrAR = rs1 inst0 ∧ s.oldAddrBR = rs2 inst0

namespace Overlap

variable {arch : Arch} {inst2 inst1 inst0 inst : Word} {s : Core}

/-- The write-back bus carries the result of the instruction in write-back. -/
theorem dataDO_eq (inv : Overlap outer arch inst2 inst1 inst0 s) (streamed : Streamed inst2)
    (writes : hasResult inst2) : s.dataDO false = arch.writeBack outer inst2 := by
  -- A load takes the memory word, and every other writer the ALU result.
  have notNop := notNop_of_hasResult writes
  simp only [Core.dataDO, inv.reg2, wbSel2O_streamed streamed, Core.wb, Arch.writeBack, wbSel1O]
  by_cases load : opcode inst2 = instLoad
  · simp [load, inv.memOut2 load]
  · simp [load, notNop, inv.aluOut2]

/-- The value on the ALU output is the write-back value, except behind a load. -/
theorem aluResultO_eq (inv : Overlap outer arch inst2 inst1 inst0 s)
    (writes : hasResult inst1) (notLoad : opcode inst1 ≠ instLoad) :
    s.aluResultO = (arch.exec outer inst2).writeBack outer inst1 := by
  -- Outside a load the write-back multiplexer selects the ALU result.
  have notNop := notNop_of_hasResult writes
  simp [inv.aluOut1, Arch.writeBack, wbSel1O, notLoad, notNop]

/--
Forwarding selects the youngest pending value of a register.

The two comparisons and the register file together read the sequential register.
-/
theorem forwarded (inv : Overlap outer arch inst2 inst1 inst0 s) (streamed : Streamed inst2)
    (r : BitVec 5) (noLoad : hasResult inst1 → rd inst1 = r → opcode inst1 ≠ instLoad) :
    (if hasResult inst1 ∧ rd inst1 = r then s.aluResultO
      else if hasResult inst2 ∧ rd inst2 = r then s.dataDO false
      else s.registers r) = ((arch.exec outer inst2).exec outer inst1).registers r := by
  -- The cases are the youngest writer of the register: distance one, distance two, or older.
  rw [Arch.exec_registers, Arch.exec_registers]
  by_cases one : hasResult inst1 ∧ rd inst1 = r
  · rw [if_pos one, if_pos one]
    exact inv.aluResultO_eq one.1 (noLoad one.1 one.2)
  · rw [if_neg one, if_neg one]
    by_cases two : hasResult inst2 ∧ rd inst2 = r
    · rw [if_pos two, if_pos two]
      exact inv.dataDO_eq streamed two.1
    · rw [if_neg two, if_neg two, inv.registers]

/-- The first operand in execute is the sequential value of the register the instruction names. -/
theorem br1_eq (inv : Overlap outer arch inst2 inst1 inst0 s) (streamed : Streamed inst2)
    (noLoadUse : ¬ LoadUse inst1 inst0) (reads : ReadsRs1 inst0) :
    s.br1 false = ((arch.exec outer inst2).exec outer inst1).registers (rs1 inst0) := by
  have notNop : opcode inst0 ≠ instNop := by
    rcases reads with is | is | is | is <;> rw [is] <;> decide
  rw [← inv.forwarded streamed (rs1 inst0)
    (fun _ same load => noLoadUse ⟨load, .inl ⟨reads, same.symm⟩⟩)]
  -- The select code chooses between the same three sources.
  rw [Core.br1_eq (by rw [inv.reg0]; exact notNop), inv.reg0, inv.reg1, inv.reg2,
    (inv.readAddr0 notNop).1]

/-- The second operand in execute is the sequential value of the register named in `rs2`. -/
theorem br2_eq (inv : Overlap outer arch inst2 inst1 inst0 s) (streamed : Streamed inst2)
    (noLoadUse : ¬ LoadUse inst1 inst0) (reads : ReadsRs2 inst0) :
    s.br2 false = ((arch.exec outer inst2).exec outer inst1).registers (rs2 inst0) := by
  have needs : needsRs2 inst0 = true := by
    rcases reads with is | is <;> simp [needsRs2, is]
  rw [← inv.forwarded streamed (rs2 inst0)
    (fun _ same load => noLoadUse ⟨load, .inr ⟨reads, same.symm⟩⟩)]
  -- The instruction has a second operand, which is selected like the first one.
  rw [Core.br2_eq (by rw [inv.reg0]; exact needs), inv.reg0, inv.reg1, inv.reg2,
    (inv.readAddr0 (notNop_of_needsRs2 needs)).2]

/-- The ALU computes the sequential result of the instruction in execute. -/
theorem resultR_eq (inv : Overlap outer arch inst2 inst1 inst0 s) (streamed2 : Streamed inst2)
    (streamed0 : Streamed inst0) (noLoadUse : ¬ LoadUse inst1 inst0) :
    s.resultR false = ((arch.exec outer inst2).exec outer inst1).result inst0 := by
  -- With no program counter operand, the ALU sees the forwarded pair and the immediate.
  have plain : s.resultR false = Arch.resultOf inst0 (s.br1 false) (s.br2 false) := by
    simp [Core.resultR, Core.reg1O, Core.reg2O, Core.comp, Arch.resultOf, inv.reg0, inv.imm0,
      a2SelO_streamed streamed0]
  rw [plain]
  exact Arch.resultOf_congr streamed0 (inv.br1_eq streamed2 noLoadUse)
    (inv.br2_eq streamed2 noLoadUse)

/-- One clock edge retires the instruction in write-back and admits the word on the bus. -/
theorem step (inv : Overlap outer arch inst2 inst1 inst0 s) (streamed2 : Streamed inst2)
    (streamed0 : Streamed inst0) (noLoadUse : ¬ LoadUse inst1 inst0) :
    Overlap outer (arch.exec outer inst2) inst1 inst0 inst (s.step outer false inst) where
  reg2 := inv.reg1
  reg1 := inv.reg0
  reg0 := rfl
  addrD2 := inv.addrD1
  addrD1 := inv.addrD0
  addrD0 := rfl
  registers := by
    -- The write enable and the write-back bus are those of the retiring instruction.
    simp only [Core.step, Arch.exec, inv.reg2, inv.addrD2, inv.registers, Bool.false_eq_true,
      if_false, Registers.clockedWrite, Arch.regWEnO_eq_hasResult]
    by_cases writes : hasResult inst2
    · simp [writes, inv.dataDO_eq streamed2 writes]
    · simp [writes]
  mem := by
    -- A store reaches the memory with the data and the address it computed one stage earlier.
    simp only [Core.step, inv.reg1, inv.mem, inv.aluOut1, Bool.false_eq_true, if_false]
    by_cases store : opcode inst1 = instStore
    · simp [Arch.exec, memRwO, store, inv.storeData1 store]
    · simp [Arch.exec, memRwO, store]
  aluOut2 := inv.aluOut1
  memOut2 := by
    intro _
    simp only [Core.step, Arch.loaded, inv.reg1, inv.mem, inv.aluOut1, Bool.false_eq_true,
      if_false]
  aluOut1 := inv.resultR_eq streamed2 streamed0 noLoadUse
  storeData1 := fun store => inv.br2_eq streamed2 noLoadUse (.inr store)
  imm0 := rfl
  readAddr0 := fun _ => ⟨rfl, rfl⟩

/-- After a reset edge the pipeline holds three empty words over the reset state. -/
theorem reset (outer : Word → BitVec 8) (start : Core) (atReset : Word) :
    Overlap outer Arch.reset 0#32 0#32 0#32 (start.step outer true atReset) where
  reg2 := rfl
  reg1 := rfl
  reg0 := rfl
  addrD2 := rfl
  addrD1 := rfl
  addrD0 := rfl
  registers := rfl
  mem := by simp [Core.step, Arch.reset]
  aluOut2 := (Arch.result_zero _).symm
  memOut2 := fun load => absurd load (by decide)
  aluOut1 := (Arch.result_zero _).symm
  storeData1 := fun store => absurd store (by decide)
  imm0 := by simp [Core.step, immGen, show immSelO false 0#32 = .immDefault by decide]
  readAddr0 := fun notNop => absurd rfl notNop

end Overlap

/-- The words on the fetch bus: the stream, and the word zero once it is exhausted. -/
def fetched (insts : List Word) (cycle : ℕ) : Word := insts[cycle]?.getD 0#32

/-- The words on the fetch bus behind the three empty words that the reset leaves. -/
def behindReset (insts : List Word) : ℕ → Word
  | 0 | 1 | 2 => 0#32
  | cycle + 3 => fetched insts cycle

/-- The core `cycles` edges after the reset edge, fed with a stream of instructions. -/
def feed (outer : Word → BitVec 8) (start : Core) (atReset : Word) (insts : List Word)
    (cycles : ℕ) : Core :=
  Clocked.run (fun inst s => s.step outer false inst) (fetched insts)
    (start.step outer true atReset) cycles

variable {insts : List Word}

/-- Every word on the fetch bus is of the stream or empty. -/
theorem behindReset_streamed (streamed : ∀ inst ∈ insts, Streamed inst) :
    ∀ cycle, Streamed (behindReset insts cycle)
  | 0 | 1 | 2 => .inl rfl
  | cycle + 3 => by
    -- Past its end the stream goes on with empty words.
    simp only [behindReset, fetched]
    cases present : insts[cycle]? with
    | none => exact .inl rfl
    | some inst => exact streamed inst (List.mem_of_getElem? present)

/-- The empty word is no load. -/
theorem not_loadUse_zero (inst : Word) : ¬ LoadUse 0#32 inst :=
  fun ⟨load, _⟩ => absurd load (by decide)

/-- The empty word uses no register. -/
theorem not_loadUse_zero_right (older : Word) : ¬ LoadUse older 0#32 := by
  rintro ⟨-, ⟨reads, -⟩ | ⟨reads, -⟩⟩
  · exact absurd reads (by decide)
  · exact absurd reads (by decide)

/-- No word on the fetch bus uses the register a load just before it writes. -/
theorem behindReset_noLoadUse (noLoadUse : insts.IsChain (¬ LoadUse · ·)) :
    ∀ cycle, ¬ LoadUse (behindReset insts cycle) (behindReset insts (cycle + 1))
  | 0 | 1 => not_loadUse_zero _
  | 2 => not_loadUse_zero _
  | cycle + 3 => by
    simp only [behindReset, fetched]
    -- Only two consecutive instructions of the stream itself need the hypothesis.
    by_cases inside : cycle + 1 < insts.length
    · have pair := List.isChain_iff_getElem.mp noLoadUse cycle inside
      rw [List.getElem?_eq_getElem inside, List.getElem?_eq_getElem (by omega)]
      exact pair
    · rw [List.getElem?_eq_none (i := cycle + 1) (by omega)]
      exact not_loadUse_zero_right _

/-- In every cycle the pipeline overlaps three consecutive words of the fetch bus. -/
theorem overlap_feed (start : Core) (atReset : Word) (streamed : ∀ inst ∈ insts, Streamed inst)
    (noLoadUse : insts.IsChain (¬ LoadUse · ·)) (cycle : ℕ) :
    Overlap outer (Arch.reset.execUpTo outer (behindReset insts) cycle) (behindReset insts cycle)
      (behindReset insts (cycle + 1)) (behindReset insts (cycle + 2))
      (feed outer start atReset insts cycle) := by
  -- The reset establishes the invariant, and every edge shifts it by one word.
  refine Clocked.run_invariant (fun cycle s => Overlap outer
    (Arch.reset.execUpTo outer (behindReset insts) cycle) (behindReset insts cycle)
    (behindReset insts (cycle + 1)) (behindReset insts (cycle + 2)) s)
    (Overlap.reset outer start atReset) ?_ cycle
  intro cycle s inv
  exact inv.step (behindReset_streamed streamed cycle) (behindReset_streamed streamed (cycle + 2))
    (behindReset_noLoadUse noLoadUse (cycle + 1))

/-- The words before the stream and behind its first `count` instructions have no other effect. -/
theorem execUpTo_behindReset (insts : List Word) (count : ℕ) :
    Arch.reset.execUpTo outer (behindReset insts) (count + 3) =
      Arch.reset.execAll outer (insts.take count) := by
  -- Induction on the count; past the end of the stream both sides stand still.
  induction count with
  | zero => simp [Arch.execUpTo, behindReset, Arch.execAll]
  | succ count ih =>
    have next : Arch.reset.execUpTo outer (behindReset insts) (count + 1 + 3) =
        (Arch.reset.execAll outer (insts.take count)).exec outer (fetched insts count) := by
      rw [← ih]
      rfl
    rw [next, List.take_add_one]
    cases present : insts[count]? with
    | none => simp [fetched, present]
    | some inst => simp [fetched, present, Arch.execAll]

/--
The pipeline computes what the sequential execution computes.

Three cycles after its fetch each instruction has written its register, and two cycles after its
fetch it has written its memory bytes; once the stream has drained both agree with the whole run.
-/
theorem feed_eq_execAll (outer : Word → BitVec 8) (start : Core) (atReset : Word)
    (insts : List Word) (streamed : ∀ inst ∈ insts, Streamed inst)
    (noLoadUse : insts.IsChain (¬ LoadUse · ·)) :
    (∀ count,
      (feed outer start atReset insts (count + 3)).registers =
          (Arch.reset.execAll outer (insts.take count)).registers ∧
        (feed outer start atReset insts (count + 2)).mem =
          (Arch.reset.execAll outer (insts.take count)).mem) ∧
      ∀ cycle ≥ insts.length + 3,
        (feed outer start atReset insts cycle).registers =
            (Arch.reset.execAll outer insts).registers ∧
          (feed outer start atReset insts cycle).mem = (Arch.reset.execAll outer insts).mem := by
  have prefixes : ∀ count,
      (feed outer start atReset insts (count + 3)).registers =
          (Arch.reset.execAll outer (insts.take count)).registers ∧
        (feed outer start atReset insts (count + 2)).mem =
          (Arch.reset.execAll outer (insts.take count)).mem := by
    intro count
    -- The register file lags the fetch bus by three words, the data memory by two.
    have behindThree := @overlap_feed outer insts start atReset streamed noLoadUse (count + 3)
    have behindTwo := @overlap_feed outer insts start atReset streamed noLoadUse (count + 2)
    constructor
    · rw [behindThree.registers, execUpTo_behindReset]
    · rw [behindTwo.mem, ← execUpTo_behindReset]
      rfl
  refine ⟨prefixes, fun cycle drained => ?_⟩
  -- Past the end of the stream every longer prefix is the stream itself.
  obtain ⟨extra, rfl⟩ := Nat.exists_eq_add_of_le drained
  have regs := (prefixes (insts.length + extra)).1
  have mems := (prefixes (insts.length + extra + 1)).2
  rw [List.take_of_length_le (by omega)] at regs mems
  rw [show insts.length + 3 + extra = insts.length + extra + 3 by omega]
  exact ⟨regs, mems⟩

/--
Three writers of one register, a store, a load, and its use at distance two.

The words are `addi r1, r0, 3`, `addi r1, r1, 4`, `add r1, r1, r1`, `sw r1, 0(r0)`,
`lw r2, 0(r0)`, the word zero and `add r3, r2, r1`.
-/
def dependentStream : List Word :=
  [0x00300093#32, 0x00408093#32, 0x001080B3#32, 0x00102023#32, 0x00002103#32, 0#32,
    0x001101B3#32]

/-- All its words are of the instructions of a straight line. -/
private theorem dependentStream_streamed : ∀ inst ∈ dependentStream, Streamed inst := by
  simp only [dependentStream, List.forall_mem_cons]
  refine ⟨by decide, by decide, by decide, by decide, by decide, by decide, by decide, ?_⟩
  simp

/-- The core after a reset edge, whatever it held before, fed with a stream at every distance. -/
theorem feed_eq_execAll_dependentStream :
    (feed (fun _ => 0) default 0#32 dependentStream 10).registers 3 = 28#32 := by
  rw [((feed_eq_execAll (fun _ => 0) default 0#32 dependentStream dependentStream_streamed
    (by decide)).2 10 (by decide)).1]
  decide +kernel

end MiniRiscV
