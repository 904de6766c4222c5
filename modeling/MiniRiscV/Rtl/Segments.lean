import Mathlib.Data.List.ReduceOption
import MiniRiscV.Rtl.Serial
import MiniRiscV.Rtl.StraightLine

/-! Straight-line parts of any run, wherever they are fetched from, have their sequential effect. -/

namespace MiniRiscV

open ControlLogic
open Rv32i (Instr Machine)

/-- The instruction reads a register that the older one, a load or a jump, has not written yet. -/
def Hazard (older inst : Word) : Prop :=
  (opcode older = instLoad ∨ wbSel2O false older) ∧
    ((ReadsRs1 inst ∧ rs1 inst = rd older) ∨ (ReadsRs2 inst ∧ rs2 inst = rd older))

instance (older inst : Word) : Decidable (Hazard older inst) :=
  inferInstanceAs (Decidable (_ ∧ _))

namespace Arch

/-- Without a program counter operand, only the two registers matter. -/
theorem resultAt_streamed {inst : Word} (streamed : Streamed inst) (pc a b : Word) :
    resultAt inst pc a b = resultOf inst a b := by
  simp [resultAt, resultOf, a2SelO_streamed streamed]

/-- With its own result and store data, an instruction without a link is executed as before. -/
theorem execAt_eq_exec (outer : Word → BitVec 8) (s : Arch) {inst result data : Word}
    (noLink : wbSel2O false inst = false) (computed : result = s.result inst)
    (store : memRwO false inst → data = s.registers (rs2 inst)) (link : Word) :
    s.execAt outer inst result data link = s.exec outer inst := by
  subst computed
  -- The store data matter for a store only.
  by_cases stores : memRwO false inst
  · simp [execAt, exec, noLink, store stores, moved, writeBack, loaded]
  · simp [execAt, exec, noLink, stores, moved, writeBack, loaded]

/-- Instructions that come last are executed last. -/
theorem execAll_append (outer : Word → BitVec 8) (s : Arch) (insts last : List Word) :
    s.execAll outer (insts ++ last) = (s.execAll outer insts).execAll outer last :=
  List.foldl_append

end Arch

namespace Serial

variable {outer : Word → BitVec 8} {fetch : Word → Word} {t : Trace}

/-- A register that is neither being loaded nor linked is seen as the sequential one. -/
theorem operand_eq (serial : Serial outer fetch t) (k : ℕ) (r : BitVec 5)
    (settled : rd (t.inst (k + 1)) = r →
      opcode (t.inst (k + 1)) ≠ instLoad ∧ wbSel2O false (t.inst (k + 1)) = false) :
    t.operand k r = (t.arch (k + 2)).registers r := by
  cases k with
  | zero =>
    -- The instructions of the reset have no result.
    have noResult : ¬ hasResult (t.inst 1) := by
      rw [serial.empty 1 (by decide)]
      decide
    rw [Trace.operand, if_neg fun writes => noResult writes.1, serial.reset 1 (by decide),
      serial.reset 2 (by decide)]
  | succ k =>
    rw [Trace.operand, serial.executed k]
    change _ = Registers.clockedWrite _ _ _ _ r
    simp only [Registers.clockedWrite, Arch.regWEnO_eq_hasResult]
    by_cases writes : hasResult (t.inst (k + 2))
    · by_cases same : rd (t.inst (k + 2)) = r
      · -- Its value has been handed on as an ALU result.
        obtain ⟨notLoad, noLink⟩ := settled same
        have select : wbSel1O false (t.inst (k + 2)) = true := by
          simp [wbSel1O, notLoad, notNop_of_hasResult writes]
        simp [writes, Registers.write, same, noLink, Arch.moved, select]
      · simp [writes, Registers.write, same, Ne.symm same]
    · simp [writes]

/-- Behind no hazard, an instruction of a straight line is executed on the state before it. -/
theorem executed_streamed (serial : Serial outer fetch t) {k : ℕ}
    (streamed : Streamed (t.inst (k + 2))) (safe : ¬ Hazard (t.inst (k + 1)) (t.inst (k + 2))) :
    t.arch (k + 3) = (t.arch (k + 2)).exec outer (t.inst (k + 2)) := by
  -- The registers that it reads are settled.
  have settled {r : BitVec 5} (reads : (ReadsRs1 (t.inst (k + 2)) ∧ rs1 (t.inst (k + 2)) = r) ∨
      (ReadsRs2 (t.inst (k + 2)) ∧ rs2 (t.inst (k + 2)) = r)) :
      rd (t.inst (k + 1)) = r →
        opcode (t.inst (k + 1)) ≠ instLoad ∧ wbSel2O false (t.inst (k + 1)) = false := by
    rintro rfl
    refine ⟨fun load => safe ⟨.inl load, reads⟩, ?_⟩
    by_contra link
    exact safe ⟨.inr (Bool.eq_true_of_not_eq_false link), reads⟩
  have first (reads : ReadsRs1 (t.inst (k + 2))) :
      t.first k = (t.arch (k + 2)).registers (rs1 (t.inst (k + 2))) :=
    serial.operand_eq k _ (settled (.inl ⟨reads, rfl⟩))
  have second (reads : ReadsRs2 (t.inst (k + 2))) :
      t.second k = (t.arch (k + 2)).registers (rs2 (t.inst (k + 2))) := by
    have needs : needsRs2 (t.inst (k + 2)) := by
      rcases reads with is | is <;> simp [needsRs2, is]
    rw [Trace.second, if_pos needs]
    exact serial.operand_eq k _ (settled (.inr ⟨reads, rfl⟩))
  rw [serial.executed]
  refine Arch.execAt_eq_exec outer _ (wbSel2O_streamed streamed) ?_ (fun store => ?_) _
  · rw [serial.computed, Arch.resultAt_streamed streamed]
    exact Arch.resultOf_congr streamed first second
  · refine second (.inr ?_)
    simpa [memRwO] using store

/-- The sequential effect of a part of a trace is that of its instructions, one after the other. -/
theorem execAll_segment (serial : Serial outer fetch t) {k count : ℕ}
    (streamed : ∀ j < count, Streamed (t.inst (k + j + 2)))
    (safe : ∀ j < count, ¬ Hazard (t.inst (k + j + 1)) (t.inst (k + j + 2))) :
    t.arch (k + count + 2) =
      (t.arch (k + 2)).execAll outer ((List.range count).map fun j => t.inst (k + j + 2)) := by
  -- By induction on the number of instructions, the last of which comes last.
  induction count with
  | zero => rfl
  | succ count ih =>
    have before := ih (fun j less => streamed j (by omega)) fun j less => safe j (by omega)
    have last := serial.executed_streamed (streamed count (by omega)) (safe count (by omega))
    rw [List.range_succ, List.map_append, Arch.execAll_append, ← before]
    exact last

end Serial

/-- The word of an instruction, or the empty word. -/
def wordOf : Option Instr → Word
  | none => 0
  | some i => i.encode

/-- Each instruction is one that the processor supports, in the state that the others leave. -/
def SupportedAll (m : Machine) : List (Option Instr) → Prop
  | [] => True
  | none :: program => SupportedAll m program
  | some i :: program => Supported m i ∧ SupportedAll (m.exec i) program

instance decidableSupportedAll : (m : Machine) → (program : List (Option Instr)) →
    Decidable (SupportedAll m program)
  | _, [] => instDecidableTrue
  | m, none :: program => decidableSupportedAll m program
  | m, some i :: program =>
    have := decidableSupportedAll (m.exec i) program
    inferInstanceAs (Decidable (_ ∧ _))

section Programs

variable {outer : Word → BitVec 8} {a : Arch} {m : Machine} {i : Instr}
  {program : List (Option Instr)}

/-- A supported instruction belongs to a straight line. -/
theorem streamed_encode (supported : Supported m i) : Streamed i.encode := by
  -- The comparisons with an immediate are left out, and they are not supported.
  cases i with
  | register op d s1 s2 => exact .inr (.inl (performs_encode op d s1 s2).1)
  | immediate op d s1 imm =>
    obtain ⟨regimm, -, code, -⟩ := performsImm_encode op d s1 imm supported.1.1
    refine .inr (.inr (.inl ⟨regimm, ?_, ?_⟩))
    · rw [code]
      cases op <;> decide
    · rw [code]
      cases op <;> decide
  | compare op d s1 s2 => exact .inr (.inl (setsLess_encode op d s1 s2).1.1)
  | compareImm op d s1 imm => exact absurd supported.1 id
  | lui d imm => exact .inr (.inr (.inr (.inl (Rv32i.fields_uType _ d imm).1)))
  | load op d s1 imm =>
    exact .inr (.inr (.inr (.inr (.inr (Rv32i.fields_iType _ d s1 op.funct3 imm).1))))
  | store op s1 s2 imm =>
    exact .inr (.inr (.inr (.inr (.inl (Rv32i.fields_sType _ s1 s2 op.funct3 imm).1))))

/-- So does every word of a program that is supported throughout. -/
theorem streamed_wordOf (supported : SupportedAll m program) :
    ∀ inst ∈ program.map wordOf, Streamed inst := by
  -- By induction on the program, with the state before each instruction.
  induction program generalizing m with
  | nil => simp
  | cons head program ih =>
    cases head with
    | none => exact List.forall_mem_cons.mpr ⟨.inl rfl, ih supported⟩
    | some i => exact List.forall_mem_cons.mpr ⟨streamed_encode supported.1, ih supported.2⟩

/-- The beginning of a supported program is supported. -/
theorem SupportedAll.take (supported : SupportedAll m program) (count : ℕ) :
    SupportedAll m (program.take count) := by
  -- By induction on the program, with the state before each instruction.
  induction program generalizing m count with
  | nil => simpa using supported
  | cons head program ih =>
    cases count with
    | zero => trivial
    | succ count =>
      cases head with
      | none => exact @ih m supported count
      | some i => exact ⟨supported.1, ih supported.2 count⟩

/-- The blocks of the processor execute a supported program as RV32I defines. -/
theorem Represents.execAll (rep : Represents a m) (supported : SupportedAll m program) :
    Represents (a.execAll outer (program.map wordOf)) (m.execAll program.reduceOption) := by
  induction program generalizing a m with
  | nil => exact rep
  | cons head program ih =>
    cases head with
    | none =>
      -- The empty word has no effect.
      have idle : (a.exec outer 0#32).execAll outer (program.map wordOf) =
          a.execAll outer (program.map wordOf) := by rw [Arch.exec_zero]
      rw [List.reduceOption_cons_of_none]
      exact idle ▸ ih rep supported
    | some i =>
      rw [List.reduceOption_cons_of_some]
      exact ih (rep.exec_encode supported.1) supported.2

end Programs

/-- The state behind a reset: zeros in the registers, and ones in the memory. -/
def machineReset : Machine where
  regs _ := 0
  mem _ := 0xff
  zero := rfl

/-- The processor starts in the state of the machine. -/
theorem represents_reset : Represents Arch.reset machineReset where
  registers _ := rfl
  mem _ inside := dif_pos (Nat.lt_succ_of_le inside)

namespace Riscv

variable {n : ℕ} {outer : Word → BitVec 8} {outerInst : BitVec 9 → Word}

/-- What the instruction in write-back finds, its store or load having been made before. -/
def archAt (start : Riscv n) (outer : Word → BitVec 8) (outerInst : BitVec 9 → Word)
    (cycle : ℕ) : Arch where
  registers := (start.run outer outerInst cycle).core.registers
  mem := (start.run outer outerInst (cycle - 1)).core.mem

/-- The words in execute in some cycles, one behind the other. -/
def executing (start : Riscv n) (outer : Word → BitVec 8) (outerInst : BitVec 9 → Word)
    (cycle count : ℕ) : List Word :=
  (List.range count).map fun j => (start.run outer outerInst (cycle + j)).core.instReg0

/--
A part of any run without transfers and hazards has the effect of its instructions in order.

It may stand behind a jump or a branch, or between two of them.
-/
theorem segment_execAll (start : Riscv n) (cycle count : ℕ)
    (streamed : ∀ j < count, Streamed (start.run outer outerInst (cycle + j)).core.instReg0)
    (safe : ∀ j < count, ¬ Hazard (start.run outer outerInst (cycle + j)).core.instReg1
      (start.run outer outerInst (cycle + j)).core.instReg0) :
    start.archAt outer outerInst (cycle + count + 2) =
      (start.archAt outer outerInst (cycle + 2)).execAll outer
        (start.executing outer outerInst cycle count) :=
  (serial_trace start outer outerInst).execAll_segment streamed safe

/-- `jal r1, 8` and behind it `addi r2, r0, 5`, `sw r2, 0(r0)` and `lw r3, 0(r0)`. -/
def behindJump : Riscv 20 :=
  holding [0x008000EF#32, 0x00500113#32, 0x00202023#32, 0x00002183#32]

/-- The three instructions behind the jump are executed before it is made. -/
theorem segment_execAll_behindJump :
    behindJump.archAt (fun _ => 0) (fun _ => 0) 8 =
      (behindJump.archAt (fun _ => 0) (fun _ => 0) 5).execAll (fun _ => 0)
        (behindJump.executing (fun _ => 0) (fun _ => 0) 3 3) :=
  segment_execAll behindJump 3 3 (by decide) (by decide)

/--
Where the words are those of supported instructions, the effect is the one that RV32I defines.
-/
theorem segment_represents (start : Riscv n) (cycle : ℕ) {program : List (Option Instr)}
    {m : Machine}
    (words : start.executing outer outerInst cycle program.length = program.map wordOf)
    (safe : ∀ j < program.length, ¬ Hazard (start.run outer outerInst (cycle + j)).core.instReg1
      (start.run outer outerInst (cycle + j)).core.instReg0)
    (rep : Represents (start.archAt outer outerInst (cycle + 2)) m)
    (supported : SupportedAll m program) :
    Represents (start.archAt outer outerInst (cycle + program.length + 2))
      (m.execAll program.reduceOption) := by
  have streamed : ∀ j < program.length,
      Streamed (start.run outer outerInst (cycle + j)).core.instReg0 := by
    intro j less
    refine streamed_wordOf supported _ ?_
    rw [← words]
    exact List.mem_map.mpr ⟨j, List.mem_range.mpr less, rfl⟩
  have sequential := (serial_trace start outer outerInst).execAll_segment streamed safe
  -- The sequential effect is the one of RV32I, instruction by instruction.
  have same : start.archAt outer outerInst (cycle + program.length + 2) =
      (start.archAt outer outerInst (cycle + 2)).execAll outer (program.map wordOf) := by
    rw [← words]
    exact sequential
  rw [same]
  exact rep.execAll supported

/-- The same three instructions behind the empty words of the reset. -/
theorem segment_represents_load :
    Represents
      ((holding [0x00500113#32, 0x00202023#32, 0x00002183#32]).archAt (fun _ => 0) (fun _ => 0) 7)
      (machineReset.execAll [.immediate .add 2 0 5, .store .sw 0 2 0, .load .lw 3 0 0]) :=
  @segment_represents 20 (fun _ => 0) (fun _ => 0)
    (holding [0x00500113#32, 0x00202023#32, 0x00002183#32]) 0
    [none, none, some (.immediate .add 2 0 5), some (.store .sw 0 2 0), some (.load .lw 3 0 0)]
    machineReset (by decide) (by decide) represents_reset (by decide)

end Riscv

end MiniRiscV
