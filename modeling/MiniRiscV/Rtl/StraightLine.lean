import MiniRiscV.Lib.Execution
import MiniRiscV.Rtl.Comparison
import MiniRiscV.Rtl.Forwarding
import MiniRiscV.Rtl.Loads
import MiniRiscV.Rtl.Arithmetic

/-! The instructions without transfers, as the blocks of the processor and RV32I execute them. -/

namespace MiniRiscV

open ControlLogic ByteStore
open Rv32i (Instr Machine)

/-- The registers are those of the machine, and so are the bytes of the data memory. -/
structure Represents (a : Arch) (m : Machine) : Prop where
  registers : ∀ r, a.registers r = m.regs r
  mem : ∀ i ≤ 63, a.mem.byte i = m.mem (BitVec.ofNat 32 i)

/-- The processor computes what RV32I does for this instruction, in this state. -/
def Computes (m : Machine) : Instr → Prop
  | .register op _ rs1 rs2 =>
    op = .sra → (m.regs rs1).msb = false ∨ (m.regs rs2).extractLsb' 0 5 = 0
  -- The right shifts of an immediate always give zero.
  | .immediate op _ rs1 imm =>
    op ≠ .sub ∧ (op = .srl ∨ op = .sra → op.result (m.regs rs1) (imm.signExtend 32) = 0)
  -- Each comparison is made in the order of the other one.
  | .compare _ _ rs1 rs2 => (m.regs rs1).msb = (m.regs rs2).msb
  | .compareImm _ _ _ _ => False
  | .lui _ _ => True
  -- Nothing is sign-extended, and the data memory has 64 bytes.
  | .load op _ rs1 imm =>
    (m.address rs1 imm).toNat + op.size ≤ 64 ∧
      (op = .lb → (m.bytes (m.address rs1 imm) 0).msb = false) ∧
      (op = .lh → (m.bytes (m.address rs1 imm) 1).msb = false)
  | .store op rs1 _ imm => (m.address rs1 imm).toNat + op.size ≤ 64

/-- The instruction is executed as RV32I defines, and assigns nothing but zero to register zero. -/
def Supported (m : Machine) (i : Instr) : Prop :=
  Computes m i ∧ ∀ target ∈ m.assigned i, target.1 = 0 → target.2 = 0

instance (m : Machine) : (i : Instr) → Decidable (Computes m i)
  | .register _ _ _ _ => inferInstanceAs (Decidable (_ → _))
  | .immediate _ _ _ _ => inferInstanceAs (Decidable (_ ∧ _))
  | .compare _ _ _ _ => inferInstanceAs (Decidable (_ = _))
  | .compareImm _ _ _ _ => instDecidableFalse
  | .lui _ _ => instDecidableTrue
  | .load _ _ _ _ => inferInstanceAs (Decidable (_ ∧ _))
  | .store _ _ _ _ => inferInstanceAs (Decidable (_ ≤ _))

instance (m : Machine) (i : Instr) : Decidable (Supported m i) :=
  @instDecidableAnd _ _ _ (Option.decidableForallMem (m.assigned i))

section Fields

variable (op : Rv32i.Operation) (set : Rv32i.SetLess) (ld : Rv32i.Load) (st : Rv32i.Store)
  (d s1 s2 : BitVec 5) (imm : BitVec 12)

/-- The word of an operation on two registers. -/
theorem performs_encode : Performs (Instr.register op d s1 s2).encode op := by
  obtain ⟨opc, -, -, -, f3, f7⟩ := Rv32i.fields_rType 0b0110011#7 d s1 s2 op.funct3 op.funct7
  exact ⟨opc, f3, f7⟩

/-- The word of an operation with an immediate. -/
theorem performsImm_encode (notSub : op ≠ .sub) :
    PerformsImm (Instr.immediate op d s1 imm).encode op := by
  -- A shift has its amount in the field of a register.
  by_cases shift : op.shifts
  · obtain ⟨opc, -, -, -, f3, f7⟩ := Rv32i.fields_rType 0b0010011#7 d s1 (imm.extractLsb' 0 5)
      op.funct3 op.funct7
    rw [Instr.encode, if_pos shift]
    exact ⟨opc, notSub, f3, fun _ => f7⟩
  · obtain ⟨opc, -, -, f3, -⟩ := Rv32i.fields_iType 0b0010011#7 d s1 op.funct3 imm
    rw [Instr.encode, if_neg shift]
    exact ⟨opc, notSub, f3, fun other => absurd other shift⟩

/-- The registers of an operation with an immediate, and the value it computes with. -/
theorem registers_immediate :
    rd (Instr.immediate op d s1 imm).encode = d ∧ rs1 (Instr.immediate op d s1 imm).encode = s1 ∧
      (op.shifts → rs2 (Instr.immediate op d s1 imm).encode = imm.extractLsb' 0 5) ∧
      (¬ op.shifts → Rv32i.immI (Instr.immediate op d s1 imm).encode = imm) := by
  by_cases shift : op.shifts
  · obtain ⟨-, rd, s1', s2', -, -⟩ := Rv32i.fields_rType 0b0010011#7 d s1 (imm.extractLsb' 0 5)
      op.funct3 op.funct7
    rw [Instr.encode, if_pos shift]
    exact ⟨rd, s1', fun _ => s2', fun other => absurd shift other⟩
  · obtain ⟨-, rd, s1', -, immI⟩ := Rv32i.fields_iType 0b0010011#7 d s1 op.funct3 imm
    rw [Instr.encode, if_neg shift]
    exact ⟨rd, s1', fun other => absurd other shift, fun _ => immI⟩

/-- The word of a comparison for a result. -/
theorem setsLess_encode : SetsLess (Instr.compare set d s1 s2).encode ∧
    funct3 (Instr.compare set d s1 s2).encode = set.funct3 := by
  obtain ⟨opc, -, -, -, f3, -⟩ := Rv32i.fields_rType 0b0110011#7 d s1 s2 set.funct3 0
  refine ⟨⟨opc, ?_⟩, f3⟩
  cases set with
  | slt => exact .inl f3
  | sltu => exact .inr f3

end Fields

section Results

variable {inst a b : Word} {op : Rv32i.Operation}

/-- The ALU computes an operation on two registers as RV32I does, but for a negative shift. -/
theorem resultOf_performs (performs : Performs inst op)
    (right : op = .sra → a.msb = false ∨ b.extractLsb' 0 5 = 0) :
    Arch.resultOf inst a b = op.result a b := by
  have regreg := performs.1
  rw [← (alu_eq_result_iff op a b).mpr right, Arch.resultOf, aluOpO_performs performs]
  -- No immediate takes the place of the second operand.
  simp [b2SelO, regreg]

/-- With an immediate it does so where a right shift gives zero. -/
theorem resultOf_performsImm (performs : PerformsImm inst op) {imm : Word}
    (operand : if op.shifts then ((Rv32i.immI inst).signExtend 32).extractLsb' 0 5 =
      imm.extractLsb' 0 5 else (Rv32i.immI inst).signExtend 32 = imm)
    (right : op = .srl ∨ op = .sra → op.result a imm = 0) :
    Arch.resultOf inst a b = op.result a imm := by
  have regimm := performs.1
  have selected : b2SelO false inst = true := by
    simp [b2SelO, regimm, instRegimm, instNop, instRegreg]
  rw [Arch.resultOf, aluOpO_performsImm performs, selected, immGen_regimm regimm]
  by_cases shift : op = .srl ∨ op = .sra
  · rw [if_pos shift, right shift]
    rfl
  · rw [if_neg shift]
    -- The other operations are computed as with a register.
    have notSra : op = .sra → a.msb = false ∨ imm.extractLsb' 0 5 = 0 :=
      fun sra => absurd (.inr sra) shift
    rw [← (alu_eq_result_iff op a imm).mpr notSra]
    by_cases shifts : op.shifts
    · rw [if_pos shifts] at operand
      exact alu_shift shifts a operand
    · rw [if_neg shifts] at operand
      rw [if_pos rfl, operand]

/-- A comparison for a result is right when its operands have the same sign. -/
theorem resultOf_setsLess (sets : SetsLess inst) (signs : a.msb = b.msb) :
    Arch.resultOf inst a b = Rv32i.setLess (funct3 inst) a b := by
  obtain ⟨regreg, code⟩ := sets
  have mode : brUnO false inst = (funct3 inst = 0b011#3 : Bool) := by
    rcases code with code | code <;>
      simp [brUnO, regreg, code, instBranch, instRegreg, instRegimm]
  have operation : ∀ eq lt, aluOpO false inst eq lt = setLessThan eq lt := by
    intro eq lt
    rcases code with code | code <;> simp [aluOpO, regreg, code]
  rw [Arch.resultOf, operation, branchComp_eq, mode]
  simp only [decide_eq_true_eq]
  rw [alu_setLessThan]
  -- With the same signs the two orders agree.
  have orders := (Rv32i.slt_eq_ult_iff a b).mpr signs
  simp only [Rv32i.setLess, ← BitVec.slt_iff_toInt_lt, ← BitVec.lt_def, ← BitVec.ult_iff_lt,
    orders, ite_self]

/-- `LUI` gives its immediate, shifted to its place. -/
theorem resultOf_lui (lui : opcode inst = instLui) :
    Arch.resultOf inst a b = (Rv32i.immU inst).setWidth 32 <<< 12 := by
  have selected : b2SelO false inst = true := by
    simp [b2SelO, lui, instLui, instNop, instRegreg]
  have operation : ∀ eq lt, aluOpO false inst eq lt = .lui := by
    intro eq lt
    simp [aluOpO, lui, instLui, instRegreg, instRegimm, instLoad, instStore, instBranch,
      instJalr, instJal]
  rw [Arch.resultOf, operation, selected, immGen_upper (.inl lui)]
  rfl

/-- A load computes its address. -/
theorem resultOf_load (load : opcode inst = instLoad) :
    Arch.resultOf inst a b = a + (Rv32i.immI inst).signExtend 32 := by
  have selected : b2SelO false inst = true := by
    simp [b2SelO, load, instLoad, instNop, instRegreg]
  have operation : ∀ eq lt, aluOpO false inst eq lt = .add := by
    intro eq lt
    simp [aluOpO, load, instLoad, instRegreg, instRegimm]
  rw [Arch.resultOf, operation, selected, immGen_load load]
  rfl

/-- A store computes its address. -/
theorem resultOf_store (store : opcode inst = instStore) :
    Arch.resultOf inst a b = a + (Rv32i.immS inst).signExtend 32 := by
  have selected : b2SelO false inst = true := by
    simp [b2SelO, store, instStore, instNop, instRegreg]
  have operation : ∀ eq lt, aluOpO false inst eq lt = .add := by
    intro eq lt
    simp [aluOpO, store, instStore, instLoad, instRegreg, instRegimm]
  rw [Arch.resultOf, operation, selected, immGen_store store]
  rfl

end Results

namespace Represents

variable {outer : Word → BitVec 8} {a : Arch} {m : Machine} {inst : Word} {i : Instr}

/-- An instruction whose value is put on the write-back bus has the effect of assigning it. -/
theorem assign (rep : Represents a m) {d : BitVec 5} {value : Word}
    (assigned : m.assigned i = some (d, value)) (stored : m.stored i = m.mem)
    (zero : d = 0 → value = 0) (writes : hasResult inst) (target : rd inst = d)
    (bus : a.writeBack outer inst = value) : Represents (a.exec outer inst) (m.exec i) where
  registers r := by
    rw [Arch.exec_registers, target, bus]
    change _ = m.write (m.assigned i) r
    rw [assigned, Machine.write, rep.registers r]
    by_cases same : d = r
    · subst same
      by_cases none : d = 0
      · -- Register zero is given the zero it has already.
        rw [if_pos ⟨writes, rfl⟩, if_neg fun both => both.2 none, zero none, none]
        exact m.zero.symm
      · rw [if_pos ⟨writes, rfl⟩, if_pos ⟨rfl, none⟩]
    · rw [if_neg fun both => same both.2, if_neg fun both => same both.1.symm]
  mem j inside := by
    have noStore : memRwO false inst = false := by
      by_contra store
      simp only [memRwO, Bool.not_false, Bool.true_and, decide_eq_true_eq,
        Bool.not_eq_false] at store
      simp [hasResult, store] at writes
    change Mem.byte (if memRwO false inst then _ else a.mem) j = m.stored i _
    rw [noStore, stored]
    exact rep.mem j inside

/-- An instruction that computes its value assigns the ALU result. -/
theorem assign_result (rep : Represents a m) {d : BitVec 5} {value : Word}
    (assigned : m.assigned i = some (d, value)) (stored : m.stored i = m.mem)
    (zero : d = 0 → value = 0)
    (kind : opcode inst = instRegreg ∨ opcode inst = instRegimm ∨ opcode inst = instLui)
    (target : rd inst = d)
    (result : Arch.resultOf inst (m.regs (rs1 inst)) (m.regs (rs2 inst)) = value) :
    Represents (a.exec outer inst) (m.exec i) := by
  -- None of the three kinds of instruction takes its value from the memory.
  have writes : hasResult inst ∧ wbSel1O false inst := by
    rcases kind with is | is | is <;>
      simp [hasResult, wbSel1O, is, instRegreg, instRegimm, instLui, instBranch, instNop,
        instStore, instLoad]
  refine rep.assign assigned stored zero writes.1 target ?_
  rw [Arch.writeBack, if_pos writes.2, Arch.result, rep.registers, rep.registers, result]

/-- The bytes of an access inside the data memory. -/
theorem bytes (rep : Represents a m) {addr : Word} {size j : ℕ} (inside : addr.toNat + size ≤ 64)
    (less : j < size) : a.mem.byte (addr.toNat + j) = m.bytes addr j := by
  -- An address inside is followed by the next number.
  rw [rep.mem _ (by omega), Machine.bytes, BitVec.ofNat_add, BitVec.ofNat_toNat,
    BitVec.setWidth_eq]

/-- A load inside the data memory gives what RV32I defines, but for the two sign extensions. -/
theorem loaded_eq (rep : Represents a m) {op : Rv32i.Load} {addr : Word}
    (load : opcode inst = instLoad) (code : funct3 inst = op.funct3)
    (address : a.result inst = addr) (inside : addr.toNat + op.size ≤ 64)
    (byte : op = .lb → (m.bytes addr 0).msb = false)
    (half : op = .lh → (m.bytes addr 1).msb = false) :
    a.loaded outer inst = Rv32i.loadValue op.funct3 (m.bytes addr) := by
  have notNop : opcode inst ≠ instNop := by rw [load]; decide
  have reads : memRwO false inst = false := by simp [memRwO, load, instLoad, instStore]
  have size : accessSize (memSizeO false inst) = op.size := by
    cases op <;> simp [memSizeO, notNop, code, Rv32i.Load.funct3, Rv32i.Load.size, accessSize,
      memByte, memHalf, memWord]
  have within : addr.toNat + accessSize (memSizeO false inst) - 1 ≤ 63 := by omega
  rw [Arch.loaded, reads, address, Mem.dataR_inside (by decide) outer a.mem within, size,
    littleEndian_congr fun j less => rep.bytes inside less]
  -- Two of the five loads extend a sign, and the others zeros.
  cases op with
  | lb =>
    have zeros := (Rv32i.setWidth_eq_signExtend_iff (w := 32) (by decide) _).mpr (byte rfl)
    exact littleEndian_one.trans zeros
  | lh =>
    have sign : (m.bytes addr 1 ++ m.bytes addr 0).msb = false := by
      rw [BitVec.msb_append]
      exact half rfl
    have zeros := (Rv32i.setWidth_eq_signExtend_iff (w := 32) (by decide) _).mpr sign
    exact littleEndian_two.trans zeros
  | lw => exact littleEndian_four
  | lbu => exact littleEndian_one
  | lhu => exact littleEndian_two

/-- A store inside the data memory leaves the bytes that RV32I defines. -/
theorem stored_eq (rep : Represents a m) {op : Rv32i.Store} {s1 s2 : BitVec 5} {imm : BitVec 12}
    (store : opcode inst = instStore) (code : funct3 inst = op.funct3)
    (address : a.result inst = m.address s1 imm) (data : a.registers (rs2 inst) = m.regs s2)
    (inside : (m.address s1 imm).toNat + op.size ≤ 64) :
    Represents (a.exec outer inst) (m.exec (.store op s1 s2 imm)) where
  registers r := by
    -- A store has no result.
    rw [Arch.exec_registers, if_neg (by simp [hasResult, store])]
    exact rep.registers r
  mem k bound := by
    have notNop : opcode inst ≠ instNop := by rw [store]; decide
    have writes : memRwO false inst = true := by simp [memRwO, store]
    have sized : memSizeO false inst ≠ 0b11#2 ∧ accessSize (memSizeO false inst) = op.size := by
      cases op <;> simp [memSizeO, notNop, code, Rv32i.Store.funct3, Rv32i.Store.size, accessSize,
        memByte, memHalf, memWord]
    have positive : 0 < op.size := by cases op <;> decide
    change Mem.byte (if memRwO false inst then _ else a.mem) k = _
    rw [writes, if_pos rfl, address, data, Mem.byte_clockedWrite (by decide) a.mem sized.1 _
      (by omega) (by rw [sized.2]; omega) bound, sized.2, rep.mem k bound]
    -- The number of a byte is counted from the address on both sides.
    have offset : (BitVec.ofNat 32 k - m.address s1 imm).toNat < op.size ↔
        (m.address s1 imm).toNat ≤ k ∧ k < (m.address s1 imm).toNat + op.size := by
      rw [BitVec.toNat_sub, BitVec.toNat_ofNat]
      omega
    change _ = if (BitVec.ofNat 32 k - m.address s1 imm).toNat < op.size then _ else _
    by_cases covered : (m.address s1 imm).toNat ≤ k ∧ k < (m.address s1 imm).toNat + op.size
    · have number : (BitVec.ofNat 32 k - m.address s1 imm).toNat =
          k - (m.address s1 imm).toNat := by
        rw [BitVec.toNat_sub, BitVec.toNat_ofNat]
        omega
      rw [if_pos ⟨covered.1, covered.2, by omega⟩, if_pos (offset.mpr covered), number]
    · rw [if_neg fun all => covered ⟨all.1, all.2.1⟩, if_neg (mt offset.mp covered)]

/-- The blocks of the processor execute a supported instruction as RV32I defines. -/
theorem exec_encode (rep : Represents a m) (supported : Supported m i) :
    Represents (a.exec outer i.encode) (m.exec i) := by
  obtain ⟨computes, zero⟩ := supported
  -- One case for each format; all but the stores assign a register.
  cases i with
  | register op d s1 s2 =>
    obtain ⟨opc, hasRd, hasRs1, hasRs2, -, -⟩ := Rv32i.fields_rType 0b0110011#7 d s1 s2 op.funct3
      op.funct7
    refine rep.assign_result rfl rfl (zero _ rfl) (.inl opc) hasRd ?_
    rw [show rs1 (Instr.register op d s1 s2).encode = s1 from hasRs1,
      show rs2 (Instr.register op d s1 s2).encode = s2 from hasRs2]
    exact resultOf_performs (performs_encode op d s1 s2) computes
  | immediate op d s1 imm =>
    obtain ⟨notSub, right⟩ := computes
    have performs := performsImm_encode op d s1 imm notSub
    obtain ⟨hasRd, hasRs1, amount, whole⟩ := registers_immediate op d s1 imm
    refine rep.assign_result rfl rfl (zero _ rfl) (.inr (.inl performs.1)) hasRd ?_
    rw [hasRs1]
    refine resultOf_performsImm performs ?_ right
    -- The amount of a shift is all that it uses of its immediate.
    by_cases shifts : op.shifts
    · rw [if_pos shifts, shamt_immI, amount shifts]
      refine BitVec.eq_of_getLsbD_eq fun k inside => ?_
      rw [BitVec.getLsbD_extractLsb', BitVec.getLsbD_extractLsb', BitVec.getLsbD_signExtend,
        BitVec.getLsbD_setWidth, BitVec.getLsbD_extractLsb']
      simp [inside, show k < 12 by omega, show k < 32 by omega]
    · rw [if_neg shifts, whole shifts]
  | compare op d s1 s2 =>
    obtain ⟨opc, hasRd, hasRs1, hasRs2, -, -⟩ := Rv32i.fields_rType 0b0110011#7 d s1 s2 op.funct3 0
    obtain ⟨sets, code⟩ := setsLess_encode op d s1 s2
    refine rep.assign_result rfl rfl (zero _ rfl) (.inl opc) hasRd ?_
    rw [show rs1 (Instr.compare op d s1 s2).encode = s1 from hasRs1,
      show rs2 (Instr.compare op d s1 s2).encode = s2 from hasRs2, ← code]
    exact resultOf_setsLess sets computes
  | compareImm op d s1 imm => exact absurd computes id
  | lui d imm =>
    obtain ⟨opc, hasRd, immU⟩ := Rv32i.fields_uType 0b0110111#7 d imm
    have lui : opcode (Instr.lui d imm).encode = instLui := opc
    refine rep.assign_result rfl rfl (zero _ rfl) (.inr (.inr lui)) hasRd ?_
    rw [resultOf_lui lui, show Rv32i.immU (Instr.lui d imm).encode = imm from immU]
  | load op d s1 imm =>
    obtain ⟨opc, hasRd, hasRs1, code, immI⟩ := Rv32i.fields_iType 0b0000011#7 d s1 op.funct3 imm
    have load : opcode (Instr.load op d s1 imm).encode = instLoad := opc
    obtain ⟨inside, byte, half⟩ := computes
    refine rep.assign rfl rfl (zero _ rfl) (Core.hasResult_of_load load) hasRd ?_
    rw [Arch.writeBack, if_neg (by simp [wbSel1O, load])]
    refine rep.loaded_eq load code ?_ inside byte half
    rw [Arch.result, resultOf_load load, rep.registers, Machine.address,
      show rs1 (Instr.load op d s1 imm).encode = s1 from hasRs1,
      show Rv32i.immI (Instr.load op d s1 imm).encode = imm from immI]
  | store op s1 s2 imm =>
    obtain ⟨opc, hasRs1, hasRs2, code, immS⟩ := Rv32i.fields_sType 0b0100011#7 s1 s2 op.funct3 imm
    have store : opcode (Instr.store op s1 s2 imm).encode = instStore := opc
    refine rep.stored_eq store code ?_ ?_ computes
    · rw [Arch.result, resultOf_store store, rep.registers, Machine.address,
        show rs1 (Instr.store op s1 s2 imm).encode = s1 from hasRs1,
        show Rv32i.immS (Instr.store op s1 s2 imm).encode = imm from immS]
    · rw [rep.registers, show rs2 (Instr.store op s1 s2 imm).encode = s2 from hasRs2]

end Represents

end MiniRiscV
