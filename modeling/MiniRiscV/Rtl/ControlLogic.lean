import MiniRiscV.Rtl.Execute

/-! `control_logic`: the outputs of its combinational block, one definition for each signal. -/

namespace MiniRiscV

/-- `inst[6:0]`. -/
def opcode (inst : Word) : BitVec 7 := inst.extractLsb' 0 7

/-- `inst[11:7]`. -/
def rd (inst : Word) : BitVec 5 := inst.extractLsb' 7 5

/-- `inst[14:12]`. -/
def funct3 (inst : Word) : BitVec 3 := inst.extractLsb' 12 3

/-- `inst[19:15]`. -/
def rs1 (inst : Word) : BitVec 5 := inst.extractLsb' 15 5

/-- `inst[24:20]`. -/
def rs2 (inst : Word) : BitVec 5 := inst.extractLsb' 20 5

/-- `inst[31:25]`. -/
def funct7 (inst : Word) : BitVec 7 := inst.extractLsb' 25 7

namespace ControlLogic

def instRegreg : BitVec 7 := 0b0110011#7
def instRegimm : BitVec 7 := 0b0010011#7
def instLoad : BitVec 7 := 0b0000011#7
def instStore : BitVec 7 := 0b0100011#7
def instBranch : BitVec 7 := 0b1100011#7
def instJalr : BitVec 7 := 0b1100111#7
def instJal : BitVec 7 := 0b1101111#7
def instLui : BitVec 7 := 0b0110111#7
def instAuipc : BitVec 7 := 0b0010111#7
def instNop : BitVec 7 := 0b0000000#7

/-- `mem_size_t`, as the two wires to `mem` carry it. -/
def memByte : BitVec 2 := 0
def memHalf : BitVec 2 := 1
def memWord : BitVec 2 := 2

/-- `imm_sel_o`, chosen from the word still on the fetch bus. -/
def immSelO (rst : Bool) (instI : Word) : ImmSel :=
  if rst then .immDefault
  else if opcode instI = instRegreg then .immDefault
  else if opcode instI = instRegimm then .immRegimm
  else if opcode instI = instLoad then .immLoad
  else if opcode instI = instStore then .immStore
  else if opcode instI = instBranch then .immBranch
  else if opcode instI = instJalr then .immJalr
  else if opcode instI = instJal then .immJal
  else if opcode instI = instLui then .immUpper
  else if opcode instI = instAuipc then .immUpper
  else .immDefault

/-- The test made on an older instruction before its destination is compared with an operand. -/
def hasResult (inst : Word) : Bool :=
  opcode inst ≠ instBranch ∧ opcode inst ≠ instNop ∧ opcode inst ≠ instStore

/-- The test made on the instruction in execute before its second operand is compared. -/
def needsRs2 (inst : Word) : Bool :=
  opcode inst = instBranch ∨ opcode inst = instStore ∨ opcode inst = instRegreg

/-- `A1_sel_o`: where the first operand comes from. -/
def a1SelO (rst : Bool) (instReg0 instReg1 instReg2 : Word) : BitVec 2 :=
  if rst ∨ opcode instReg0 = instNop then 0b00#2
  else
    -- The nearer instruction is tested last, and its assignment wins.
    let sel : BitVec 2 := if hasResult instReg2 ∧ rd instReg2 = rs1 instReg0 then 0b10#2 else 0b00#2
    if hasResult instReg1 ∧ rd instReg1 = rs1 instReg0 then 0b01#2 else sel

/-- `B1_sel_o`: where the second operand comes from. -/
def b1SelO (rst : Bool) (instReg0 instReg1 instReg2 : Word) : BitVec 2 :=
  if rst ∨ opcode instReg0 = instNop then 0b00#2
  else
    let sel : BitVec 2 :=
      if hasResult instReg2 ∧ needsRs2 instReg0 ∧ rs2 instReg0 = rd instReg2 then 0b10#2 else 0b00#2
    if hasResult instReg1 ∧ needsRs2 instReg0 ∧ rs2 instReg0 = rd instReg1 then 0b01#2 else sel

/-- `A2_sel_o`: the program counter replaces the first operand. -/
def a2SelO (rst : Bool) (instReg0 : Word) : Bool :=
  !rst && (opcode instReg0 = instBranch || opcode instReg0 = instJal ||
    opcode instReg0 = instJalr || opcode instReg0 = instAuipc)

/-- `B2_sel_o`: the immediate replaces the second operand. -/
def b2SelO (rst : Bool) (instReg0 : Word) : Bool :=
  !rst && opcode instReg0 ≠ instNop && opcode instReg0 ≠ instRegreg

/-- `br_un_o`: the comparison mode asked of `branch_comp`. -/
def brUnO (rst : Bool) (instReg0 : Word) : Bool :=
  !rst && ((opcode instReg0 = instBranch && instReg0.extractLsb' 13 2 = 0b11#2) ||
    (opcode instReg0 = instRegreg && funct3 instReg0 = 0b011#3) ||
    (opcode instReg0 = instRegimm && funct3 instReg0 = 0b011#3))

/-- The operation of `SLT`, `SLTU` and their immediate forms, decided by the comparison. -/
def setLessThan (brEqI brLtI : Bool) : AluOp :=
  if brLtI && !brEqI then .outOne else .outZero

/-- `alu_op_o`, from the instruction in execute and the answer of `branch_comp`. -/
def aluOpO (rst : Bool) (instReg0 : Word) (brEqI brLtI : Bool) : AluOp :=
  if rst then .outZero
  else if opcode instReg0 = instRegreg then
    if funct3 instReg0 = 0b000#3 ∧ funct7 instReg0 = 0b0000000#7 then .add
    else if funct3 instReg0 = 0b000#3 ∧ funct7 instReg0 = 0b0100000#7 then .sub
    else if funct3 instReg0 = 0b001#3 then .sll
    else if funct3 instReg0 = 0b010#3 then setLessThan brEqI brLtI
    else if funct3 instReg0 = 0b011#3 then setLessThan brEqI brLtI
    else if funct3 instReg0 = 0b100#3 then .xor
    else if funct3 instReg0 = 0b101#3 ∧ funct7 instReg0 = 0b0000000#7 then .srl
    else if funct3 instReg0 = 0b101#3 ∧ funct7 instReg0 = 0b0100000#7 then .sra
    else if funct3 instReg0 = 0b110#3 then .or
    else if funct3 instReg0 = 0b111#3 then .and
    else .outZero
  else if opcode instReg0 = instRegimm then
    -- No case names 3'b101, so the right shifts keep the default operation.
    if funct3 instReg0 = 0b000#3 then .add
    else if funct3 instReg0 = 0b001#3 then .sll
    else if funct3 instReg0 = 0b010#3 then setLessThan brEqI brLtI
    else if funct3 instReg0 = 0b011#3 then setLessThan brEqI brLtI
    else if funct3 instReg0 = 0b100#3 then .xor
    else if funct3 instReg0 = 0b110#3 then .or
    else if funct3 instReg0 = 0b111#3 then .and
    else .outZero
  else if opcode instReg0 = instLoad then .add
  else if opcode instReg0 = instStore then .add
  else if opcode instReg0 = instBranch then
    if funct3 instReg0 = 0b000#3 then if brEqI then .add else .outZero
    else if funct3 instReg0 = 0b001#3 then if !brEqI then .add else .outZero
    else if funct3 instReg0 = 0b100#3 then if brLtI then .add else .outZero
    else if funct3 instReg0 = 0b101#3 then if brEqI || !brLtI then .add else .outZero
    else if funct3 instReg0 = 0b110#3 then if brLtI then .add else .outZero
    else if funct3 instReg0 = 0b111#3 then if brEqI || !brLtI then .add else .outZero
    else .outZero
  else if opcode instReg0 = instJalr then .add
  else if opcode instReg0 = instJal then .add
  else if opcode instReg0 = instLui then .lui
  else if opcode instReg0 = instAuipc then .auipc
  else .outZero

/-- `mem_rw_o`: the instruction in the memory stage writes the data memory. -/
def memRwO (rst : Bool) (instReg1 : Word) : Bool :=
  !rst && opcode instReg1 = instStore

/-- `mem_size_o`: the size of the access in the memory stage. -/
def memSizeO (rst : Bool) (instReg1 : Word) : BitVec 2 :=
  if rst ∨ opcode instReg1 = instNop then memByte
  else if funct3 instReg1 = 0b000#3 then memByte
  else if funct3 instReg1 = 0b001#3 then memHalf
  else if funct3 instReg1 = 0b010#3 then memWord
  else if funct3 instReg1 = 0b100#3 then memByte
  else if funct3 instReg1 = 0b101#3 then memHalf
  else memByte

/-- `wb_sel1_o`: the ALU result, not the memory, is written back. -/
def wbSel1O (rst : Bool) (instReg2 : Word) : Bool :=
  !rst && opcode instReg2 ≠ instNop && opcode instReg2 ≠ instLoad

/-- `wb_sel2_o`: the incremented program counter is written back. -/
def wbSel2O (rst : Bool) (instReg2 : Word) : Bool :=
  !rst && (opcode instReg2 = instJalr || opcode instReg2 = instJal)

/-- `reg_w_en_o`: the instruction in write-back writes its register. -/
def regWEnO (rst : Bool) (instReg2 : Word) : Bool :=
  !rst && opcode instReg2 ≠ instNop && opcode instReg2 ≠ instBranch &&
    opcode instReg2 ≠ instStore

/-- The branch condition of the instruction in execute, as it drives `pc_sel_o`. -/
def branchTaken (instReg0 : Word) (brEqI brLtI : Bool) : Bool :=
  opcode instReg0 = instBranch &&
    ((funct3 instReg0 = 0b000#3 && brEqI) ||
     (funct3 instReg0 = 0b001#3 && !brEqI) ||
     ((funct3 instReg0 = 0b100#3 || funct3 instReg0 = 0b110#3) && brLtI) ||
     ((funct3 instReg0 = 0b101#3 || funct3 instReg0 = 0b111#3) && (brEqI || !brLtI)))

/-- `pc_sel_o`, which the execute stage and the write-back stage both assign. -/
def pcSelO (rst : Bool) (instReg0 instReg2 : Word) (brEqI brLtI : Bool) : Bool :=
  !rst && (branchTaken instReg0 brEqI brLtI ||
    (opcode instReg2 = instBranch || opcode instReg2 = instJal || opcode instReg2 = instJalr))

end ControlLogic
end MiniRiscV
