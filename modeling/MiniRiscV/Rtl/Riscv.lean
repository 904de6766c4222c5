import MiniRiscV.Lib.Clocked
import MiniRiscV.Rtl.Storage

/-! The processor: its registers, the wires between its modules, and one clock edge. -/

namespace MiniRiscV

/-- The registers of every module of `riscv` but the instruction memory. -/
structure Core where
  /-- `control_logic`: the instructions in execute, memory and write-back. -/
  instReg0 : Word
  instReg1 : Word
  instReg2 : Word
  /-- `riscv_regfile`: the registers and the delayed read addresses. -/
  registers : Registers
  oldAddrAR : BitVec 5
  oldAddrBR : BitVec 5
  /-- `three_dff`: the delayed write address. -/
  intermediate1 : BitVec 5
  intermediate2 : BitVec 5
  out : BitVec 5
  /-- `imm_gen` and `opti`. -/
  immO : Word
  dataWO : Word
  /-- `alu`. -/
  aluResultO : Word
  /-- `mem #(63)`. -/
  mem : Mem 63
  dataO : Word
  aluO : Word
  /-- `wb`. -/
  pcO : Word
  deriving Inhabited

namespace Core

open ControlLogic

variable (outer : Word → BitVec 8) (rst : Bool) (s : Core)

/-- `pc_4_r` of `wb`. -/
def pc4R : Word := s.pcO + 4

/-- `wb` of the write-back stage: the memory word or the ALU result. -/
def wb : Word := if wbSel1O rst s.instReg2 then s.aluO else s.dataO

/-- `dataD_o`: the write-back bus, which the forwarding multiplexers also read. -/
def dataDO : Word := if wbSel2O rst s.instReg2 then s.pc4R else s.wb rst

/-- `Br1` of `opti`: the first operand after forwarding. -/
def br1 : Word :=
  let sel := a1SelO rst s.instReg0 s.instReg1 s.instReg2
  if sel = 0b01#2 then s.aluResultO
  else if sel = 0b10#2 then s.dataDO rst
  else s.registers s.oldAddrAR

/-- `Br2` of `opti`: the second operand after forwarding, which is also the store data. -/
def br2 : Word :=
  let sel := b1SelO rst s.instReg0 s.instReg1 s.instReg2
  if sel = 0b01#2 then s.aluResultO
  else if sel = 0b10#2 then s.dataDO rst
  else s.registers s.oldAddrBR

/-- The comparison of the forwarded operands. -/
def comp : BranchComp := branchComp (s.br1 rst) (s.br2 rst) (brUnO rst s.instReg0)

/-- `reg1_o` of `opti`: the first ALU operand. -/
def reg1O : Word := if a2SelO rst s.instReg0 then s.pcO else s.br1 rst

/-- `reg2_o` of `opti`: the second ALU operand. -/
def reg2O : Word := if b2SelO rst s.instReg0 then s.immO else s.br2 rst

/-- `result_r` of `alu`. -/
def resultR : Word :=
  alu (aluOpO rst s.instReg0 (s.comp rst).brEqO (s.comp rst).brLTO).code (s.reg1O rst)
    (s.reg2O rst)

/-- `pc_r` of `wb`: the next program counter. -/
def pcR : Word :=
  if pcSelO rst s.instReg0 s.instReg2 (s.comp rst).brEqO (s.comp rst).brLTO then s.wb rst
  else s.pc4R

/-- One clock edge with `inst_l` on the fetch bus. -/
def step (instL : Word) : Core where
  instReg0 := if rst then 0 else instL
  instReg1 := if rst then 0 else s.instReg0
  instReg2 := if rst then 0 else s.instReg1
  registers :=
    if rst then fun _ => 0
    else s.registers.clockedWrite (regWEnO rst s.instReg2) s.out (s.dataDO rst)
  -- The read addresses and the store data are the only registers without a reset.
  oldAddrAR := rs1 instL
  oldAddrBR := rs2 instL
  intermediate1 := if rst then 0 else rd instL
  intermediate2 := if rst then 0 else s.intermediate1
  out := if rst then 0 else s.intermediate2
  immO := if rst then 0 else immGen (immSelO rst instL).code instL
  dataWO := s.br2 rst
  aluResultO := if rst then 0 else s.resultR rst
  mem :=
    if rst then Mem.reset
    else if memRwO rst s.instReg1 then
      s.mem.clockedWrite (memSizeO rst s.instReg1) s.dataWO s.aluResultO
    else s.mem
  dataO :=
    if rst then 0xffffffff
    else s.mem.dataR outer (memRwO rst s.instReg1) (memSizeO rst s.instReg1) s.aluResultO
  aluO := if rst then 0 else s.aluResultO
  pcO := if rst then 0 else s.pcR rst

end Core

/-- The whole processor: the core and its instruction memory `imem #(n)`. -/
structure Riscv (n : ℕ) where
  core : Core
  tabInst : Fin (n + 1) → Word
  instOut : Word

namespace Riscv

variable {n : ℕ} (outer : Word → BitVec 8) (outerInst : BitVec 9 → Word)

/-- `inst` of `imem`, whose index `count` has nine bits whatever the size of the array. -/
def inst (s : Riscv n) : Word :=
  let count : BitVec 9 := (s.core.pcO / 4).setWidth 9
  if inside : count.toNat < n + 1 then s.tabInst ⟨count.toNat, inside⟩ else outerInst count

/-- One clock edge of the whole processor. -/
def step (rst : Bool) (s : Riscv n) : Riscv n where
  core := s.core.step outer rst s.instOut
  tabInst := s.tabInst
  instOut := if rst then 0 else s.inst outerInst

end Riscv
end MiniRiscV
