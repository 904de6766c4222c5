import MiniRiscV.Rtl.ControlLogic

/-! The state-holding blocks: the data memory `mem` and the register file `riscv_regfile`. -/

namespace MiniRiscV

/-- The array `mem[n:0]` of the data memory. -/
abbrev Mem (n : ℕ) := Fin (n + 1) → BitVec 8

namespace Mem

variable {n : ℕ}

/-- Read one element, where `outer` stands for what a read outside the array returns. -/
def read (outer : Word → BitVec 8) (mem : Mem n) (index : Word) : BitVec 8 :=
  if inside : index.toNat < n + 1 then mem ⟨index.toNat, inside⟩ else outer index

/-- Assign one element, an assignment outside the array having no effect. -/
def write (mem : Mem n) (index : Word) (value : BitVec 8) : Mem n :=
  fun i => if i.val = index.toNat then value else mem i

/-- Every element as the reset leaves it. -/
def reset : Mem n := fun _ => 0xff

/-- The clocked write of `mem`, its guards computed on 32-bit sums as the comparison is. -/
def clockedWrite (mem : Mem n) (dataSecI : BitVec 2) (dataWI addrI : Word) : Mem n :=
  let last : Word := BitVec.ofNat 32 n
  if dataSecI = 0b00#2 then mem.write addrI (dataWI.extractLsb' 0 8)
  else if dataSecI = 0b01#2 then
    let mem := mem.write (addrI + 1) (dataWI.extractLsb' 8 8)
    if addrI + 1 ≤ last then mem.write addrI (dataWI.extractLsb' 0 8) else mem
  else if dataSecI = 0b10#2 then
    let mem := mem.write (addrI + 3) (dataWI.extractLsb' 24 8)
    let mem := if addrI + 1 ≤ last then mem.write (addrI + 2) (dataWI.extractLsb' 16 8) else mem
    let mem := if addrI + 2 ≤ last then mem.write (addrI + 1) (dataWI.extractLsb' 8 8) else mem
    if addrI + 3 ≤ last then mem.write addrI (dataWI.extractLsb' 0 8) else mem
  else mem

/-- `data_r`: the word read, before it is latched in `data_o`. -/
def dataR (outer : Word → BitVec 8) (mem : Mem n) (memRW : Bool) (dataSecI : BitVec 2)
    (addrI : Word) : Word :=
  let last : Word := BitVec.ofNat 32 n
  let byte (offset : Word) := mem.read outer (addrI + offset)
  let dataR : Word := 0xffffffff
  if memRW then dataR
  else
    let dataR :=
      if addrI + 1 > last then (dataR.setSlice 8 (0 : BitVec 24)).setSlice 0 (mem.read outer addrI)
      else if addrI + 2 > last then
        ((dataR.setSlice 16 (0 : BitVec 16)).setSlice 0 (mem.read outer addrI)).setSlice 8 (byte 1)
      -- The third test repeats the first one, so this branch is never taken.
      else if addrI + 1 > last then
        (((dataR.setSlice 24 (0 : BitVec 8)).setSlice 0 (mem.read outer addrI)).setSlice
          8 (byte 1)).setSlice 15 ((byte 2).setWidth 9)
      else
        (((dataR.setSlice 24 (byte 3)).setSlice 16 (byte 2)).setSlice 8 (byte 1)).setSlice
          0 (mem.read outer addrI)
    if dataSecI = 0b00#2 then dataR.setSlice 8 (0 : BitVec 24)
    else if dataSecI = 0b01#2 then dataR.setSlice 16 (0 : BitVec 16)
    else dataR

end Mem

/-- The array `Registers[31:0]` of the register file. -/
abbrev Registers := BitVec 5 → Word

/-- Assign one register, register zero included. -/
def Registers.write (registers : Registers) (addr : BitVec 5) (data : Word) : Registers :=
  fun r => if r = addr then data else registers r

/-- The clocked write of the register file. -/
def Registers.clockedWrite (registers : Registers) (regWEnI : Bool) (oldAddrD : BitVec 5)
    (dataDI : Word) : Registers :=
  if regWEnI then registers.write oldAddrD dataDI else registers

end MiniRiscV
