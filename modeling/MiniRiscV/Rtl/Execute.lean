import MiniRiscV.Lib.BitSlice

/-! The combinational blocks of the execute stage: `imm_gen`, `branch_comp` and `alu`. -/

namespace MiniRiscV

/-- A 32-bit bus of the processor, or one instruction word. -/
abbrev Word := BitVec 32

/-- `alu_op_t`, declared in this order by `control_logic` and again by `alu`. -/
inductive AluOp where
  | add
  | and
  | sll
  | srl
  | or
  | xor
  | outOne
  | outZero
  | sra
  | lui
  | sub
  | auipc
  deriving DecidableEq

/-- The value an enumerator has on the four wires between the two modules. -/
def AluOp.code : AluOp → BitVec 4
  -- An enumeration without explicit values numbers its members from zero.
  | .add => 0
  | .and => 1
  | .sll => 2
  | .srl => 3
  | .or => 4
  | .xor => 5
  | .outOne => 6
  | .outZero => 7
  | .sra => 8
  | .lui => 9
  | .sub => 10
  | .auipc => 11

/-- `imm_sel_t`, declared in this order by `control_logic` and again by `imm_gen`. -/
inductive ImmSel where
  | immDefault
  | immRegimm
  | immLoad
  | immStore
  | immBranch
  | immJalr
  | immJal
  | immUpper
  deriving DecidableEq

/-- The value an enumerator has on the three wires between the two modules. -/
def ImmSel.code : ImmSel → BitVec 3
  | .immDefault => 0
  | .immRegimm => 1
  | .immLoad => 2
  | .immStore => 3
  | .immBranch => 4
  | .immJalr => 5
  | .immJal => 6
  | .immUpper => 7

/-- `imm_gen`: the immediate of the word on `imm_i`, before it is latched in `imm_o`. -/
def immGen (selI : BitVec 3) (immI : Word) : Word :=
  -- Every bit starts as the sign bit, and the slices of the format are then assigned over it.
  let imm : Word := if immI.getLsbD 31 then 0xFFFFFFFF else 0
  if selI = ImmSel.immDefault.code then 0
  else if selI = ImmSel.immRegimm.code then imm.setSlice 0 (immI.extractLsb' 20 12)
  else if selI = ImmSel.immLoad.code then imm.setSlice 0 (immI.extractLsb' 20 12)
  else if selI = ImmSel.immStore.code then
    (imm.setSlice 0 (immI.extractLsb' 7 5)).setSlice 5 (immI.extractLsb' 25 7)
  else if selI = ImmSel.immBranch.code then
    (((imm.setSlice 5 (immI.extractLsb' 25 6)).setSlice 1 (immI.extractLsb' 8 4)).setSlice
      12 (immI.extractLsb' 31 1)).setSlice 11 (immI.extractLsb' 7 1)
  else if selI = ImmSel.immJalr.code then imm.setSlice 0 (immI.extractLsb' 20 12)
  else if selI = ImmSel.immJal.code then
    (((imm.setSlice 12 (immI.extractLsb' 12 8)).setSlice 11 (immI.extractLsb' 20 1)).setSlice
      1 (immI.extractLsb' 21 10)).setSlice 20 (immI.extractLsb' 31 1)
  -- `immUpper` is the last of the eight selections: the upper field, zero-extended.
  else (immI.extractLsb' 12 20).setWidth 32

/-- The two outputs of `branch_comp`. -/
structure BranchComp where
  brEqO : Bool
  brLTO : Bool
  deriving DecidableEq

/-- `branch_comp`: compare `A_i` with `B_i`, as signed numbers when `BrUn_i` is set. -/
def branchComp (aI bI : Word) (brUnI : Bool) : BranchComp :=
  if aI = bI then { brEqO := true, brLTO := false }
  else if brUnI then { brEqO := false, brLTO := aI.slt bI }
  else { brEqO := false, brLTO := aI.ult bI }

/-- `alu`: the combinational result, before it is latched in `alu_result_o`. -/
def alu (aluOpI : BitVec 4) (aluAI aluBI : Word) : Word :=
  -- Shifts keep the five low bits of the second operand.
  let buffer := (aluBI.extractLsb' 0 5).toNat
  if aluOpI = AluOp.add.code then aluAI + aluBI
  else if aluOpI = AluOp.sub.code then aluAI - aluBI
  -- Addition binds tighter than the shift, so the sum as a whole is shifted.
  else if aluOpI = AluOp.auipc.code then (aluAI + aluBI) <<< 12
  else if aluOpI = AluOp.and.code then aluAI &&& aluBI
  else if aluOpI = AluOp.or.code then aluAI ||| aluBI
  else if aluOpI = AluOp.xor.code then aluAI ^^^ aluBI
  else if aluOpI = AluOp.sll.code then aluAI <<< buffer
  else if aluOpI = AluOp.srl.code then aluAI >>> buffer
  -- `>>>` on an unsigned operand shifts zeros in.
  else if aluOpI = AluOp.sra.code then aluAI >>> buffer
  else if aluOpI = AluOp.lui.code then aluBI <<< 12
  -- `byte_one` and `byte_zero` are one-bit wires, extended to the width of the result.
  else if aluOpI = AluOp.outOne.code then 1
  else 0

end MiniRiscV
