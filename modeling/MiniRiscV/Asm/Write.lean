import MiniRiscV.Asm.AsmLine

/-! `asm_line_write`: the text written for each instruction line. -/

namespace MiniRiscV

def regregOpcode : String := "0110011"
def regimmOpcode : String := "0010011"
def loadOpcode : String := "0000011"
def storeOpcode : String := "0100011"
def branchOpcode : String := "1100011"
def jalOpcode : String := "1101111"
def jalrOpcode : String := "1100111"
def luiOpcode : String := "0110111"
def auipcOpcode : String := "0010111"

def addiFunct3 : String := "000"
def addFunct3 : String := "000"
def addFunct7 : String := "0000000"
def andiFunct3 : String := "111"
def andFunct3 : String := "111"
def andFunct7 : String := "0000000"
def beqFunct3 : String := "000"
def slliFunct3 : String := "001"
def slliFunct7 : String := "0000000"
def srliFunct3 : String := "101"
def srliFunct7 : String := "0000000"
def sllFunct3 : String := "001"
def sllFunct7 : String := "0000000"
def srlFunct3 : String := "101"
def srlFunct7 : String := "0000000"
def oriFunct3 : String := "110"
def orFunct3 : String := "110"
def orFunct7 : String := "0000000"
def bneFunct3 : String := "001"
def xoriFunct3 : String := "100"
def xorFunct3 : String := "100"
def xorFunct7 : String := "0000000"
def bgeuFunct3 : String := "111"
def bgeFunct3 : String := "101"
def sltiuFunct3 : String := "011"
def sltiFunct3 : String := "010"
def sltuFunct3 : String := "011"
def sltuFunct7 : String := "0000000"
def sltFunct3 : String := "010"
def sltFunct7 : String := "0000000"
def sraiFunct3 : String := "101"
def sraiFunct7 : String := "0100000"
def sraFunct3 : String := "101"
def sraFunct7 : String := "0100000"
def subFunct3 : String := "000"
def subFunct7 : String := "0100000"
def bltuFunct3 : String := "110"
def bltFunct3 : String := "100"
def lbFunct3 : String := "000"
def lhFunct3 : String := "001"
def lwFunct3 : String := "010"
def lbuFunct3 : String := "100"
def lhuFunct3 : String := "101"
def sbFunct3 : String := "000"
def shFunct3 : String := "001"
def swFunct3 : String := "010"
def jalrFunct3 : String := "000"

/-- `print_binary`: the `size` low bits of `n`, from the highest. -/
def printBinary (n : BitVec 32) (size : ℕ) : CStr :=
  (List.range size).reverse.map fun i =>
    let k := n.sshiftRight i
    if k &&& 1#32 ≠ 0#32 then '1' else '0'

/-- `fprintf` with the format `"%d"`. -/
def printDecimal (n : BitVec 32) : CStr := (toString n.toInt).toList

namespace InsnLine

variable (line : InsnLine)

/-- The immediate as the 32-bit integer on which the masks and shifts work. -/
def imm32 : BitVec 32 := BitVec.ofInt 32 line.imm

/-- The fields of a register-register instruction before the opcode. -/
def regregText (funct7 funct3 : String) : Option CStr := do
  return funct7.toList ++ (← reg2code line.rs2) ++ (← reg2code line.rs1) ++ funct3.toList ++
    (← reg2code line.rd)

/-- The fields of an instruction with a twelve-bit immediate before the opcode. -/
def immText (funct3 : String) : Option CStr := do
  return printBinary line.imm32 12 ++ (← reg2code line.rs1) ++ funct3.toList ++
    (← reg2code line.rd)

/-- The fields of a shift by an immediate before the opcode. -/
def shiftText (funct7 funct3 : String) : Option CStr := do
  return funct7.toList ++ printBinary line.imm32 5 ++ (← reg2code line.rs1) ++ funct3.toList ++
    (← reg2code line.rd)

/-- The fields of a branch before the opcode. -/
def branchText (funct3 : String) : Option CStr := do
  return printDecimal ((line.imm32 &&& 0x1000#32).sshiftRight 12) ++
    printBinary (line.imm32.sshiftRight 5 &&& 0x3F#32) 6 ++ (← reg2code line.rs2) ++
    (← reg2code line.rs1) ++ funct3.toList ++ printBinary (line.imm32 &&& 0x1E#32) 4 ++
    printDecimal ((line.imm32 &&& 0x800#32).sshiftRight 11)

/-- The fields of a store before the opcode. -/
def storeText (funct3 : String) : Option CStr := do
  return printBinary (line.imm32.sshiftRight 5) 7 ++ (← reg2code line.rs2) ++
    (← reg2code line.rs1) ++ funct3.toList ++ printBinary (line.imm32 &&& 0x1F#32) 5

/-- The switch inside the case `TYPE_REGREG`. -/
def regregFields : Option CStr :=
  match line.insn.insn with
  | .add => line.regregText addFunct7 addFunct3
  | .sub => line.regregText subFunct7 subFunct3
  | .and => line.regregText andFunct7 andFunct3
  | .or => line.regregText orFunct7 orFunct3
  | .xor => line.regregText xorFunct7 xorFunct3
  | .sll => line.regregText sllFunct7 sllFunct3
  | .srl => line.regregText srlFunct7 srlFunct3
  | .sra => line.regregText sraFunct7 sraFunct3
  | .slt => line.regregText sltFunct7 sltFunct3
  | .sltu => line.regregText sltuFunct7 sltuFunct3
  | _ => some []

/-- The switch inside the case `TYPE_REGIMM`. -/
def regimmFields : Option CStr :=
  match line.insn.insn with
  | .addi => line.immText addiFunct3
  | .andi => line.immText andiFunct3
  | .ori => line.immText oriFunct3
  | .xori => line.immText xoriFunct3
  | .slli => line.shiftText slliFunct7 slliFunct3
  | .srli => line.shiftText srliFunct7 srliFunct3
  | .srai => line.shiftText sraiFunct7 sraiFunct3
  | .slti => line.immText sltiFunct3
  | .sltiu => line.immText sltiuFunct3
  | _ => some []

/-- The switch inside the case `TYPE_BRANCH`. -/
def branchFields : Option CStr :=
  match line.insn.insn with
  | .beq => line.branchText beqFunct3
  | .bne => line.branchText bneFunct3
  | .blt => line.branchText bltFunct3
  | .bge => line.branchText bgeFunct3
  | .bltu => line.branchText bltuFunct3
  | .bgeu => line.branchText bgeuFunct3
  | _ => some []

/-- The switch inside the case `TYPE_LOAD`. -/
def loadFields : Option CStr :=
  match line.insn.insn with
  | .lb => line.immText lbFunct3
  | .lh => line.immText lhFunct3
  | .lw => line.immText lwFunct3
  | .lbu => line.immText lbuFunct3
  | .lhu => line.immText lhuFunct3
  | _ => some []

/-- The switch inside the case `TYPE_STORE`. -/
def storeFields : Option CStr :=
  match line.insn.insn with
  | .sb => line.storeText sbFunct3
  | .sh => line.storeText shFunct3
  | .sw => line.storeText swFunct3
  | _ => some []

/-- The case `TYPE_JAL` before the opcode. -/
def jalFields : Option CStr := do
  return printDecimal ((line.imm32 &&& 0x40000#32).sshiftRight 20) ++
    printBinary (line.imm32.sshiftRight 1 &&& 0x3FF#32) 10 ++
    printDecimal ((line.imm32 &&& 0x800#32).sshiftRight 11) ++
    printBinary ((line.imm32 &&& 0x7F800#32).sshiftRight 12) 8 ++ (← reg2code line.rd)

/-- The fields of an upper-immediate instruction before the opcode. -/
def upperText : Option CStr := do
  return printBinary (line.imm32.sshiftRight 12) 20 ++ (← reg2code line.rd)

/-- The text of one instruction line, none when a null pointer is printed. -/
def write : Option CStr :=
  match line.insn.type with
  | .nop => some (printBinary 0 32 ++ ['\n'])
  | .regreg => do return (← line.regregFields) ++ regregOpcode.toList ++ ['\n']
  | .regimm => do return (← line.regimmFields) ++ regimmOpcode.toList ++ ['\n']
  | .branch => do return (← line.branchFields) ++ branchOpcode.toList ++ ['\n']
  | .load => do return (← line.loadFields) ++ loadOpcode.toList ++ ['\n']
  | .store => do return (← line.storeFields) ++ storeOpcode.toList ++ ['\n']
  | .jal => do return (← line.jalFields) ++ jalOpcode.toList ++ ['\n']
  | .jalr => do return (← line.immText jalrFunct3) ++ jalrOpcode.toList ++ ['\n']
  | .lui => do return (← line.upperText) ++ luiOpcode.toList ++ ['\n']
  | .auipc => do return (← line.upperText) ++ auipcOpcode.toList ++ ['\n']
  | .undefined => some []

end InsnLine

/-- The text of one line of the list, labels leaving no trace. -/
def AsmLine.write : AsmLine → Option CStr
  | .insnLine line => line.write
  | .labelLine _ => some []

/-- The loop of `asm_line_write`: the contents of the file, none when a null pointer is printed. -/
def asmLineText : List AsmLine → Option CStr
  | [] => some []
  | line :: rest => do
    let text ← line.write
    return text ++ (← asmLineText rest)

end MiniRiscV
