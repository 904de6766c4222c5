import MiniRiscV.Asm.CString

/-! `asm_line`: instruction names, registers, the assembly lines and the resolution of labels. -/

namespace MiniRiscV

/-- `insnset_t`, its enumerators in the order of their values, and the value -1. -/
inductive Insnset where
  | nop
  | add | and | sll | srl | or | xor | sltu | slt | sra | sub
  | addi | andi | slli | srli | ori | xori | sltiu | slti | srai
  | beq | bne | bgeu | bge | bltu | blt
  | lui | auipc
  | lbu | lhu | lb | lh | lw
  | sb | sw | sh
  | jal | jalr
  | undefined
  deriving DecidableEq

/-- `insn_type_t`. -/
inductive InsnType where
  | nop | regreg | regimm | load | store | branch | jal | jalr | lui | auipc | undefined
  deriving DecidableEq

/-- `insn_t`. -/
structure Insn where
  insn : Insnset
  type : InsnType
  deriving DecidableEq

/-- The value of an enumerator, of an unsigned type as none of them is negative. -/
def Insnset.value (insn : Insnset) : ℕ :=
  if insn = .undefined then 2 ^ 32 - 1 else insn.ctorIdx

/-- `insnset2insn`. -/
def insnset2insn (insnSet : Insnset) : Insn where
  insn := insnSet
  -- The first test of the source, for a negative value, never holds and has no `else`.
  type :=
    if insnSet.value = 0 then .nop
    else if insnSet.value < 11 then .regreg
    else if insnSet.value < 20 then .regimm
    else if insnSet.value < 26 then .branch
    else if insnSet.value = 26 then .lui
    else if insnSet.value = 27 then .auipc
    else if insnSet.value < 33 then .load
    else if insnSet.value < 36 then .store
    else if insnSet.value = 36 then .jal
    else .jalr

/-- An instruction with its type is that instruction. -/
@[simp] theorem insn_insnset2insn (insnSet : Insnset) :
    (insnset2insn insnSet).insn = insnSet := rfl

/-- The lexeme types of the instructions, in the order in which `str2insn` tries them. -/
def insnNames : List (String × Insnset) :=
  [("insn::NOP", .nop), ("insn::ADD", .add), ("insn::AND", .and), ("insn::SLL", .sll),
    ("insn::SRL", .srl), ("insn::OR", .or), ("insn::XOR", .xor), ("insn::SLTU", .sltu),
    ("insn::SLT", .slt), ("insn::SRA", .sra), ("insn::SUB", .sub), ("insn::ADDI", .addi),
    ("insn::ANDI", .andi), ("insn::SLLI", .slli), ("insn::SRLI", .srli), ("insn::ORI", .ori),
    ("insn::XORI", .xori), ("insn::SLTIU", .sltiu), ("insn::SLTI", .slti), ("insn::SRAI", .srai),
    ("insn::BEQ", .beq), ("insn::BNE", .bne), ("insn::BGEU", .bgeu), ("insn::BGE", .bge),
    ("insn::BLTU", .bltu), ("insn::BLT", .blt), ("insn::LUI", .lui), ("insn::AUIPC", .auipc),
    ("insn::LBU", .lbu), ("insn::LHU", .lhu), ("insn::LB", .lb), ("insn::LH", .lh),
    ("insn::LW", .lw), ("insn::SB", .sb), ("insn::SW", .sw), ("insn::SH", .sh),
    ("insn::JAL", .jal), ("insn::JALR", .jalr)]

/-- `str2insn`. -/
def str2insn (str : CStr) : Insn :=
  match insnNames.find? (fun name => name.1.toList = str) with
  | some name => insnset2insn name.2
  | none => insnset2insn .undefined

/-- A `reg_t`, none standing for the value -1. -/
abbrev Reg := Option (Fin 32)

/-- `R0`. -/
def r0 : Reg := some 0

/-- `R6`. -/
def r6 : Reg := some 6

/-- The spellings of each register, in the order in which `str2reg` tries them. -/
def regNames : List (List String) :=
  [["r0", "zero"], ["r1", "ra"], ["r2", "sp"], ["r3"], ["r4"], ["r5"], ["r6"], ["r7"],
    ["r8", "s0"], ["r9", "s1"], ["r10", "a0"], ["r11", "a1"], ["r12", "a2"], ["r13", "a3"],
    ["r14", "a4"], ["r15", "a5"], ["r16", "a6"], ["r17", "a7"], ["r18"], ["r19"], ["r20"],
    ["r21"], ["r22"], ["r23"], ["r24"], ["r25"], ["r26"], ["r27"], ["r28"], ["r29"], ["r30"],
    ["r31"]]

/-- `str2reg`. -/
def str2reg (str : CStr) : Reg :=
  (regNames.findFinIdx? (·.any (·.toList = str))).map (Fin.cast rfl)

/-- The codes `R0_CODE` to `R31_CODE`. -/
def regCodes : List String :=
  ["00000", "00001", "00010", "00011", "00100", "00101", "00110", "00111",
    "01000", "01001", "01010", "01011", "01100", "01101", "01110", "01111",
    "10000", "10001", "10010", "10011", "10100", "10101", "10110", "10111",
    "11000", "11001", "11010", "11011", "11100", "11101", "11110", "11111"]

/-- `reg2code`, none standing for the null pointer. -/
def reg2code (reg : Reg) : Option CStr := reg.map fun r => (regCodes.get (r.cast rfl)).toList

/-- The `insn_line` member of `asm_line_t`. -/
structure InsnLine where
  insn : Insn
  rd : Reg
  rs1 : Reg
  rs2 : Reg
  imm : ℤ
  label : StringT
  lineAddr : ℤ

/-- `label_t`. -/
structure LabelLine where
  name : StringT
  lineAddr : ℤ

/-- `asm_line_t`. -/
inductive AsmLine where
  | insnLine (line : InsnLine)
  | labelLine (label : LabelLine)

/-- `asm_line_new`. -/
def asmLineNew : InsnLine where
  insn := { insn := .nop, type := .nop }
  rd := r0
  rs1 := r0
  rs2 := r0
  imm := 0
  label := stringEmpty
  lineAddr := 0

/-- `asm_line_regreg_add`. -/
def asmLineRegregAdd (insnList : List AsmLine) (insn : Insn) (rd rs1 rs2 : Reg) (lineAddr : ℤ) :
    List AsmLine :=
  insnList ++ [.insnLine { asmLineNew with insn, rd, rs1, rs2, lineAddr }]

/-- `asm_line_imm_add`. -/
def asmLineImmAdd (insnList : List AsmLine) (insn : Insn) (rd rs1 : Reg) (imm lineAddr : ℤ) :
    List AsmLine :=
  insnList ++ [.insnLine { asmLineNew with insn, rd, rs1, imm, lineAddr }]

/-- `asm_line_branch_add`. -/
def asmLineBranchAdd (insnList : List AsmLine) (insn : Insn) (rs1 rs2 : Reg) (label : CStr)
    (lineAddr : ℤ) : List AsmLine :=
  insnList ++
    [.insnLine { asmLineNew with insn, rs1, rs2, label := stringConvert label, lineAddr }]

/-- `asm_line_load_add`. -/
def asmLineLoadAdd (insnList : List AsmLine) (insn : Insn) (rd rs1 : Reg) (imm lineAddr : ℤ) :
    List AsmLine :=
  insnList ++ [.insnLine { asmLineNew with insn, rd, rs1, imm, lineAddr }]

/-- `asm_line_store_add`. -/
def asmLineStoreAdd (insnList : List AsmLine) (insn : Insn) (rs1 rs2 : Reg) (imm lineAddr : ℤ) :
    List AsmLine :=
  insnList ++ [.insnLine { asmLineNew with insn, rs1, rs2, imm, lineAddr }]

/-- `asm_line_jal_add`. -/
def asmLineJalAdd (insnList : List AsmLine) (insn : Insn) (rd : Reg) (label : CStr)
    (lineAddr : ℤ) : List AsmLine :=
  insnList ++ [.insnLine { asmLineNew with insn, rd, label := stringConvert label, lineAddr }]

/-- `asm_line_jalr_add`. -/
def asmLineJalrAdd (insnList : List AsmLine) (insn : Insn) (rd rs1 : Reg) (label : CStr)
    (lineAddr : ℤ) : List AsmLine :=
  insnList ++
    [.insnLine { asmLineNew with insn, rd, rs1, label := stringConvert label, lineAddr }]

/-- `asm_line_upper_add`. -/
def asmLineUpperAdd (insnList : List AsmLine) (insn : Insn) (rd : Reg) (imm lineAddr : ℤ) :
    List AsmLine :=
  insnList ++ [.insnLine { asmLineNew with insn, rd, imm, lineAddr }]

/-- `asm_line_label_add`, which takes the final colon off the name. -/
def asmLineLabelAdd (insnList : List AsmLine) (name : CStr) (lineAddr : ℤ) : List AsmLine :=
  insnList ++ [.labelLine { name := (stringConvert name).dropLast, lineAddr }]

/-- `asm_line_nop_add`. -/
def asmLineNopAdd (insnList : List AsmLine) (lineAddr : ℤ) : List AsmLine :=
  insnList ++ [.insnLine { asmLineNew with insn := { insn := .nop, type := .nop }, lineAddr }]

/-- The lines whose immediate is computed from a label. -/
def InsnLine.isControl (line : InsnLine) : Bool :=
  line.insn.type = .branch ∨ line.insn.type = .jal ∨ line.insn.type = .jalr

/-- The inner loop of `asm_line_update_adress`: the line it leaves, and `label_found`. -/
def findLabel (insnList : List AsmLine) (line : InsnLine) : InsnLine × Bool :=
  insnList.foldl
    (fun (line, labelFound) line2 =>
      match line2 with
      | .labelLine label =>
        if stringCompare label.name line.label then
          ({ line with imm := label.lineAddr - line.lineAddr }, true)
        else (line, labelFound)
      | .insnLine _ => (line, labelFound))
    (line, false)

/-- The outer loop of `asm_line_update_adress`, on the lines behind those already visited. -/
def updateFrom (done : List AsmLine) : List AsmLine → ℤ × List AsmLine
  | [] => (0, done)
  | .insnLine line :: rest =>
    if line.isControl then
      let (line', labelFound) := findLabel (done ++ .insnLine line :: rest) line
      if labelFound then updateFrom (done ++ [.insnLine line']) rest
      else (-1, done ++ .insnLine line' :: rest)
    else updateFrom (done ++ [.insnLine line]) rest
  | .labelLine label :: rest => updateFrom (done ++ [.labelLine label]) rest

/-- `asm_line_update_adress`: the code it returns and the list it leaves. -/
def asmLineUpdateAdress (insnList : List AsmLine) : ℤ × List AsmLine := updateFrom [] insnList

end MiniRiscV
