import MiniRiscV.Asm.Main
import MiniRiscV.Asm.Offsets

/-! The files that are written with and without `-v`, and when they are the same. -/

namespace MiniRiscV

/-- The bits of an offset that the line of a branch or a jump prints. -/
def printedBits : InsnType → BitVec 32
  | .branch => 0x1FEE#32
  | .jal => 0x7FFFE#32
  | .jalr => 0xFFF#32
  | _ => 0

section Bits

variable {n : ℕ} {x y : BitVec 32}

/-- Words agree under a mask exactly when they agree on each of its bits. -/
theorem and_eq_and_iff {mask : BitVec 32} : x &&& mask = y &&& mask ↔
    ∀ i < 32, mask.getLsbD i → x.getLsbD i = y.getLsbD i := by
  -- Masked words are compared on the bits of the mask.
  constructor
  · intro same i _ masked
    have bit := congrArg (fun w => w.getLsbD i) same
    simpa [masked] using bit
  · intro same
    refine BitVec.eq_of_getLsbD_eq fun i inside => ?_
    cases masked : mask.getLsbD i with
    | false => simp [masked]
    | true => simp [masked, same i inside masked]

/-- Two numbers give one branch offset when they agree on the bits that are printed. -/
theorem branchOffset_eq_branchOffset_iff : branchOffset x = branchOffset y ↔
    x &&& printedBits .branch = y &&& printedBits .branch := by
  have mask : ∀ i < 32, (printedBits .branch).getLsbD i =
      decide (1 ≤ i ∧ i ≤ 3 ∨ 5 ≤ i ∧ i ≤ 12) := by decide
  rw [and_eq_and_iff]
  constructor
  · intro same i inside masked
    rw [mask i inside, decide_eq_true_eq] at masked
    -- The three lowest of the bits are found one place higher up.
    rcases masked with low | high
    · have bit := congrArg (fun w => w.getLsbD (i + 1)) same
      simpa [getLsbD_branchOffset _ (show i + 1 < 13 by omega), show ¬ i + 1 < 2 by omega,
        show i + 1 < 5 by omega] using bit
    · have bit := congrArg (fun w => w.getLsbD i) same
      simpa [getLsbD_branchOffset _ (show i < 13 by omega), show ¬ i < 2 by omega,
        show ¬ i < 5 by omega] using bit
  · intro same
    refine BitVec.eq_of_getLsbD_eq fun i inside => ?_
    rw [getLsbD_branchOffset _ inside, getLsbD_branchOffset _ inside]
    split
    · rfl
    · split
      · apply same (i - 1) (by omega)
        rw [mask _ (by omega), decide_eq_true_eq]
        omega
      · apply same i (by omega)
        rw [mask _ (by omega), decide_eq_true_eq]
        omega

/-- The same for the offset of a `JAL`. -/
theorem jalOffset_eq_jalOffset_iff : jalOffset x = jalOffset y ↔
    x &&& printedBits .jal = y &&& printedBits .jal := by
  -- The offset has the bits 1 to 18 of the immediate, and no others.
  have mask : ∀ i < 32, (printedBits .jal).getLsbD i = decide (1 ≤ i ∧ i ≤ 18) := by decide
  rw [and_eq_and_iff]
  constructor
  · intro same i inside masked
    rw [mask i inside, decide_eq_true_eq] at masked
    have bit := congrArg (fun w => w.getLsbD i) same
    simpa [getLsbD_jalOffset _ (show i < 21 by omega), show ¬ i = 0 by omega,
      show ¬ 19 ≤ i by omega] using bit
  · intro same
    refine BitVec.eq_of_getLsbD_eq fun i inside => ?_
    rw [getLsbD_jalOffset _ inside, getLsbD_jalOffset _ inside]
    split
    · rfl
    · apply same i (by omega)
      rw [mask _ (by omega), decide_eq_true_eq]
      omega

/-- The same for the twelve bits of a `JALR`. -/
theorem setWidth_eq_setWidth_iff : x.setWidth 12 = y.setWidth 12 ↔
    x &&& printedBits .jalr = y &&& printedBits .jalr := by
  -- The field has the lowest twelve bits.
  have mask : ∀ i < 32, (printedBits .jalr).getLsbD i = decide (i < 12) := by decide
  rw [and_eq_and_iff]
  constructor
  · intro same i inside masked
    rw [mask i inside, decide_eq_true_eq] at masked
    have bit := congrArg (fun w => w.getLsbD i) same
    simpa [masked] using bit
  · intro same
    refine BitVec.eq_of_getLsbD_eq fun i inside => ?_
    simpa [inside] using same i (by omega) (by rw [mask i (by omega)]; simpa using inside)

end Bits

section Words

variable {insnSet : Insnset} {rd rs1 rs2 : Reg} {d a b : Fin 32} {imm imm' : ℤ} {label : StringT}
  {lineAddr : ℤ}

/-- A word of the B format holds its offset. -/
theorem bType_branchOffset_inj {op : BitVec 7} {s1 s2 : BitVec 5} {f3 : BitVec 3}
    {x y : BitVec 32} : Rv32i.bType op s1 s2 f3 (branchOffset x) =
      Rv32i.bType op s1 s2 f3 (branchOffset y) ↔ branchOffset x = branchOffset y := by
  -- The offset is read back from the word.
  have immB : ∀ z, Rv32i.immB (Rv32i.bType op s1 s2 f3 (branchOffset z)) = branchOffset z :=
    fun z => (Rv32i.fields_bType op s1 s2 f3 _ (getLsbD_branchOffset z (by decide))).2.2.2.2
  constructor
  · intro same
    rw [← immB x, same, immB y]
  · intro same
    rw [same]

/-- A word of the J format holds its offset. -/
theorem jType_jalOffset_inj {op : BitVec 7} {rd : BitVec 5} {x y : BitVec 32} :
    Rv32i.jType op rd (jalOffset x) = Rv32i.jType op rd (jalOffset y) ↔
      jalOffset x = jalOffset y := by
  -- The offset is read back from the word.
  have immJ : ∀ z, Rv32i.immJ (Rv32i.jType op rd (jalOffset z)) = jalOffset z :=
    fun z => (Rv32i.fields_jType op rd _ (getLsbD_jalOffset z (by decide))).2.2
  constructor
  · intro same
    rw [← immJ x, same, immJ y]
  · intro same
    rw [same]

/-- Two branches with the same registers are written alike when these bits agree. -/
theorem write_branch_eq_iff (branch : (insnset2insn insnSet).type = .branch) :
    InsnLine.write ⟨insnset2insn insnSet, rd, some a, some b, imm, label, lineAddr⟩ =
        InsnLine.write ⟨insnset2insn insnSet, rd, some a, some b, imm', label, lineAddr⟩ ↔
      BitVec.ofInt 32 imm &&& printedBits .branch =
        BitVec.ofInt 32 imm' &&& printedBits .branch := by
  -- The destination of a branch is not printed.
  have anyRd : ∀ imm,
      InsnLine.write ⟨insnset2insn insnSet, rd, some a, some b, imm, label, lineAddr⟩ =
        (registerLine insnSet 0 a b imm label lineAddr).write := by
    intro imm
    simp only [InsnLine.write, registerLine, branch]
    rfl
  rw [anyRd, anyRd, write_branch branch, write_branch branch, ← branchOffset_eq_branchOffset_iff]
  simp [bType_branchOffset_inj]

/-- So are two `JAL` lines with the same link register. -/
theorem write_jal_eq_iff :
    InsnLine.write ⟨insnset2insn .jal, some d, rs1, rs2, imm, label, lineAddr⟩ =
        InsnLine.write ⟨insnset2insn .jal, some d, rs1, rs2, imm', label, lineAddr⟩ ↔
      BitVec.ofInt 32 imm &&& printedBits .jal = BitVec.ofInt 32 imm' &&& printedBits .jal := by
  -- The source registers of the line are not printed.
  have anySource : ∀ imm,
      InsnLine.write ⟨insnset2insn .jal, some d, rs1, rs2, imm, label, lineAddr⟩ =
        (registerLine .jal d 0 0 imm label lineAddr).write := fun _ => rfl
  rw [anySource, anySource, write_jal, write_jal, ← jalOffset_eq_jalOffset_iff]
  simp [jType_jalOffset_inj]

/-- A `JALR` line is written in the I format. -/
theorem write_jalr (jalr : (insnset2insn insnSet).type = .jalr) :
    InsnLine.write ⟨insnset2insn insnSet, some d, some a, rs2, imm, label, lineAddr⟩ =
      some ((Rv32i.iType 0b1100111#7 (regBits d) (regBits a) 0#3
        ((BitVec.ofInt 32 imm).setWidth 12)).binaryText ++ ['\n']) := by
  -- The fields are those of the I format.
  have fields :
      InsnLine.immText ⟨insnset2insn insnSet, some d, some a, rs2, imm, label, lineAddr⟩
          jalrFunct3 =
        some (((BitVec.ofInt 32 imm).setWidth 12).binaryText ++ (regBits a).binaryText ++
          (0#3).binaryText ++ (regBits d).binaryText) :=
    immText_eq rfl rfl (by decide)
  have opcode : jalrOpcode.toList = (0b1100111#7).binaryText := by decide
  simp [InsnLine.write, jalr, fields, opcode, Rv32i.binaryText_iType]

/-- So are two `JALR` lines with the same registers. -/
theorem write_jalr_eq_iff (jalr : (insnset2insn insnSet).type = .jalr) :
    InsnLine.write ⟨insnset2insn insnSet, some d, some a, rs2, imm, label, lineAddr⟩ =
        InsnLine.write ⟨insnset2insn insnSet, some d, some a, rs2, imm', label, lineAddr⟩ ↔
      BitVec.ofInt 32 imm &&& printedBits .jalr = BitVec.ofInt 32 imm' &&& printedBits .jalr := by
  -- The immediate is read back from the word.
  have immI : ∀ imm : BitVec 12,
      Rv32i.immI (Rv32i.iType 0b1100111#7 (regBits d) (regBits a) 0#3 imm) = imm :=
    fun imm => (Rv32i.fields_iType _ _ _ _ imm).2.2.2.2
  rw [write_jalr jalr, write_jalr jalr, ← setWidth_eq_setWidth_iff]
  simp only [Option.some.injEq, List.append_cancel_right_eq, BitVec.binaryText_inj]
  constructor
  · intro same
    rw [← immI ((BitVec.ofInt 32 imm).setWidth 12), same, immI]
  · intro same
    rw [same]

/-- A branch or a jump is printed alike for two offsets that agree on the bits it prints. -/
theorem write_imm_iff {line : InsnLine} (typed : line.insn = insnset2insn insnSet)
    (control : line.isControl) (known : ∀ reg ∈ line.printedRegs, reg.isSome) :
    line.write = { line with imm := imm' }.write ↔
      line.imm32 &&& printedBits line.insn.type =
        BitVec.ofInt 32 imm' &&& printedBits line.insn.type := by
  obtain ⟨insn, rd, rs1, rs2, imm, label, lineAddr⟩ := line
  obtain rfl : insn = insnset2insn insnSet := typed
  simp only [InsnLine.isControl, decide_eq_true_eq] at control
  -- One case for each kind of control transfer, with the registers that it prints.
  rcases control with branch | jal | jalr
  · simp only [InsnLine.printedRegs, branch, List.forall_mem_cons] at known
    obtain ⟨b, rfl⟩ := Option.isSome_iff_exists.mp known.1
    obtain ⟨a, rfl⟩ := Option.isSome_iff_exists.mp known.2.1
    rw [branch]
    exact write_branch_eq_iff branch
  · simp only [InsnLine.printedRegs, jal, List.forall_mem_cons] at known
    obtain ⟨d, rfl⟩ := Option.isSome_iff_exists.mp known.1
    obtain rfl : insnSet = .jal := by
      revert jal
      cases insnSet <;> decide
    exact write_jal_eq_iff
  · simp only [InsnLine.printedRegs, jalr, List.forall_mem_cons] at known
    obtain ⟨a, rfl⟩ := Option.isSome_iff_exists.mp known.1
    obtain ⟨d, rfl⟩ := Option.isSome_iff_exists.mp known.2.1
    rw [jalr]
    exact write_jalr_eq_iff jalr

end Words

section Files

variable {insnList all : List AsmLine} {text text' : CStr}

/-- A file is the text of its first line and then those of the others. -/
theorem asmLineText_cons {line : AsmLine} (written : asmLineText (line :: insnList) = some text) :
    ∃ first rest, line.write = some first ∧ asmLineText insnList = some rest ∧
      text = first ++ rest := by
  -- Both parts of the text are written.
  simp only [asmLineText, Option.bind_eq_bind, Option.bind_eq_some_iff] at written
  obtain ⟨first, one, rest, others, same⟩ := written
  exact ⟨first, rest, one, others, (Option.some.inj same).symm⟩

/-- Two files are the same exactly when each line is written alike. -/
theorem asmLineText_map_eq_iff {f : AsmLine → AsmLine}
    (lengths : ∀ line ∈ insnList, ∀ first first', line.write = some first →
      (f line).write = some first' → first.length = first'.length)
    (written : asmLineText insnList = some text)
    (written' : asmLineText (insnList.map f) = some text') :
    text = text' ↔ ∀ line ∈ insnList, line.write = (f line).write := by
  -- By induction on the lines, cutting both texts behind the first one.
  induction insnList generalizing text text' with
  | nil =>
    rw [List.map_nil, written] at written'
    simpa using written'
  | cons line insnList ih =>
    rw [List.forall_mem_cons] at lengths
    obtain ⟨first, rest, one, others, rfl⟩ := asmLineText_cons written
    obtain ⟨first', rest', one', others', rfl⟩ := asmLineText_cons written'
    rw [List.forall_mem_cons, ← ih lengths.2 others others', one, one', Option.some.injEq]
    constructor
    · exact fun same => List.append_inj same (lengths.1 _ _ one one')
    · rintro ⟨rfl, rfl⟩
      rfl

/-- In a file that is written so is each of its lines. -/
theorem write_of_asmLineText (written : asmLineText insnList = some text) :
    ∀ line ∈ insnList, ∃ first, line.write = some first := by
  -- By induction on the lines: a line that is not written stops the file.
  induction insnList generalizing text with
  | nil => simp
  | cons line insnList ih =>
    obtain ⟨first, rest, one, others, -⟩ := asmLineText_cons written
    exact List.forall_mem_cons.mpr ⟨⟨first, one⟩, ih others⟩

/-- In no branch or jump does the offset to the label change a bit that is printed. -/
def SameOffsets (insnList : List AsmLine) : Prop :=
  ∀ line, .insnLine line ∈ insnList → line.isControl →
    (line.resolve insnList).imm32 &&& printedBits line.insn.type =
      line.imm32 &&& printedBits line.insn.type

instance : Decidable (SameOffsets insnList) :=
  decidable_of_iff (∀ line ∈ insnLines insnList, line.isControl →
      (line.resolve insnList).imm32 &&& printedBits line.insn.type =
        line.imm32 &&& printedBits line.insn.type) <| by
    simp only [SameOffsets, mem_insnLines]

/-- The update does not show in the file exactly when it changes no bit that is printed. -/
theorem asmLineText_resolve_eq_iff (typed : Typed insnList)
    (written : asmLineText insnList = some text)
    (written' : asmLineText (insnList.map (AsmLine.resolve insnList)) = some text') :
    text = text' ↔ SameOffsets insnList := by
  have typedLine : ∀ line, .insnLine line ∈ insnList →
      ∃ insnSet, line.insn = insnset2insn insnSet :=
    fun line mem => typed line (mem_insnLines.mpr mem)
  have lengths : ∀ line ∈ insnList, ∀ first first', line.write = some first →
      (line.resolve insnList).write = some first' → first.length = first'.length := by
    intro line mem first first' one one'
    cases line with
    | labelLine label => rw [Option.some.inj (one.symm.trans one')]
    | insnLine line =>
      by_cases control : line.isControl
      · simp only [AsmLine.resolve, AsmLine.write, control, if_true] at one one'
        -- The resolved line has the same instruction, so both print one word.
        obtain ⟨insnSet, is⟩ := typedLine line mem
        obtain ⟨⟨word, rfl, binary⟩, -⟩ := line.wordLine_of_write is one
        obtain ⟨⟨word', rfl, binary'⟩, -⟩ := (line.resolve insnList).wordLine_of_write is one'
        simp [binary.1, binary'.1]
      · simp only [AsmLine.resolve, AsmLine.write, control, Bool.false_eq_true,
          if_false] at one one'
        rw [Option.some.inj (one.symm.trans one')]
  rw [asmLineText_map_eq_iff lengths written written', SameOffsets]
  have each : ∀ line, .insnLine line ∈ insnList → line.isControl →
      (line.write = (line.resolve insnList).write ↔
        (line.resolve insnList).imm32 &&& printedBits line.insn.type =
          line.imm32 &&& printedBits line.insn.type) := by
    intro line mem control
    obtain ⟨first, one⟩ := write_of_asmLineText written _ mem
    obtain ⟨insnSet, is⟩ := typedLine line mem
    rw [eq_comm (a := (line.resolve insnList).imm32 &&& _)]
    exact write_imm_iff is control (line.wordLine_of_write is one).2
  constructor
  · intro same line mem control
    have alike := same _ mem
    simp only [AsmLine.resolve, AsmLine.write, control, if_true] at alike
    exact (each line mem control).mp alike
  · intro same line mem
    cases line with
    | labelLine label => rfl
    | insnLine line =>
      by_cases control : line.isControl
      · simpa only [AsmLine.resolve, AsmLine.write, control, if_true] using
          (each line mem control).mpr (same line mem control)
      · simp [AsmLine.resolve, control]

end Files

/--
Two successful runs that differ in `-v` leave the same file exactly when no offset shows.

Without `-v` the lines are written with the offsets that the parser gives them, and no label is
ever looked up.
-/
theorem main_verbose_iff {fs silent traced : FileSystem} {sourceFile regexpsFile binfile : CStr}
    {code : ℤ} {lexems : List Lexem}
    (tokens : tokenise fs sourceFile regexpsFile = some (code, lexems))
    (run : main fs (arguments sourceFile regexpsFile binfile false) = some (.success, silent))
    (run' : main fs (arguments sourceFile regexpsFile binfile true) = some (.success, traced)) :
    silent.read binfile = traced.read binfile ↔ SameOffsets (parsedLines lexems) := by
  obtain ⟨accepted, -, text, written, rfl⟩ := main_success run tokens
  obtain ⟨-, linked, text', written', rfl⟩ := main_success run' tokens
  -- The update that the traced run makes resolves every label.
  rw [writtenLines, if_pos rfl, asmLineUpdateAdress_lines (linked rfl)] at written'
  rw [FileSystem.read_write, FileSystem.read_write, Option.some.injEq]
  exact asmLineText_resolve_eq_iff (typed_parsedLines accepted) written written'

/-- A branch over an instruction to the end of the program, where `PROG_START` is defined again. -/
def branchOver : String := "beq r1,r2,end\nli r1,5\nend:\nPROG_START:\n"

/-- The files of `li r1,5` and of the branch, with and without `-v`. -/
private theorem tracedRuns :
    (∀ verbose,
      ((main (filesOf "li r1,5\n")
        (arguments "prog.s".toList "database.txt".toList "prog.bin".toList verbose)).map fun run =>
          (run.1, run.2.read "prog.bin".toList)) =
        some (.success, some ("00000000010100000000000010010011\n".toList ++
          if verbose then "01111111110101111111001101101111\n".toList
          else "00000000000000000000001101101111\n".toList))) ∧
    (tokenise (filesOf branchOver) "prog.s".toList "database.txt".toList).map
      (fun tokens => decide (SameOffsets (parsedLines tokens.2))) = some true ∧
    ∀ verbose, ((main (filesOf branchOver)
      (arguments "prog.s".toList "database.txt".toList "prog.bin".toList verbose)).map
        Prod.fst) = some .success := by
  decide +kernel

/-- The jump back over `li r1,5` is written with its offset under `-v` only. -/
theorem main_verbose_li : ∃ silent traced,
    main (filesOf "li r1,5\n")
        (arguments "prog.s".toList "database.txt".toList "prog.bin".toList false) =
      some (.success, silent) ∧
    main (filesOf "li r1,5\n")
        (arguments "prog.s".toList "database.txt".toList "prog.bin".toList true) =
      some (.success, traced) ∧
    silent.read "prog.bin".toList ≠ traced.read "prog.bin".toList := by
  -- The immediate of the closing jump is resolved with traces only.
  obtain ⟨runs, -⟩ := tracedRuns
  obtain ⟨⟨_, silent⟩, run, same⟩ := Option.map_eq_some_iff.mp (runs false)
  obtain ⟨⟨_, traced⟩, run', same'⟩ := Option.map_eq_some_iff.mp (runs true)
  obtain ⟨rfl, text⟩ := Prod.mk.inj same
  obtain ⟨rfl, text'⟩ := Prod.mk.inj same'
  refine ⟨silent, traced, run, run', ?_⟩
  rw [text, text']
  decide

/-- A branch by sixteen bytes has the same word with and without `-v`, as bit 4 is not written. -/
theorem main_verbose_branch : ∃ silent traced,
    main (filesOf branchOver)
        (arguments "prog.s".toList "database.txt".toList "prog.bin".toList false) =
      some (.success, silent) ∧
    main (filesOf branchOver)
        (arguments "prog.s".toList "database.txt".toList "prog.bin".toList true) =
      some (.success, traced) ∧
    silent.read "prog.bin".toList = traced.read "prog.bin".toList := by
  -- The closing jump aims at the last definition of its label, which is where it stands.
  obtain ⟨-, read, runs⟩ := tracedRuns
  obtain ⟨⟨_, lexems⟩, tokens, same⟩ := Option.map_eq_some_iff.mp read
  obtain ⟨⟨_, silent⟩, run, rfl⟩ := Option.map_eq_some_iff.mp (runs false)
  obtain ⟨⟨_, traced⟩, run', rfl⟩ := Option.map_eq_some_iff.mp (runs true)
  exact ⟨silent, traced, run, run',
    (main_verbose_iff tokens run run').mpr (of_decide_eq_true same)⟩

end MiniRiscV
