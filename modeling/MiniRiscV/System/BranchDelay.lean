import MiniRiscV.Asm.Image
import MiniRiscV.Rtl.NotTaken

/-! Assembled programs on the processor: what is fetched between a transfer and its target. -/

namespace MiniRiscV

open ControlLogic

/-- A word with the opcode `0000000` of the no-operation, or with that of the branches. -/
def Harmless (inst : Word) : Prop := opcode inst = instNop ∨ opcode inst = instBranch

instance (inst : Word) : Decidable (Harmless inst) := inferInstanceAs (Decidable (_ ∨ _))

/-- The word fetched in a cycle writes a register or the data memory once it comes to it. -/
def Writes (states : ℕ → Core) (cycle : ℕ) : Prop :=
  (states (cycle + 4)).observed.regWrite.isSome ∨ (states (cycle + 3)).observed.memWrite.isSome

/--
The words fetched behind a transfer and before its target have no effect.

The target is in the program counter five cycles after the fetch of the transfer.
-/
def Covered (states : ℕ → Core) (cycle : ℕ) : Prop :=
  ∀ between, cycle < between → between < cycle + 5 → ¬ Writes states between

namespace Riscv

variable {n : ℕ} {outer : Word → BitVec 8} {outerInst : BitVec 9 → Word} {start : Riscv n}
  {lexems : List Lexem} {words : List Word}

/-- The index of the instruction memory that the fetch reads, its nine bits wrapping around. -/
def count (s : Riscv n) : ℕ := ((s.core.pcO / 4).setWidth 9).toNat

/-- The words stand at the beginning of an instruction memory in which they fit. -/
structure Loaded (start : Riscv n) (words : List Word) : Prop where
  inside : words.length ≤ n + 1
  addressable : words.length ≤ 512
  word : ∀ i : Fin (n + 1), ∀ word ∈ words[i.val]?, start.tabInst i = word

/-- A processor that holds a program is loaded with it. -/
theorem loaded_holding (fits : words.length ≤ 21) : (holding words).Loaded words where
  inside := fits
  addressable := by omega
  word i word at_i := by
    -- The memory of the processor holds twenty-one words, fewer than the index can reach.
    rw [Option.mem_def] at at_i
    simp [holding, at_i]

/-- A fetch from the program reads the word of the program. -/
theorem Loaded.inst (loaded : start.Loaded words) (outer : Word → BitVec 8)
    (outerInst : BitVec 9 → Word) {cycle : ℕ} {word : Word}
    (at_count : words[(start.run outer outerInst cycle).count]? = some word) :
    (start.run outer outerInst cycle).inst outerInst = word := by
  -- The index is inside of the program, and so inside of the memory.
  have inside : (start.run outer outerInst cycle).count < words.length :=
    (List.getElem?_eq_some_iff.mp at_count).1
  have fits : (start.run outer outerInst cycle).count < n + 1 :=
    Nat.lt_of_lt_of_le inside loaded.inside
  have read : (start.run outer outerInst cycle).inst outerInst =
      (start.run outer outerInst cycle).tabInst ⟨_, fits⟩ := dif_pos fits
  rw [read, run_tabInst]
  exact loaded.word ⟨_, fits⟩ word at_count

/-- The next address is the next index, as long as the index does not wrap around. -/
theorem count_succ {s s' : Riscv n} (next : s'.core.pcO = s.core.pcO + 4)
    (inside : s.count + 1 < 512) : s'.count = s.count + 1 := by
  -- The index is the address without its last two bits, cut to nine bits.
  have bound := s.core.pcO.isLt
  rw [count, BitVec.toNat_setWidth, BitVec.toNat_udiv] at inside ⊢
  rw [count, BitVec.toNat_setWidth, BitVec.toNat_udiv, next, BitVec.toNat_add]
  change s.core.pcO.toNat / 4 % 2 ^ 9 + 1 < 512 at inside
  change (s.core.pcO.toNat + 4) % 2 ^ 32 / 4 % 2 ^ 9 = s.core.pcO.toNat / 4 % 2 ^ 9 + 1
  omega

/-- What a word writes is seen from its opcode, once it has reached the stages that write. -/
theorem writes_iff (cycle : ℕ) :
    Writes (fun k => (start.run outer outerInst k).core) cycle ↔
      ¬ Harmless ((start.run outer outerInst cycle).inst outerInst) := by
  -- Four edges behind its fetch the word is in write-back, and three in the memory stage.
  have inWriteBack : (start.run outer outerInst (cycle + 4)).core.instReg2 =
      (start.run outer outerInst cycle).inst outerInst := rfl
  have inMemory : (start.run outer outerInst (cycle + 3)).core.instReg1 =
      (start.run outer outerInst cycle).inst outerInst := rfl
  have register : (start.run outer outerInst (cycle + 4)).core.observed.regWrite.isSome =
      hasResult ((start.run outer outerInst cycle).inst outerInst) := by
    rw [Core.observed, inWriteBack, Arch.regWEnO_eq_hasResult]
    cases hasResult ((start.run outer outerInst cycle).inst outerInst) <;> rfl
  have memory : (start.run outer outerInst (cycle + 3)).core.observed.memWrite.isSome =
      memRwO false ((start.run outer outerInst cycle).inst outerInst) := by
    rw [Core.observed, inMemory]
    cases memRwO false ((start.run outer outerInst cycle).inst outerInst) <;> rfl
  rw [Writes, register, memory]
  generalize (start.run outer outerInst cycle).inst outerInst = inst
  -- Every opcode but two has a result or is a store.
  simp only [Harmless, hasResult, memRwO, Bool.not_false, Bool.true_and, decide_eq_true_eq]
  by_cases store : opcode inst = instStore
  · simp [store, instStore, instNop, instBranch]
  · simp [store, and_comm, not_or]

/-- The words between a transfer and its target have no effect exactly when all four are such. -/
theorem covered_iff_harmless (cycle : ℕ) :
    Covered (fun k => (start.run outer outerInst k).core) cycle ↔
      (Harmless ((start.run outer outerInst (cycle + 1)).inst outerInst) ∧
        Harmless ((start.run outer outerInst (cycle + 2)).inst outerInst)) ∧
      Harmless ((start.run outer outerInst (cycle + 3)).inst outerInst) ∧
        Harmless ((start.run outer outerInst (cycle + 4)).inst outerInst) := by
  simp only [Covered, writes_iff, not_not]
  -- The four cycles in between are listed.
  constructor
  · intro each
    exact ⟨⟨each _ (by omega) (by omega), each _ (by omega) (by omega)⟩,
      each _ (by omega) (by omega), each _ (by omega) (by omega)⟩
  · rintro ⟨⟨one, two⟩, three, four⟩ between behind before
    obtain rfl | rfl | rfl | rfl : between = cycle + 1 ∨ between = cycle + 2 ∨
        between = cycle + 3 ∨ between = cycle + 4 := by omega
    · exact one
    · exact two
    · exact three
    · exact four

/-- A taken branch of the program, behind which the next two fetches go on in order. -/
structure InsertedNops (words : List Word) (states : ℕ → Riscv n) (cycle : ℕ) : Prop where
  inside : (states cycle).count < words.length
  taken : (states (cycle + 2)).core.taken
  next : (states (cycle + 1)).core.pcO = (states cycle).core.pcO + 4
  next' : (states (cycle + 2)).core.pcO = (states cycle).core.pcO + 8

/-- There the two words fetched are the inserted no-operations. -/
theorem InsertedNops.harmless (assembled : Assembled lexems words) (loaded : start.Loaded words)
    {cycle : ℕ} (inserted : InsertedNops words (start.run outer outerInst) cycle) :
    Harmless ((start.run outer outerInst (cycle + 1)).inst outerInst) ∧
      Harmless ((start.run outer outerInst (cycle + 2)).inst outerInst) := by
  -- The branch is read from the program, at the index of its address.
  have at_count : words[(start.run outer outerInst cycle).count]? =
      some (words.get ⟨_, inserted.inside⟩) := List.getElem?_eq_getElem inserted.inside
  have fetched := loaded.inst outer outerInst at_count
  -- The word in execute two cycles later is the one that was fetched.
  have branch : opcode (words.get ⟨(start.run outer outerInst cycle).count, inserted.inside⟩) =
      instBranch := by
    rw [← fetched]
    exact Core.opcode_of_taken inserted.taken
  obtain ⟨one, two⟩ := assembled.nops_behind_branch at_count branch
  have inside : (start.run outer outerInst cycle).count + 2 < 512 :=
    Nat.lt_of_lt_of_le (List.getElem?_eq_some_iff.mp two).1 loaded.addressable
  have countOne : (start.run outer outerInst (cycle + 1)).count =
      (start.run outer outerInst cycle).count + 1 := count_succ inserted.next (by omega)
  have countTwo : (start.run outer outerInst (cycle + 2)).count =
      (start.run outer outerInst cycle).count + 2 := by
    rw [count_succ (s := start.run outer outerInst (cycle + 1)) ?_ (by omega), countOne]
    rw [inserted.next', inserted.next, BitVec.add_assoc]
    rfl
  -- The next two fetches read the next two words, which are empty.
  rw [← countOne] at one
  rw [← countTwo] at two
  have empty : Harmless 0 := by decide
  rw [loaded.inst outer outerInst one,
    loaded.inst outer outerInst two]
  exact ⟨empty, empty⟩

/--
A transfer has its target in the program counter five cycles behind its fetch, and the four words
fetched in between have no effect exactly when each is a no-operation or a branch.

Only the first two can be the inserted no-operations, which need no condition. Behind a jump the
other two are the next ones in the memory. Behind a taken branch they are not: the branch in execute
already loads the program counter from the write-back bus, so that the third word is fetched from
the address that an older instruction happens to write back, and the fourth one from behind it.
-/
theorem covered_iff (assembled : Assembled lexems words) (start : Riscv n)
    (loaded : start.Loaded words) (cycle : ℕ)
    (transfers : (start.run outer outerInst (cycle + 2)).core.Transfers) :
    (start.run outer outerInst (cycle + 5)).core.pcO =
        (start.run outer outerInst (cycle + 2)).core.resultR false ∧
      (Covered (fun k => (start.run outer outerInst k).core) cycle ↔
        (¬ InsertedNops words (start.run outer outerInst) cycle →
          Harmless ((start.run outer outerInst (cycle + 1)).inst outerInst) ∧
            Harmless ((start.run outer outerInst (cycle + 2)).inst outerInst)) ∧
        Harmless ((start.run outer outerInst (cycle + 3)).inst outerInst) ∧
          Harmless ((start.run outer outerInst (cycle + 4)).inst outerInst)) := by
  constructor
  · -- A transfer loads its result from write-back, three edges behind execute.
    exact run_pcO_of_controls (Core.controls_of_transfers transfers)
  · rw [covered_iff_harmless]
    refine and_congr_left fun _ => ⟨fun both _ => both, fun others => ?_⟩
    -- The inserted no-operations need no condition.
    by_cases inserted : InsertedNops words (start.run outer outerInst) cycle
    · exact inserted.harmless assembled loaded
    · exact others inserted

/-- The lexemes of `beq r0,r0,PROG_START`. -/
def branchToStart : List Lexem :=
  [lexemOf "insn::BEQ" "beq", lexemOf "blank" " ", lexemOf "symbole::register" "r0",
    lexemOf "comma" ",", lexemOf "symbole::register" "r0", lexemOf "comma" ",",
    lexemOf "symbole::label" "PROG_START", lexemOf "newline" "\n"]

/-- The lexemes of `jal r1,e`, `li r2,5` and the label `e`. -/
def jumpOver : List Lexem :=
  [lexemOf "insn::JAL" "jal", lexemOf "blank" " ", lexemOf "symbole::register" "r1",
    lexemOf "comma" ",", lexemOf "symbole::label" "e", lexemOf "newline" "\n",
    lexemOf "unsinsn::LI" "li", lexemOf "blank" " ", lexemOf "symbole::register" "r2",
    lexemOf "comma" ",", lexemOf "integer::dec" "5", lexemOf "newline" "\n",
    lexemOf "label" "e:", lexemOf "newline" "\n"]

/-- What the assembler makes of the two programs, each closed by a jump to its start. -/
private theorem assembled_branchToStart_jumpOver :
    (Accepted branchToStart ∧ (asmLineUpdateAdress (parsedLines branchToStart)).1 = 0 ∧
        asmLineText (writtenLines true branchToStart) = some (fileText
          ([0x00000063#32, 0#32, 0#32, 0x7F57F36F#32].map BitVec.binaryText))) ∧
      Accepted jumpOver ∧ (asmLineUpdateAdress (parsedLines jumpOver)).1 = 0 ∧
        asmLineText (writtenLines true jumpOver) = some (fileText
          ([0x008000EF#32, 0x00500113#32, 0x7F97F36F#32].map BitVec.binaryText)) := by
  decide +kernel

/-- Behind the taken branch come its no-operations, and then empty words behind the program. -/
theorem covered_branchToStart :
    Covered (fun k => ((holding [0x00000063#32, 0#32, 0#32, 0x7F57F36F#32]).run (fun _ => 0)
      (fun _ => 0) k).core) 0 := by
  obtain ⟨accepted, resolved, written⟩ := assembled_branchToStart_jumpOver.1
  refine (covered_iff ⟨accepted, resolved, written⟩ (holding _) (loaded_holding (by decide)) 0
    (.inr (.inr (by decide)))).2.mpr ⟨fun others => absurd ?_ others, by decide, by decide⟩
  -- The branch is the first word, and the fetch goes on by four and by eight.
  exact ⟨by decide, by decide, by decide, by decide⟩

/-- The `li` behind the jump is executed although the jump is made over it. -/
theorem not_covered_jumpOver :
    Assembled jumpOver [0x008000EF#32, 0x00500113#32, 0x7F97F36F#32] ∧
      ((holding [0x008000EF#32, 0x00500113#32, 0x7F97F36F#32]).run (fun _ => 0) (fun _ => 0)
        2).core.Transfers ∧
      ¬ Covered (fun k => ((holding [0x008000EF#32, 0x00500113#32, 0x7F97F36F#32]).run
        (fun _ => 0) (fun _ => 0) k).core) 0 := by
  obtain ⟨accepted, resolved, written⟩ := assembled_branchToStart_jumpOver.2
  refine ⟨⟨accepted, resolved, written⟩, .inl (by decide), fun covered => ?_⟩
  -- The `li` is fetched in the next cycle, and writes its register.
  exact covered 1 (by decide) (by decide) (.inl (by decide))

end Riscv
end MiniRiscV
