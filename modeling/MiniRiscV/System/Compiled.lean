import MiniRiscV.Asm.Disassembly
import MiniRiscV.Lib.MemoryFile
import MiniRiscV.Rtl.Passes
import MiniRiscV.System.BranchDelay
import MiniRiscV.System.Meaning

/-! From the source of a program without transfers to what the processor computes on its file. -/

namespace MiniRiscV

open ControlLogic
open Rv32i (Instr)

namespace Riscv

variable {n : ℕ} {outer : Word → BitVec 8} {outerInst : BitVec 9 → Word} {start : Riscv n}
  {words : List Word}

/-- A word of the program is fetched from its address, and from any multiple of 2048 behind it. -/
theorem Loaded.fetch_wrapped (loaded : start.Loaded words) (outerInst : BitVec 9 → Word)
    {base : Word} (multiple : base.toNat % 2048 = 0) {k : ℕ} (inside : k < words.length) :
    start.fetch outerInst (base + 4 * BitVec.ofNat 32 k) = words[k] := by
  have few := loaded.addressable
  have fits := loaded.inside
  -- The address divided by four is cut to nine bits.
  have count : (((base + 4 * BitVec.ofNat 32 k) / 4).setWidth 9 : BitVec 9).toNat = k := by
    rw [BitVec.toNat_setWidth, BitVec.toNat_udiv, BitVec.toNat_add, BitVec.toNat_mul,
      BitVec.toNat_ofNat, Nat.mod_eq_of_lt (show k < 2 ^ 32 by omega)]
    change (base.toNat + 4 * k % 2 ^ 32) % 2 ^ 32 / 4 % 2 ^ 9 = k
    omega
  have within : (((base + 4 * BitVec.ofNat 32 k) / 4).setWidth 9 : BitVec 9).toNat < n + 1 := by
    omega
  rw [fetch, dif_pos within]
  refine loaded.word ⟨_, within⟩ _ ?_
  have at_count : words[(((base + 4 * BitVec.ofNat 32 k) / 4).setWidth 9 : BitVec 9).toNat]? =
      some words[k] := by rw [count, List.getElem?_eq_getElem inside]
  exact at_count

/-- A word that is fetched from its address in the program is the word of the program. -/
theorem Loaded.fetch_eq (loaded : start.Loaded words) (outerInst : BitVec 9 → Word) {k : ℕ}
    (inside : k < words.length) :
    start.fetch outerInst (4 * BitVec.ofNat 32 k) = words[k] := by
  have wrapped := @Loaded.fetch_wrapped n start words loaded outerInst 0#32 rfl k inside
  rwa [BitVec.zero_add] at wrapped

/-- The first words of a program are fetched in order, as long as they belong to a straight line. -/
theorem Loaded.inst_eq (loaded : start.Loaded words) (outer : Word → BitVec 8)
    (outerInst : BitVec 9 → Word) {count : ℕ} (inside : count ≤ words.length)
    (streamed : ∀ (k : ℕ) (less : k < count), Streamed words[k]) {k : ℕ} (less : k < count) :
    (start.run outer outerInst (k + 2)).core.instReg0 = words[k] := by
  have serial := serial_trace start outer outerInst
  -- The address counts the fetches, as long as nothing fetched transfers control.
  have fetched : ∀ j, ∀ before : j < count,
      (start.trace outer outerInst).pc j = 4 * BitVec.ofNat 32 j ∧
        (start.trace outer outerInst).inst (j + 4) =
          words.get ⟨j, Nat.lt_of_lt_of_le before inside⟩ := by
    intro k
    induction k using Nat.strong_induction_on with
    | _ k ih =>
      intro less
      have early : ∀ i < k + 4, Streamed ((start.trace outer outerInst).inst i) := by
        intro i before
        by_cases empty : i < 4
        · rw [serial.empty i empty]
          exact .inl rfl
        · obtain ⟨j, rfl⟩ : ∃ j, i = j + 4 := ⟨i - 4, by omega⟩
          rw [(ih j (by omega) (by omega)).2]
          exact streamed j (by omega)
      have address : (start.trace outer outerInst).pc k = 4 * BitVec.ofNat 32 k := by
        cases k with
        | zero => exact serial.start
        | succ k =>
          have notTaken : (start.trace outer outerInst).taken k = false := by
            have noBranch := controls_of_streamed (early (k + 2) (by omega))
            simp only [controls, decide_eq_false_iff_not, not_or] at noBranch
            simp [Trace.taken, branchTaken, noBranch.1]
          rw [serial.continued, notTaken, controls_of_streamed (early k (by omega)),
            (ih k (by omega) (by omega)).1, BitVec.ofNat_add, BitVec.mul_add]
          rfl
      refine ⟨address, ?_⟩
      rw [serial.fetched, address]
      exact loaded.fetch_eq outerInst (by omega)
  exact (fetched k less).2

/-- Words without transfers and hazards, loaded first, are executed in order behind the reset. -/
theorem Loaded.execAll (loaded : start.Loaded words) (outer : Word → BitVec 8)
    (outerInst : BitVec 9 → Word) {insts : List Word} (first : insts <+: words)
    (streamed : ∀ inst ∈ insts, Streamed inst)
    (safe : insts.IsChain fun older inst => ¬ Hazard older inst) :
    start.archAt outer outerInst (insts.length + 4) = Arch.reset.execAll outer insts := by
  have serial := serial_trace start outer outerInst
  have inside := first.length_le
  have at_k {k : ℕ} (less : k < insts.length) :
      (start.trace outer outerInst).inst (k + 4) = insts[k] := by
    have same : words[k] = insts[k] := (first.getElem less).symm
    refine (loaded.inst_eq outer outerInst inside (fun j before => ?_) less).trans same
    rw [← first.getElem before]
    exact streamed _ (List.getElem_mem before)
  -- The two words that the reset leaves in front of the program have no effect.
  have each : (List.range (insts.length + 2)).map
      (fun j => (start.trace outer outerInst).inst (0 + j + 2)) = 0#32 :: 0#32 :: insts := by
    refine List.ext_getElem (by simp) fun j less _ => ?_
    rw [List.getElem_map, List.getElem_range, Nat.zero_add]
    match j with
    | 0 => exact serial.empty 2 (by decide)
    | 1 => exact serial.empty 3 (by decide)
    | j + 2 => exact at_k (by simpa using less)
  -- Neither they nor the word in front of them are a hazard.
  have calm : ∀ j < insts.length + 2, Streamed ((start.trace outer outerInst).inst (0 + j + 2)) ∧
      ¬ Hazard ((start.trace outer outerInst).inst (0 + j + 1))
        ((start.trace outer outerInst).inst (0 + j + 2)) := by
    intro j less
    rw [Nat.zero_add]
    match j with
    | 0 =>
      rw [serial.empty 1 (by decide), serial.empty 2 (by decide)]
      exact ⟨.inl rfl, not_hazard_empty _⟩
    | 1 =>
      rw [serial.empty 2 (by decide), serial.empty 3 (by decide)]
      exact ⟨.inl rfl, not_hazard_empty _⟩
    | 2 =>
      rw [serial.empty 3 (by decide), at_k (show 0 < insts.length by omega)]
      exact ⟨streamed _ (List.getElem_mem _), not_hazard_empty _⟩
    | j + 3 =>
      rw [at_k (show j < insts.length by omega), at_k (show j + 1 < insts.length by omega)]
      exact ⟨streamed _ (List.getElem_mem _), safe.getElem _ _⟩
  -- All of them are one stretch of a straight line.
  have segment := serial.execAll_segment (fun j less => (calm j less).1)
    fun j less => (calm j less).2
  rw [each, serial.reset 2 (by decide)] at segment
  rw [show insts.length + 4 = 0 + (insts.length + 2) + 2 by omega]
  refine segment.trans ?_
  change ((Arch.reset.exec outer 0#32).exec outer 0#32).execAll outer insts = _
  rw [Arch.exec_zero, Arch.exec_zero]

/-- Loaded first, the words of a supported program have the effect that RV32I defines. -/
theorem Loaded.represents (loaded : start.Loaded words) (outer : Word → BitVec 8)
    (outerInst : BitVec 9 → Word) {program : List (Option Instr)}
    (first : program.map wordOf <+: words) (supported : SupportedAll machineReset program)
    (safe : (program.map wordOf).IsChain fun older inst => ¬ Hazard older inst) :
    ∀ count ≤ program.length, Represents (start.archAt outer outerInst (count + 4))
      (machineReset.execAll (program.take count).reduceOption) := by
  intro count inside
  -- A beginning of the program is such a program.
  have first' : (program.take count).map wordOf <+: program.map wordOf := by
    rw [List.map_take]
    exact List.take_prefix _ _
  have supported' := supported.take count
  have safe' := List.IsChain.prefix safe first'
  have sequential := loaded.execAll outer outerInst (first'.trans first)
    (streamed_wordOf supported') safe'
  rw [List.length_map, List.length_take_of_le inside] at sequential
  rw [sequential]
  exact represents_reset.execAll supported'

end Riscv

section Sources

variable {lexems : List Lexem} {verbose : Bool}

/-- Lines that stand for instructions are written as the words of these. -/
theorem words_of_means {lines : List InsnLine} {words : List Word}
    {program : List (Option Instr)} (each : List.Forall₂ WordOf lines words)
    (means : List.Forall₂ Means lines program) : words = program.map wordOf := by
  -- By induction on the lines, whose digits determine their words.
  induction each generalizing program with
  | nil =>
    cases means
    rfl
  | cons one _ ih =>
    cases means with
    | cons is means =>
      have same := one.2.symm.trans is.write
      rw [Option.some.injEq, List.append_cancel_right_eq, BitVec.binaryText_inj] at same
      rw [List.map_cons, same, ih means]

/-- Lines that stand for instructions do not depend on labels. -/
theorem not_isControl_of_means {lines : List InsnLine} {program : List (Option Instr)}
    (means : List.Forall₂ Means lines program) : ∀ line ∈ lines, ¬ line.isControl := by
  -- By induction on the lines.
  induction means with
  | nil => simp
  | cons is _ ih => exact List.forall_mem_cons.mpr ⟨is.not_isControl, ih⟩

end Sources

/--
The beginning of a source that neither branches nor jumps is executed as RV32I defines.

The file is loaded from its first line on. One instruction leaves execute in each cycle, from the
fourth cycle behind the reset on.
-/
theorem main_represents {fs fs' : FileSystem} {sourceFile regexpsFile binfile : CStr}
    {verbose : Bool} {code : ℤ} {lexems : List Lexem} {program : List (Option Instr)}
    (run : main fs (arguments sourceFile regexpsFile binfile verbose) = some (.success, fs'))
    (tokens : tokenise fs sourceFile regexpsFile = some (code, lexems))
    (means : List.Forall₂ Means ((insnLines (parsedLines lexems)).take program.length) program)
    (supported : SupportedAll machineReset program)
    (safe : (program.map wordOf).IsChain fun older inst => ¬ Hazard older inst) :
    ∃ words : List Word, fs'.read binfile = some (fileText (words.map BitVec.binaryText)) ∧
      ∀ (n : ℕ) (start : Riscv n) (outer : Word → BitVec 8) (outerInst : BitVec 9 → Word),
        start.Loaded words →
          ∀ count ≤ program.length, Represents (start.archAt outer outerInst (count + 4))
            (machineReset.execAll (program.take count).reduceOption) := by
  obtain ⟨accepted, linked, text, written, rfl⟩ := main_success run tokens
  -- The file holds one word for each line.
  obtain ⟨words, rfl, each⟩ := exists_words accepted linked written
  refine ⟨words, fs.read_write _ _, ?_⟩
  intro n start outer outerInst loaded
  refine loaded.represents outer outerInst ?_ supported safe
  -- The lines of the program are written as they are, because they use no label.
  obtain ⟨f, -, others, same⟩ := insnLines_writtenLines linked
  have kept : (insnLines (writtenLines verbose lexems)).take program.length =
      (insnLines (parsedLines lexems)).take program.length := by
    rw [same, ← List.map_take]
    refine (List.map_congr_left fun line mem => ?_).trans (List.map_id _)
    exact others line (not_isControl_of_means means line mem)
  have front := List.forall₂_take program.length each
  rw [kept] at front
  rw [← words_of_means front means]
  exact List.take_prefix _ _

deriving instance DecidableEq for StringT

deriving instance DecidableEq for InsnLine

/-- A store behind the instruction that gives its value, and a load from where it stores. -/
def storeLoad : String := "li r1,5\nsw r1,0(r0)\nlw r2,0(r0)\n"

/-- The lines of these instructions, and how their run ends. -/
private theorem storeLoadRun : ∃ code lexems fs',
    tokenise (filesOf storeLoad) "prog.s".toList "database.txt".toList = some (code, lexems) ∧
    main (filesOf storeLoad)
        (arguments "prog.s".toList "database.txt".toList "prog.bin".toList true) =
      some (.success, fs') ∧
    (insnLines (parsedLines lexems)).take 3 = [registerLine .addi 1 0 0 5 stringEmpty 0,
      registerLine .sw 0 0 1 0 stringEmpty 4, registerLine .lw 2 0 0 0 stringEmpty 8] := by
  have evaluated :
      (tokenise (filesOf storeLoad) "prog.s".toList "database.txt".toList).map
        (fun tokens =>
          ((insnLines (parsedLines tokens.2)).take 3,
            (assemble (filesOf storeLoad) true tokens.2 "prog.bin".toList).map Prod.fst)) =
      some ([registerLine .addi 1 0 0 5 stringEmpty 0, registerLine .sw 0 0 1 0 stringEmpty 4,
        registerLine .lw 2 0 0 0 stringEmpty 8], some .success) := by
    decide +kernel
  obtain ⟨⟨code, lexems⟩, tokens, same⟩ := Option.map_eq_some_iff.mp evaluated
  obtain ⟨lines, exits⟩ := Prod.mk.inj same
  obtain ⟨⟨_, fs'⟩, run, rfl⟩ := Option.map_eq_some_iff.mp exits
  refine ⟨code, lexems, fs', tokens, ?_, lines⟩
  -- The source is read once, and the run goes on from its lexemes.
  rw [main_arguments, tokens, Option.bind_some]
  exact run

/-- The value stored is loaded seven cycles behind the reset. -/
theorem main_represents_storeLoad : ∃ (fs' : FileSystem) (words : List Word),
    main (filesOf storeLoad)
        (arguments "prog.s".toList "database.txt".toList "prog.bin".toList true) =
      some (.success, fs') ∧
    fs'.read "prog.bin".toList = some (fileText (words.map BitVec.binaryText)) ∧
    ∀ (n : ℕ) (start : Riscv n) (outer : Word → BitVec 8) (outerInst : BitVec 9 → Word),
      start.Loaded words → (start.run outer outerInst 7).core.registers 2 = 5 := by
  obtain ⟨code, lexems, fs', tokens, run, lines⟩ := storeLoadRun
  obtain ⟨words, file, effect⟩ := @main_represents _ _ _ _ _ _ _ _
    [some (.immediate .add 1 0 5), some (.store .sw 0 1 0), some (.load .lw 2 0 0)]
    run tokens
    (by
      rw [List.length, List.length, List.length, List.length, lines]
      exact .cons (.instr _ _ ⟨by decide, by decide⟩ rfl)
        (.cons (.instr _ _ ⟨by decide, by decide⟩ rfl)
          (.cons (.instr _ _ ⟨by decide, by decide⟩ rfl) .nil)))
    (by decide) (by decide)
  -- The third of the instructions is executed seven cycles behind the reset.
  refine ⟨fs', words, run, file, fun n start outer outerInst loaded => ?_⟩
  exact ((effect n start outer outerInst loaded 3 (by decide)).registers 2).trans (by decide)

end MiniRiscV
