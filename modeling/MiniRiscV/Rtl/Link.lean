import MiniRiscV.Rtl.PcRelative
import MiniRiscV.Rtl.Redirect
import MiniRiscV.Rtl.Supplied

/-! The link that the jumps leave in a register, and the target of `JALR`. -/

namespace MiniRiscV

open ControlLogic

/-- The instruction is a jump, which writes a link. -/
def Links (inst : Word) : Prop := opcode inst = instJal ∨ opcode inst = instJalr

/-- A jump writes its destination. -/
theorem Links.writes {inst : Word} (links : Links inst) : WritesReg inst (rd inst) := by
  refine ⟨?_, rfl⟩
  -- Neither jump is one of the instructions without a result.
  rcases links with is | is <;> simp [hasResult, is, instJal, instJalr, instBranch, instNop,
    instStore]

/-- A jump selects the incremented program counter for the write-back bus. -/
theorem Links.wbSel2O {inst : Word} (links : Links inst) : wbSel2O false inst := by
  -- It is the test that the selection makes.
  rcases links with is | is <;> simp [ControlLogic.wbSel2O, is]

section Links

/-- What a jump that is fetched at a cycle leaves to the instructions behind it. -/
structure LinksRight (states : ℕ → Core) (fetched : ℕ) : Prop where
  /-- Behind write-back, the destination holds the address of the instruction after the jump. -/
  link : Links (states (fetched + 2)).instReg0 →
    (states (fetched + 5)).registers (rd (states (fetched + 2)).instReg0) =
      (states fetched).pcO + 4
  /-- So do the operands of all instructions up to the next one with the same destination. -/
  readers : Links (states (fetched + 2)).instReg0 → ∀ between,
    (∀ i < between, ¬ WritesReg (states (fetched + 3 + i)).instReg0
      (rd (states (fetched + 2)).instReg0)) →
    (states (fetched + 3 + between)).Supplied (rd (states (fetched + 2)).instReg0)
      ((states fetched).pcO + 4)
  target : opcode (states (fetched + 2)).instReg0 = instJalr →
    (states (fetched + 5)).pcO = (states (fetched + 2)).br1 false +
      (Rv32i.immI (states (fetched + 2)).instReg0).signExtend 32

/-- The states in which the wires carry what a jump needs. -/
structure LinkAgrees (states : ℕ → Core) (fetched : ℕ) : Prop where
  /-- When the jump is in write-back, the fetch is back at its address. -/
  back : Links (states (fetched + 2)).instReg0 → (states (fetched + 4)).pcO = (states fetched).pcO
  /-- For a reader directly behind the jump, the target of the jump is its own link. -/
  next : Links (states (fetched + 2)).instReg0 →
    ReadsReg (states (fetched + 3)).instReg0 (rd (states (fetched + 2)).instReg0) →
    (states (fetched + 2)).pcO + (states (fetched + 2)).immO = (states fetched).pcO + 4
  /-- The base register of `JALR` holds the program counter. -/
  base : opcode (states (fetched + 2)).instReg0 = instJalr →
    (states (fetched + 2)).br1 false = (states (fetched + 2)).pcO

end Links

namespace Riscv

variable {n : ℕ} {outer : Word → BitVec 8} {outerInst : BitVec 9 → Word} {start : Riscv n}

/-- A register that no instruction writes keeps its value. -/
theorem run_registers_kept {r : BitVec 5} {cycle more : ℕ}
    (kept : ∀ i < more, ¬ WritesReg (start.run outer outerInst (cycle + i)).core.instReg2 r) :
    (start.run outer outerInst (cycle + more)).core.registers r =
      (start.run outer outerInst cycle).core.registers r := by
  -- By induction on the edges, each of which writes for the instruction in write-back only.
  induction more with
  | zero => rfl
  | succ more ih =>
    have before := ih fun i less => kept i (Nat.lt_succ_of_lt less)
    rw [← Nat.add_assoc, run_succ_core, Core.step_registers (run_decoded _), ← before]
    exact if_neg (kept more (Nat.lt_succ_self more))

/-- While a jump is in write-back, the bus carries the program counter of that cycle plus four. -/
theorem run_dataDO_of_links {fetched : ℕ}
    (links : Links (start.run outer outerInst (fetched + 2)).core.instReg0) :
    (start.run outer outerInst (fetched + 4)).core.dataDO false =
      (start.run outer outerInst (fetched + 4)).core.pcO + 4 :=
  if_pos links.wbSel2O

/-- The register of a jump gets the program counter of its write-back plus four. -/
theorem run_registers_of_links {fetched : ℕ}
    (links : Links (start.run outer outerInst (fetched + 2)).core.instReg0) :
    (start.run outer outerInst (fetched + 5)).core.registers
        (rd (start.run outer outerInst (fetched + 2)).core.instReg0) =
      (start.run outer outerInst (fetched + 4)).core.pcO + 4 := by
  -- The edge behind write-back writes what is on the bus.
  rw [run_succ_core, Core.step_registers (run_decoded _), ← run_dataDO_of_links links]
  exact if_pos links.writes

/-- Where the fetch is back at the address of a jump, the readers of its register get its link. -/
theorem run_supplied_of_links {fetched : ℕ}
    (links : Links (start.run outer outerInst (fetched + 2)).core.instReg0)
    (agrees : LinkAgrees (fun k => (start.run outer outerInst k).core) fetched) (between : ℕ)
    (kept : ∀ i < between, ¬ WritesReg (start.run outer outerInst (fetched + 3 + i)).core.instReg0
      (rd (start.run outer outerInst (fetched + 2)).core.instReg0)) :
    (start.run outer outerInst (fetched + 3 + between)).core.Supplied
      (rd (start.run outer outerInst (fetched + 2)).core.instReg0)
      ((start.run outer outerInst fetched).core.pcO + 4) := by
  rcases between with _ | _ | more
  · -- The reader directly behind gets the target, which has to be the link.
    have near := Core.supplied_aluResultO
      (s := (start.run outer outerInst (fetched + 3)).core) links.writes
    have result : (start.run outer outerInst (fetched + 3)).core.aluResultO =
        (start.run outer outerInst (fetched + 2)).core.pcO +
          (start.run outer outerInst (fetched + 2)).core.immO := Core.resultR_jump links
    exact near.trans fun reads => result.trans (agrees.next links reads)
  · -- The next one gets the bus while the jump is in write-back.
    rw [← agrees.back links, ← run_dataDO_of_links links]
    exact Core.supplied_dataDO (kept 0 (by decide)) links.writes
  · -- All others read the register file, which nobody has written since.
    have far := Core.supplied_registers (run_decoded (fetched + 3 + (more + 2)))
      (kept (more + 1) (by omega)) (kept more (by omega))
    have stays : (start.run outer outerInst (fetched + 5 + more)).core.registers
        (rd (start.run outer outerInst (fetched + 2)).core.instReg0) =
          (start.run outer outerInst (fetched + 5)).core.registers
            (rd (start.run outer outerInst (fetched + 2)).core.instReg0) := by
      refine run_registers_kept fun i less => ?_
      have step := kept i (by omega)
      rw [Nat.add_right_comm] at step ⊢
      exact step
    rw [← agrees.back links, ← run_registers_of_links links, ← stays]
    rw [show fetched + 5 + more = fetched + 3 + (more + 2) by omega]
    exact far

/-- `JALR` transfers control to the program counter plus its immediate. -/
theorem run_pcO_of_jalr {fetched : ℕ}
    (jalr : opcode (start.run outer outerInst (fetched + 2)).core.instReg0 = instJalr) :
    (start.run outer outerInst (fetched + 5)).core.pcO =
      (start.run outer outerInst (fetched + 2)).core.pcO +
        (Rv32i.immI (start.run outer outerInst (fetched + 2)).core.instReg0).signExtend 32 := by
  -- It is loaded from write-back, three edges behind execute.
  have control : controls (start.run outer outerInst (fetched + 2)).core.instReg0 := by
    simp [controls, jalr]
  rw [run_pcO_of_controls control, Core.resultR_jump (.inr jalr),
    (run_decoded (fetched + 2)).imm0, immGen_jalr jalr]

/--
A jump is right exactly when the fetch is back at its address while it is in write-back, its
target is its own link if the next instruction reads that, and the base register of a `JALR`
holds the program counter.
-/
theorem linksRight_iff (start : Riscv n) (fetched : ℕ) :
    LinksRight (fun k => (start.run outer outerInst k).core) fetched ↔
      LinkAgrees (fun k => (start.run outer outerInst k).core) fetched := by
  constructor
  · intro right
    refine ⟨fun links => ?_, fun links reads => ?_, fun jalr => ?_⟩
    · -- The register shows the program counter of the write-back.
      have register := right.link links
      rw [run_registers_of_links links] at register
      exact (BitVec.add_left_inj _).mp register
    · -- The next instruction shows the target.
      have near := Core.supplied_aluResultO
        (s := (start.run outer outerInst (fetched + 3)).core) links.writes
      have link := right.readers links 0 (fun i less => absurd less (Nat.not_lt_zero i))
      exact (Core.resultR_jump links).symm.trans (near.unique link reads)
    · -- The fetch shows the base.
      have target := right.target jalr
      rw [run_pcO_of_jalr jalr] at target
      exact ((BitVec.add_left_inj _).mp target).symm
  · intro agrees
    refine ⟨fun links => ?_, fun links => run_supplied_of_links links agrees, fun jalr => ?_⟩
    · exact (run_registers_of_links links).trans (congrArg (· + 4) (agrees.back links))
    · exact (run_pcO_of_jalr jalr).trans (by rw [agrees.base jalr])

/-- `jalr r0, -4(r0)` at zero fetches the `jal r1, 8` at four twice, and its first link is eight. -/
theorem linksRight_refetched :
    let start := holding [0xFFC00067#32, 0x008000EF#32]
    Links (start.run (fun _ => 0) (fun _ => 0) 3).core.instReg0 ∧
      LinksRight (fun k => (start.run (fun _ => 0) (fun _ => 0) k).core) 1 := by
  -- The instruction behind the jump is empty, and the jump has no base register.
  refine ⟨.inl (by decide), (linksRight_iff _ 1).mpr ⟨fun _ => by decide, fun _ reads => ?_, ?_⟩⟩
  · rcases reads with ⟨reads, -⟩ | ⟨reads, -⟩ <;> exact absurd reads (by decide)
  · intro jalr
    exact absurd jalr (by decide)

/-- Where the four fetches behind a jump are sequential, it is never right. -/
theorem not_linksRight_of_sequential {fetched : ℕ}
    (links : Links (start.run outer outerInst (fetched + 2)).core.instReg0)
    (sequential : (start.run outer outerInst (fetched + 4)).core.pcO =
      (start.run outer outerInst fetched).core.pcO + 16) :
    ¬ LinksRight (fun k => (start.run outer outerInst k).core) fetched := by
  intro right
  -- The link is sixteen bytes too far.
  have register := right.link links
  rw [run_registers_of_links links, sequential, BitVec.add_left_inj] at register
  simp at register

/-- `jal r1, 8` at zero leaves a twenty in its register, and `jalr r1, 8(r0)` goes to sixteen. -/
theorem not_linksRight_zero :
    ¬ LinksRight (fun k => ((holding [0x008000EF#32]).run (fun _ => 0) (fun _ => 0) k).core) 0 ∧
      ¬ LinksRight (fun k => ((holding [0x008000E7#32]).run (fun _ => 0) (fun _ => 0) k).core)
        0 := by
  -- The first shows it in its register, the second one in the fetch.
  refine ⟨fun right => ?_, fun right => ?_⟩
  · exact absurd (right.link (.inl (by decide))) (by decide)
  · exact absurd (right.target (by decide)) (by decide)

end Riscv
end MiniRiscV
