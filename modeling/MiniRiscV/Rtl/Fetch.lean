import MiniRiscV.Rtl.Riscv

/-! The instruction fetch, whose index has nine bits whatever the size of the memory. -/

namespace MiniRiscV

namespace Riscv

variable {n : ℕ} {outer : Word → BitVec 8} {outerInst : BitVec 9 → Word}

/-- The fetch takes the word at the index modulo 512. -/
theorem inst_eq (outerInst : BitVec 9 → Word) (s : Riscv n) (inside : s.core.pcO.toNat / 4 ≤ n) :
    s.inst outerInst = s.tabInst ⟨s.core.pcO.toNat / 4 % 512, by omega⟩ := by
  have count : ((s.core.pcO / 4).setWidth 9).toNat = s.core.pcO.toNat / 4 % 512 := by
    rw [BitVec.toNat_setWidth, BitVec.toNat_udiv]
    rfl
  -- The index is at most the one asked for, so it is inside the array.
  have within : ((s.core.pcO / 4).setWidth 9).toNat < n + 1 := by omega
  rw [inst, dif_pos within]
  exact congrArg s.tabInst (Fin.ext count)

/-- Whatever the program, the word at this address is fetched from its own place. -/
def FetchesAt (n : ℕ) (outer : Word → BitVec 8) (outerInst : BitVec 9 → Word) (pc : Word) : Prop :=
  ∀ (s : Riscv n) (inside : pc.toNat / 4 ≤ n), s.core.pcO = pc →
    (s.step outer outerInst false).instOut = s.tabInst ⟨pc.toNat / 4, Nat.lt_succ_of_le inside⟩

/-- Every address of the program is fetched from a place of its own. -/
structure FetchesAll (n : ℕ) (outer : Word → BitVec 8) (outerInst : BitVec 9 → Word) : Prop where
  fetched : ∀ pc : Word, pc.toNat / 4 ≤ n → FetchesAt n outer outerInst pc
  /-- Each instruction of a program is the one fetched at some address. -/
  reachable : ∀ i : Fin (n + 1), ∃ pc : Word, ∀ s : Riscv n, s.core.pcO = pc →
    (s.step outer outerInst false).instOut = s.tabInst i
  /-- Two addresses that give the same word in every program are of the same instruction. -/
  noAlias : ∀ pc pc' : Word, pc.toNat / 4 ≤ n → pc'.toNat / 4 ≤ n →
    (∀ s s' : Riscv n, s.tabInst = s'.tabInst → s.core.pcO = pc → s'.core.pcO = pc' →
      (s.step outer outerInst false).instOut = (s'.step outer outerInst false).instOut) →
    pc.toNat / 4 = pc'.toNat / 4

/-- A processor that fetches at an address from a program. -/
def fetching (pc : Word) (tabInst : Fin (n + 1) → Word) : Riscv n where
  core := { (default : Core) with pcO := pc }
  tabInst := tabInst
  instOut := 0

/-- An address is fetched from its own place exactly when its index has nine bits. -/
theorem fetchesAt_iff {pc : Word} (inside : pc.toNat / 4 ≤ n) :
    FetchesAt n outer outerInst pc ↔ pc.toNat / 4 < 512 := by
  constructor
  · intro fetches
    by_contra high
    -- A program with a one at this place, and zeros elsewhere, tells the place from the other.
    have word := fetches (fetching pc fun i => if i.val = pc.toNat / 4 then 1 else 0) inside rfl
    have other : (fetching pc fun i : Fin (n + 1) =>
        if i.val = pc.toNat / 4 then 1 else 0).inst outerInst = 0 := by
      rw [inst_eq outerInst _ inside]
      exact if_neg (by simp only [fetching]; omega)
    have own : (0 : Word) = 1 := by
      rw [← other]
      exact word.trans (if_pos rfl)
    exact absurd own (by decide)
  · intro low s within here
    change s.inst outerInst = _
    subst here
    rw [inst_eq outerInst s within]
    congr 2
    exact Nat.mod_eq_of_lt low

/-- A memory fetches all its words exactly when it has at most 512 of them. -/
theorem fetchesAll_iff : FetchesAll n outer outerInst ↔ n < 512 := by
  constructor
  · intro all
    by_contra many
    -- The addresses zero and 2048 have the same index.
    have same := all.noAlias 0#32 2048#32 (by simp) (by simp; omega) (by
      intro s s' program here there
      change s.inst outerInst = s'.inst outerInst
      rw [inst_eq outerInst s (by simp [here]), inst_eq outerInst s' (by simp [there]; omega),
        program]
      simp [here, there])
    simp at same
  · intro few
    have fetched (pc : Word) (inside : pc.toNat / 4 ≤ n) : FetchesAt n outer outerInst pc :=
      (fetchesAt_iff inside).mpr (by omega)
    refine ⟨fetched, fun i => ?_, fun pc pc' inside inside' same => ?_⟩
    · -- The instruction numbered `i` is at the address `4 * i`.
      have place := i.isLt
      have quarter : (BitVec.ofNat 32 (4 * i.val)).toNat / 4 = i.val := by
        rw [BitVec.toNat_ofNat]
        omega
      refine ⟨BitVec.ofNat 32 (4 * i.val), fun s here => ?_⟩
      have word := fetched _ (by omega) s (by omega) here
      exact word.trans (congrArg s.tabInst (Fin.ext quarter))
    · by_contra apart
      -- A program with a one at the first place only tells the two addresses apart.
      have first := fetched pc inside (fetching pc fun i => if i.val = pc.toNat / 4 then 1 else 0)
        inside rfl
      have second := fetched pc' inside'
        (fetching pc' fun i => if i.val = pc.toNat / 4 then 1 else 0) inside' rfl
      have zero : (0 : Word) = 1 := by
        calc (0 : Word) = _ := (if_neg (Ne.symm apart)).symm
          _ = _ := second.symm
          _ = _ := (same (fetching pc _) (fetching pc' _) rfl rfl rfl).symm
          _ = _ := first
          _ = 1 := if_pos rfl
      exact absurd zero (by decide)

/--
The word latched for an address is the one at its place in every program exactly when the place
has nine bits, so a program is fetched as a whole exactly when it has at most 512 words.
-/
theorem fetches_iff (n : ℕ) (outer : Word → BitVec 8) (outerInst : BitVec 9 → Word) :
    (∀ pc : Word, pc.toNat / 4 ≤ n → (FetchesAt n outer outerInst pc ↔ pc.toNat / 4 < 512)) ∧
      (FetchesAll n outer outerInst ↔ n < 512) :=
  ⟨fun _ => fetchesAt_iff, fetchesAll_iff⟩

/-- With `n = 648`, the instruction at the address 2048 is fetched from the place of the first. -/
theorem not_fetchesAll_bench :
    let s : Riscv 648 := fetching 2048#32 fun i => BitVec.ofNat 32 i.val
    (s.step (fun _ => 0) (fun _ => 0) false).instOut = 0#32 ∧ s.tabInst 512 = 512#32 ∧
      ¬ FetchesAt 648 (fun _ => 0) (fun _ => 0) 2048#32 ∧
      ¬ FetchesAll 648 (fun _ => 0) (fun _ => 0) := by
  -- The index 512 needs a tenth bit.
  have first : ¬ FetchesAt 648 (fun _ => 0) (fun _ => 0) 2048#32 :=
    mt (fetchesAt_iff (by decide)).mp (by decide)
  exact ⟨by decide, by decide, first, fun all => first (all.fetched 2048#32 (by decide))⟩

end Riscv
end MiniRiscV
