import Mathlib.Data.List.Basic
import Mathlib.Logic.Function.Basic

/-! Singly linked lists in a heap: the cells that a pointer leads to, and what keeps them. -/

namespace LinkedList

variable {Addr α : Type*}

/-- A cell of a list: its content and the pointer to the next one, none being null. -/
structure Cell (Addr α : Type*) where
  content : α
  next : Option Addr

/-- The cells that are allocated. -/
abbrev Heap (Addr α : Type*) := Addr → Option (Cell Addr α)

/-- The pointer leads through these cells, given by address and content, to null. -/
inductive Chain (heap : Heap Addr α) : Option Addr → List (Addr × α) → Prop where
  | null : Chain heap none []
  | cell {a : Addr} {content : α} {next : Option Addr} {cells : List (Addr × α)}
    (here : heap a = some ⟨content, next⟩) (behind : Chain heap next cells) :
    Chain heap (some a) ((a, content) :: cells)

namespace Chain

variable {heap heap' : Heap Addr α} {l : Option Addr} {cells cells' : List (Addr × α)}

/-- A list depends only on its own cells. -/
theorem congr (chain : Chain heap l cells) (same : ∀ c ∈ cells, heap' c.1 = heap c.1) :
    Chain heap' l cells := by
  -- By induction on the list, one cell after the other.
  induction chain with
  | null => exact .null
  | @cell a content _ cells here _ ih =>
    refine .cell ((same (a, content) (by simp)).trans here) (ih fun c member => same c ?_)
    exact List.mem_cons_of_mem _ member

/-- A pointer leads through one sequence of cells only. -/
theorem unique (chain : Chain heap l cells) (other : Chain heap l cells') : cells = cells' := by
  -- By induction on the first sequence.
  induction chain generalizing cells' with
  | null =>
    cases other
    rfl
  | cell here _ ih =>
    cases other with
    | cell here' behind' =>
      -- The heap has one cell at the address, so both go on from it in the same way.
      rw [here, Option.some.injEq, Cell.mk.injEq] at here'
      obtain ⟨rfl, rfl⟩ := here'
      rw [ih behind']

/-- A pointer to any cell of a list leads through the cells from there on. -/
theorem suffix (chain : Chain heap l cells) {c : Addr × α} (member : c ∈ cells) :
    ∃ rest, rest <:+ cells ∧ Chain heap (some c.1) rest := by
  -- By induction on the list, up to the cell.
  induction chain with
  | null => cases member
  | @cell a content _ cells here behind ih =>
    rcases List.mem_cons.mp member with rfl | member
    · exact ⟨_, List.suffix_rfl, .cell here behind⟩
    · obtain ⟨rest, part, found⟩ := ih member
      exact ⟨rest, part.trans (List.suffix_cons _ _), found⟩

/-- The first cell of a list does not come again, or the list would have no end. -/
theorem head_ne {a : Addr} {content : α} (chain : Chain heap (some a) ((a, content) :: cells))
    {c : Addr × α} (member : c ∈ cells) : c.1 ≠ a := by
  intro again
  cases chain with
  | cell here behind =>
    -- The cells from the second visit on are all the cells, though there are fewer of them.
    obtain ⟨rest, part, found⟩ := behind.suffix member
    rw [again] at found
    have whole := found.unique (.cell here behind)
    have shorter := part.length_le
    rw [whole, List.length_cons] at shorter
    omega

end Chain

end LinkedList
