import Mathlib.Data.List.Nodup
import MiniRiscV.Lib.LinkedList

/-! Cells on the way from a pointer to another one, and rings of cells, which lead back. -/

namespace LinkedList

variable {Addr α : Type*}

/-- The pointer leads through these cells, given by address and content, to another pointer. -/
inductive Path (heap : Heap Addr α) : Option Addr → List (Addr × α) → Option Addr → Prop where
  | here {l : Option Addr} : Path heap l [] l
  | cell {a : Addr} {content : α} {next stop : Option Addr} {cells : List (Addr × α)}
    (here : heap a = some ⟨content, next⟩) (behind : Path heap next cells stop) :
    Path heap (some a) ((a, content) :: cells) stop

/-- A list is a path to the null pointer. -/
theorem chain_iff_path {heap : Heap Addr α} {l : Option Addr} {cells : List (Addr × α)} :
    Chain heap l cells ↔ Path heap l cells none := by
  -- Both are built in the same way, cell by cell.
  constructor
  · intro chain
    induction chain with
    | null => exact .here
    | cell here _ ih => exact .cell here ih
  · generalize null : (none : Option Addr) = stop
    intro path
    induction path with
    | here =>
      subst null
      exact .null
    | cell here _ ih => exact .cell here (ih null)

/-- No cell of a list comes twice. -/
theorem Chain.nodup {heap : Heap Addr α} {l : Option Addr} {cells : List (Addr × α)}
    (chain : Chain heap l cells) : (cells.map Prod.fst).Nodup := by
  -- By induction on the list, whose first cell does not come again.
  induction chain with
  | null => exact List.nodup_nil
  | @cell a content _ cells here behind ih =>
    rw [List.map_cons, List.nodup_cons]
    refine ⟨fun again => ?_, ih⟩
    obtain ⟨c, member, same⟩ := List.mem_map.mp again
    exact (Chain.cell here behind).head_ne member same

namespace Path

variable {heap heap' : Heap Addr α} {l m stop : Option Addr} {cells cells' : List (Addr × α)}

/-- A path depends only on its own cells. -/
theorem congr (path : Path heap l cells stop) (same : ∀ c ∈ cells, heap' c.1 = heap c.1) :
    Path heap' l cells stop := by
  -- By induction on the path, one cell after the other.
  induction path with
  | here => exact .here
  | @cell a content _ _ cells here _ ih =>
    refine .cell ((same (a, content) (by simp)).trans here) (ih fun c member => same c ?_)
    exact List.mem_cons_of_mem _ member

/-- Paths one behind the other. -/
theorem append (path : Path heap l cells m) (path' : Path heap m cells' stop) :
    Path heap l (cells ++ cells') stop := by
  -- By induction on the first path.
  induction path with
  | here => exact path'
  | cell here _ ih => exact .cell here (ih path')

/-- A path through some cells and others comes by the first of the others. -/
theorem split (path : Path heap l (cells ++ cells') stop) :
    ∃ m, Path heap l cells m ∧ Path heap m cells' stop := by
  -- By induction on the first cells.
  induction cells generalizing l with
  | nil => exact ⟨l, .here, path⟩
  | cons c cells ih =>
    cases path with
    | cell here behind =>
      obtain ⟨m, first, second⟩ := ih behind
      exact ⟨m, .cell here first, second⟩

/-- A path is not affected by a cell that it does not come by. -/
theorem update [DecidableEq Addr] (path : Path heap l cells stop) {a : Addr}
    (apart : a ∉ cells.map Prod.fst) (cell : Option (Cell Addr α)) :
    Path (Function.update heap a cell) l cells stop := by
  refine path.congr fun c member => Function.update_of_ne ?_ _ _
  rintro rfl
  exact apart (List.mem_map_of_mem member)

/-- The last cell of a path can be made to point elsewhere. -/
theorem relink [DecidableEq Addr] {a : Addr} {content : α}
    (path : Path heap l (cells ++ [(a, content)]) stop) (apart : a ∉ cells.map Prod.fst)
    (next : Option Addr) :
    Path (Function.update heap a (some ⟨content, next⟩)) l (cells ++ [(a, content)]) next := by
  obtain ⟨m, first, last⟩ := path.split
  -- The cells in front are kept, and the last one is reached as before.
  refine (first.update apart _).append ?_
  cases last with
  | cell here behind => exact .cell (Function.update_self _ _ _) .here

/-- The cells of a path are allocated. -/
theorem allocated (path : Path heap l cells stop) :
    ∀ c ∈ cells, ∃ next, heap c.1 = some ⟨c.2, next⟩ := by
  -- By induction on the path.
  induction path with
  | here => simp
  | cell here _ ih => exact List.forall_mem_cons.mpr ⟨⟨_, here⟩, ih⟩

/-- A path through a cell begins with it. -/
theorem head_eq {c : Addr × α} (path : Path heap l (c :: cells) stop) : l = some c.1 := by
  cases path
  rfl

/-- A path with a last cell begins with some cell. -/
theorem exists_head {c : Addr × α} (path : Path heap l (cells ++ [c]) stop) : ∃ a, l = some a := by
  cases cells with
  | nil => exact ⟨_, path.head_eq⟩
  | cons _ _ => exact ⟨_, path.head_eq⟩

end Path

/-- The heap has a list of these cells, and besides it what it has without the list. -/
structure Owned (frame heap : Heap Addr α) (l : Option Addr) (cells : List (Addr × α)) : Prop where
  chain : Chain heap l cells
  free : ∀ c ∈ cells, frame c.1 = none
  others : ∀ a, a ∉ cells.map Prod.fst → heap a = frame a

namespace Owned

variable {frame heap : Heap Addr α} {l next : Option Addr} {cells : List (Addr × α)}
  {a new : Addr} {content object : α}

/-- An empty list takes no place. -/
theorem nil (frame : Heap Addr α) : Owned frame frame none [] where
  chain := .null
  free := by simp
  others _ _ := rfl

/-- Without its cells, the heap is what it is without the list. -/
theorem heap_eq (owned : Owned frame heap l []) : heap = frame :=
  funext fun a => owned.others a (by simp)

/-- A cell that the heap has without the list is as it is without it. -/
theorem kept (owned : Owned frame heap l cells) {cell : Cell Addr α} (here : frame a = some cell) :
    heap a = some cell := by
  refine (owned.others a fun again => ?_).trans here
  obtain ⟨c, member, rfl⟩ := List.mem_map.mp again
  rw [owned.free c member] at here
  cases here

/-- A cell that is not allocated is none of the list, and free without it. -/
theorem fresh (owned : Owned frame heap l cells) (isFree : heap new = none) :
    new ∉ cells.map Prod.fst ∧ frame new = none := by
  have apart : new ∉ cells.map Prod.fst := by
    intro again
    obtain ⟨c, member, same⟩ := List.mem_map.mp again
    obtain ⟨rest, -, found⟩ := owned.chain.suffix member
    -- The cells of a list are allocated.
    rw [same] at found
    cases found with
    | cell here _ =>
      rw [isFree] at here
      cases here
  exact ⟨apart, (owned.others new apart).symm.trans isFree⟩

variable [DecidableEq Addr]

/-- A new cell in front. -/
theorem cons (owned : Owned frame heap l cells) (isFree : heap new = none) (object : α) :
    Owned frame (Function.update heap new (some ⟨object, l⟩)) (some new)
      ((new, object) :: cells) := by
  obtain ⟨apart, free⟩ := owned.fresh isFree
  refine ⟨.cell (Function.update_self _ _ _) ?_, List.forall_mem_cons.mpr ⟨free, owned.free⟩, ?_⟩
  · rw [chain_iff_path]
    exact (chain_iff_path.mp owned.chain).update apart _
  · intro b others
    rw [List.map_cons, List.mem_cons, not_or] at others
    exact (Function.update_of_ne others.1 _ _).trans (owned.others b others.2)

/-- A new cell behind the last one. -/
theorem concat (owned : Owned frame heap l (cells ++ [(a, content)])) (isFree : heap new = none)
    (object : α) :
    Owned frame
      (Function.update (Function.update heap a (some ⟨content, some new⟩)) new
        (some ⟨object, none⟩)) l
      (cells ++ [(a, content)] ++ [(new, object)]) := by
  obtain ⟨apart, free⟩ := owned.fresh isFree
  have once := owned.chain.nodup
  rw [List.map_append, List.map_singleton, List.nodup_append] at once
  have first : a ∉ cells.map Prod.fst := fun again => once.2.2 a again a (by simp) rfl
  refine ⟨?_, ?_, ?_⟩
  · rw [chain_iff_path]
    -- The old cells lead to the new one, which is the last.
    have path := (chain_iff_path.mp owned.chain).relink first (some new)
    exact (path.update apart _).append (.cell (Function.update_self _ _ _) .here)
  · rw [List.forall_mem_append]
    exact ⟨owned.free, by simpa using free⟩
  · intro b others
    rw [List.map_append, List.mem_append, not_or, List.map_singleton, List.mem_singleton] at others
    have other : b ≠ a := by
      rintro rfl
      exact others.1 (by simp)
    rw [Function.update_of_ne others.2, Function.update_of_ne other, owned.others b others.1]

/-- The first cell is taken away. -/
theorem tail (owned : Owned frame heap (some a) ((a, content) :: cells))
    (here : heap a = some ⟨content, next⟩) :
    Owned frame (Function.update heap a none) next cells := by
  have once := owned.chain.nodup
  rw [List.map_cons, List.nodup_cons] at once
  have free := List.forall_mem_cons.mp owned.free
  refine ⟨?_, free.2, ?_⟩
  · cases owned.chain with
    | cell here' behind =>
      rw [here, Option.some.injEq, Cell.mk.injEq] at here'
      rw [chain_iff_path, here'.2]
      exact (chain_iff_path.mp behind).update once.1 none
  · intro b others
    by_cases same : b = a
    · subst same
      rw [Function.update_self, free.1]
    · rw [Function.update_of_ne same]
      exact owned.others b (by simp [same, others])

end Owned

/-- The heap has a ring of these cells, led to by its last one, and what it has without it. -/
structure Ring (frame heap : Heap Addr α) (q : Option Addr) (cells : List (Addr × α)) : Prop where
  last : q = cells.getLast?.map Prod.fst
  path : ∃ first, Path heap first cells first
  once : (cells.map Prod.fst).Nodup
  free : ∀ c ∈ cells, frame c.1 = none
  others : ∀ a, a ∉ cells.map Prod.fst → heap a = frame a

namespace Ring

variable {frame heap : Heap Addr α} {q next : Option Addr} {cells : List (Addr × α)}
  {a new : Addr} {content object : α}

/-- An empty ring takes no place. -/
theorem nil (frame : Heap Addr α) : Ring frame frame none [] where
  last := rfl
  path := ⟨none, .here⟩
  once := List.nodup_nil
  free := by simp
  others _ _ := rfl

/-- A cell that is not allocated is none of the ring, and free without it. -/
theorem fresh (ring : Ring frame heap q cells) (isFree : heap new = none) :
    new ∉ cells.map Prod.fst ∧ frame new = none := by
  have apart : new ∉ cells.map Prod.fst := by
    intro again
    obtain ⟨c, member, same⟩ := List.mem_map.mp again
    obtain ⟨first, path⟩ := ring.path
    obtain ⟨next, here⟩ := path.allocated c member
    rw [same, isFree] at here
    cases here
  exact ⟨apart, (ring.others new apart).symm.trans isFree⟩

/-- The last cell of a ring points to the first one. -/
theorem exists_first (ring : Ring frame heap q (cells ++ [(a, content)])) :
    ∃ first, heap a = some ⟨content, some first⟩ ∧
      Path heap (some first) (cells ++ [(a, content)]) (some first) := by
  obtain ⟨_, path⟩ := ring.path
  obtain ⟨first, rfl⟩ := path.exists_head
  obtain ⟨_, -, last⟩ := path.split
  cases last with
  | cell here behind =>
    cases behind
    exact ⟨first, here, path⟩

variable [DecidableEq Addr]

/-- A ring of one cell, which comes behind itself. -/
theorem single (frame : Heap Addr α) (isFree : frame new = none) (object : α) :
    Ring frame (Function.update frame new (some ⟨object, some new⟩)) (some new)
      [(new, object)] where
  last := rfl
  path := ⟨some new, .cell (Function.update_self _ _ _) .here⟩
  once := List.nodup_singleton _
  free := by simpa using isFree
  others b other := Function.update_of_ne (by simpa using other) _ _

/-- A new cell between the last one and the first. -/
theorem concat (ring : Ring frame heap q (cells ++ [(a, content)]))
    (here : heap a = some ⟨content, next⟩) (isFree : heap new = none) (object : α) :
    Ring frame
      (Function.update (Function.update heap new (some ⟨object, next⟩)) a
        (some ⟨content, some new⟩)) (some new)
      (cells ++ [(a, content)] ++ [(new, object)]) := by
  obtain ⟨apart, free⟩ := ring.fresh isFree
  have once := ring.once
  have first : a ∉ cells.map Prod.fst := by
    rw [List.map_append, List.map_singleton, List.nodup_append] at once
    exact fun again => once.2.2 a again a (by simp) rfl
  have other : new ≠ a := by
    rintro rfl
    exact apart (by simp)
  rw [Function.update_comm other]
  refine ⟨by simp, ⟨next, ?_⟩, ?_, ?_, ?_⟩
  · -- The new cell leads to the first one, as the last one did before.
    obtain ⟨start, here', path⟩ := ring.exists_first
    rw [here, Option.some.injEq, Cell.mk.injEq] at here'
    rw [here'.2]
    have path := (path.relink first (some new)).update apart (some ⟨object, some start⟩)
    exact path.append (.cell (Function.update_self _ _ _) .here)
  · rw [List.map_append, List.map_singleton, ← List.concat_eq_append, List.nodup_concat]
    exact ⟨apart, once⟩
  · rw [List.forall_mem_append]
    exact ⟨ring.free, by simpa using free⟩
  · intro b others
    rw [List.map_append, List.mem_append, not_or, List.map_singleton, List.mem_singleton] at others
    have differs : b ≠ a := by
      rintro rfl
      exact others.1 (by simp)
    rw [Function.update_of_ne others.2, Function.update_of_ne differs, ring.others b others.1]

end Ring

end LinkedList
