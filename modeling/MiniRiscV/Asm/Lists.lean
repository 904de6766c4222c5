import MiniRiscV.Lib.Path

/-! `list.c` on the cells of a heap: what its functions do to a list, and to nothing else. -/

namespace MiniRiscV

open LinkedList

variable {Addr α σ : Type} [DecidableEq Addr]

/-- `list_new`. -/
def listNew : Option Addr := none

/-- `list_empty`. -/
def listEmpty (l : Option Addr) : Bool := l.isNone

/-- `list_first`, none when its assertion fails. -/
def listFirst (heap : Heap Addr α) (l : Option Addr) : Option α := do
  return (← heap (← l)).content

/-- `list_next`, none when its assertion fails. -/
def listNext (heap : Heap Addr α) (l : Option Addr) : Option (Option Addr) := do
  return (← heap (← l)).next

/-- `list_add_first`, with the cell that `malloc` gives. -/
def listAddFirst (heap : Heap Addr α) (l : Option Addr) (object : α) (new : Addr) :
    Heap Addr α × Option Addr :=
  (Function.update heap new (some ⟨object, l⟩), some new)

/-- The loop of `list_add_last`, which goes to the last cell. -/
def lastCell (heap : Heap Addr α) : ℕ → Addr → Option Addr
  | 0, _ => none
  | fuel + 1, a => do
    match (← heap a).next with
    | none => return a
    | some next => lastCell heap fuel next

/-- `list_add_last`, with the cell that `malloc` gives. -/
def listAddLast (fuel : ℕ) (heap : Heap Addr α) (l : Option Addr) (object : α) (new : Addr) :
    Option (Heap Addr α × Option Addr) :=
  match l with
  | none => some (listAddFirst heap l object new)
  | some a => do
    let last ← lastCell heap fuel a
    let cell ← heap last
    let heap := Function.update heap last (some { cell with next := some new })
    return (Function.update heap new (some ⟨object, listNew⟩), l)

/-- `list_del_first`, with what `delete` does to the rest of the memory, if it is given. -/
def listDelFirst (delete : Option (α → σ → σ)) (heap : Heap Addr α) (l : Option Addr) (rest : σ) :
    Option (Heap Addr α × Option Addr × σ) := do
  let a ← l
  let cell ← heap a
  let rest := delete.elim rest fun delete => delete cell.content rest
  return (Function.update heap a none, cell.next, rest)

/-- The loop of `list_length`. -/
def listLengthFrom (heap : Heap Addr α) : ℕ → Option Addr → ℕ → Option ℕ
  | 0, _, _ => none
  | fuel + 1, l, len =>
    if listEmpty l then some len
    else do listLengthFrom heap fuel (← listNext heap l) (len + 1)

/-- `list_length`. -/
def listLength (fuel : ℕ) (heap : Heap Addr α) (l : Option Addr) : Option ℕ :=
  listLengthFrom heap fuel l 0

/-- `list_delete`. -/
def listDelete (delete : Option (α → σ → σ)) :
    ℕ → Heap Addr α → Option Addr → σ → Option (Heap Addr α × σ)
  | 0, _, _, _ => none
  | fuel + 1, heap, l, rest =>
    if listEmpty l then some (heap, rest)
    else do
      let (heap, l, rest) ← listDelFirst delete heap l rest
      listDelete delete fuel heap l rest

/-- A change to a list: an object is added at either end, in a cell of `malloc`, or one is taken. -/
inductive ListOp (Addr α : Type) where
  | addFirst (object : α) (new : Addr)
  | addLast (object : α) (new : Addr)
  | delFirst

/-- A heap, the pointer to a list in it, and the rest of the memory. -/
structure ListState (Addr α σ : Type) where
  heap : Heap Addr α
  list : Option Addr
  rest : σ

/-- The call of a function of `list.c` on the list, none when it crashes or does not end. -/
def ListOp.call (fuel : ℕ) (delete : Option (α → σ → σ)) (s : ListState Addr α σ) :
    ListOp Addr α → Option (ListState Addr α σ)
  | .addFirst object new =>
    let (heap, list) := listAddFirst s.heap s.list object new
    some { s with heap, list }
  | .addLast object new => do
    let (heap, list) ← listAddLast fuel s.heap s.list object new
    return { s with heap, list }
  | .delFirst => do
    let (heap, list, rest) ← listDelFirst delete s.heap s.list s.rest
    return { heap, list, rest }

/-- The same change to a list of objects, none when there is no first one to take. -/
def ListOp.apply (delete : Option (α → σ → σ)) : List α × σ → ListOp Addr α → Option (List α × σ)
  | (objects, rest), .addFirst object _ => some (object :: objects, rest)
  | (objects, rest), .addLast object _ => some (objects ++ [object], rest)
  | ([], _), .delFirst => none
  | (object :: objects, rest), .delFirst =>
    some (objects, delete.elim rest fun delete => delete object rest)

/-- Each `malloc` gives a cell that is free when it is called. -/
def Allocates (fuel : ℕ) (delete : Option (α → σ → σ)) :
    ListState Addr α σ → List (ListOp Addr α) → Prop
  | _, [] => True
  | s, op :: ops =>
    (match op with
      | .addFirst _ new | .addLast _ new => s.heap new = none
      | .delFirst => True) ∧
    ∀ s' ∈ op.call fuel delete s, Allocates fuel delete s' ops

section Calls

variable {fuel : ℕ} {delete : Option (α → σ → σ)} {frame heap : Heap Addr α} {l : Option Addr}
  {cells : List (Addr × α)} {a new last : Addr} {object content : α} {rest : σ}

omit [DecidableEq Addr] in
/-- The loop of `list_add_last` comes to the last cell. -/
theorem lastCell_eq (chain : Chain heap (some a) (cells ++ [(last, content)]))
    (enough : cells.length < fuel) :
    lastCell heap fuel a = some last ∧ heap last = some ⟨content, none⟩ := by
  -- By induction on the cells in front of the last one.
  induction cells generalizing a fuel with
  | nil =>
    cases chain with
    | cell here behind =>
      -- The one cell is followed by nothing, and is returned.
      cases behind
      obtain ⟨fuel, rfl⟩ := Nat.exists_eq_add_of_lt enough
      simp [lastCell, here]
  | cons c cells ih =>
    obtain ⟨fuel, rfl⟩ : ∃ k, fuel = k + 1 := ⟨fuel - 1, by omega⟩
    cases chain with
    | @cell _ _ next _ here behind =>
      -- Some cell follows, from which the loop goes on.
      cases next with
      | none => cases cells <;> cases behind
      | some next =>
        rw [lastCell, here]
        exact ih behind (by simpa using enough)

/-- `list_add_last` puts a cell behind the last one. -/
theorem listAddLast_owned (owned : Owned frame heap l cells) (isFree : heap new = none)
    (object : α) (enough : cells.length ≤ fuel) :
    ∃ heap' l', listAddLast fuel heap l object new = some (heap', l') ∧
      Owned frame heap' l' (cells ++ [(new, object)]) := by
  rcases List.eq_nil_or_concat' cells with rfl | ⟨front, ⟨last, content⟩, rfl⟩
  · -- An empty list gets its first cell.
    cases owned.chain
    exact ⟨_, _, rfl, owned.cons isFree object⟩
  · obtain ⟨a, rfl⟩ := (chain_iff_path.mp owned.chain).exists_head
    obtain ⟨found, here⟩ := lastCell_eq owned.chain (by simpa [Nat.succ_le_iff] using enough)
    -- The last cell is found, and gets the new one behind it.
    refine ⟨_, _, ?_, owned.concat isFree object⟩
    simp [listAddLast, found, here, listNew]

/-- `list_del_first` takes the first cell away, if there is one. -/
theorem listDelFirst_owned (delete : Option (α → σ → σ)) (owned : Owned frame heap l cells)
    (rest : σ) :
    match cells with
    | [] => listDelFirst delete heap l rest = none
    | (_, content) :: behind => ∃ heap' l', listDelFirst delete heap l rest =
        some (heap', l', delete.elim rest fun delete => delete content rest) ∧
          Owned frame heap' l' behind := by
  -- The pointer is null exactly when there is no cell.
  cases cells with
  | nil =>
    cases owned.chain
    rfl
  | cons c behind =>
    cases owned.chain with
    | @cell a content next _ here _ =>
      exact ⟨_, next, by simp [listDelFirst, here], owned.tail here⟩

/-- A change to the list in the heap is the one to the list of its objects. -/
theorem call_owned {s : ListState Addr α σ} (owned : Owned frame s.heap s.list cells)
    {op : ListOp Addr α} {ops : List (ListOp Addr α)}
    (allocates : Allocates fuel delete s (op :: ops)) (enough : cells.length ≤ fuel) :
    match op.apply delete (cells.map Prod.snd, s.rest) with
    | none => op.call fuel delete s = none
    | some (objects, rest) => ∃ s', op.call fuel delete s = some s' ∧ s'.rest = rest ∧
        Allocates fuel delete s' ops ∧ ∃ cells', Owned frame s'.heap s'.list cells' ∧
          cells'.map Prod.snd = objects ∧ cells'.length ≤ cells.length + 1 := by
  obtain ⟨isFree, behind⟩ := allocates
  -- One case for each function, by what it does to the cells.
  cases op with
  | addFirst object new =>
    exact ⟨_, rfl, rfl, behind _ rfl, _, owned.cons isFree object, rfl, by simp⟩
  | addLast object new =>
    obtain ⟨heap', l', call, owned'⟩ := listAddLast_owned owned isFree object enough
    have whole : (ListOp.addLast object new).call fuel delete s =
        some { s with heap := heap', list := l' } := by
      simp [ListOp.call, call]
    refine ⟨_, whole, rfl, behind _ whole, _, owned', by simp, by simp⟩
  | delFirst =>
    -- It crashes when there is no cell, and else takes the first one.
    have taken := listDelFirst_owned delete owned s.rest
    cases cells with
    | nil => simp [ListOp.call, ListOp.apply, show listDelFirst delete _ _ _ = none from taken]
    | cons c cells =>
      obtain ⟨heap', l', call, owned'⟩ := taken
      have whole : (ListOp.delFirst : ListOp Addr α).call fuel delete s =
          some ⟨heap', l', delete.elim s.rest fun delete => delete c.2 s.rest⟩ := by
        simp [ListOp.call, call]
      refine ⟨_, whole, rfl, behind _ whole, _, owned', rfl, ?_⟩
      rw [List.length_cons]
      omega

omit [DecidableEq Addr] in
/-- `list_first` gives the first object, if there is one. -/
theorem listFirst_eq (chain : Chain heap l cells) :
    listFirst heap l = (cells.map Prod.snd).head? := by
  -- The pointer leads to the first cell, if to any.
  cases chain with
  | null => rfl
  | cell here _ => simp [listFirst, here]

omit [DecidableEq Addr] in
/-- The loop of `list_length` counts the cells. -/
theorem listLengthFrom_eq (chain : Chain heap l cells) (enough : cells.length < fuel) (len : ℕ) :
    listLengthFrom heap fuel l len = some (len + cells.length) := by
  -- By induction on the list, one turn for each cell.
  induction chain generalizing fuel len with
  | null =>
    obtain ⟨fuel, rfl⟩ : ∃ k, fuel = k + 1 := ⟨fuel - 1, by omega⟩
    rfl
  | @cell a content next cells here _ ih =>
    obtain ⟨fuel, rfl⟩ : ∃ k, fuel = k + 1 := ⟨fuel - 1, by omega⟩
    have behind := @ih fuel (by simpa using enough) (len + 1)
    -- One cell is counted, and those behind it by induction.
    rw [listLengthFrom]
    simp only [listEmpty, listNext, here, Option.isNone_some, Bool.false_eq_true, if_false,
      Option.bind_eq_bind, Option.bind_some, Option.pure_def, behind, List.length_cons]
    congr 1
    omega

/-- `list_delete` frees the list, each object being deleted once and in order. -/
theorem listDelete_eq (owned : Owned frame heap l cells) (enough : cells.length < fuel)
    (rest : σ) :
    listDelete delete fuel heap l rest = some (frame,
      (cells.map Prod.snd).foldl
        (fun rest object => delete.elim rest fun delete => delete object rest) rest) := by
  -- By induction on the cells, of which one is freed in each turn.
  induction cells generalizing fuel heap l rest with
  | nil =>
    obtain ⟨fuel, rfl⟩ : ∃ k, fuel = k + 1 := ⟨fuel - 1, by omega⟩
    have empty := owned.chain
    cases empty
    rw [owned.heap_eq]
    rfl
  | cons c cells ih =>
    obtain ⟨fuel, rfl⟩ : ∃ k, fuel = k + 1 := ⟨fuel - 1, by omega⟩
    obtain ⟨heap', l', taken, owned'⟩ := listDelFirst_owned delete owned rest
    -- The pointer is not null, so the first cell is taken.
    have some_cell : listEmpty l = false := by
      rw [(chain_iff_path.mp owned.chain).head_eq]
      rfl
    -- The other cells are deleted with what the first deletion left of the memory.
    have behind := @ih fuel _ _ owned' (by simpa using enough)
      (delete.elim rest fun delete => delete c.2 rest)
    simp [listDelete, some_cell, taken, behind]

/--
Whatever is done to a list, in any order, it has the objects that it should have.

A sequence of calls crashes only when it takes an object from an empty list. No cell outside of the
list is changed, and none that is taken out of it stays allocated: `list_length` counts the objects,
and `list_delete` leaves the heap as it is without the list.
-/
theorem list_run {s : ListState Addr α σ} (owned : Owned frame s.heap s.list cells)
    {ops : List (ListOp Addr α)} (allocates : Allocates fuel delete s ops)
    (enough : cells.length + ops.length < fuel) :
    match ops.foldlM (ListOp.apply delete) (cells.map Prod.snd, s.rest) with
    | none => ops.foldlM (ListOp.call fuel delete) s = none
    | some (objects, rest) => ∃ s', ops.foldlM (ListOp.call fuel delete) s = some s' ∧
        s'.rest = rest ∧ (∃ cells', Owned frame s'.heap s'.list cells' ∧
          cells'.map Prod.snd = objects) ∧
        listFirst s'.heap s'.list = objects.head? ∧
        listLength fuel s'.heap s'.list = some objects.length ∧
        listDelete delete fuel s'.heap s'.list rest = some (frame, objects.foldl
          (fun rest object => delete.elim rest fun delete => delete object rest) rest) := by
  -- By induction on the calls, with the cells of the list before each of them.
  induction ops generalizing s cells with
  | nil =>
    -- No call is left, and the cells are counted and deleted.
    have counted := listLengthFrom_eq owned.chain (by simpa using enough) 0
    refine ⟨s, rfl, rfl, ⟨cells, owned, rfl⟩, listFirst_eq owned.chain, ?_,
      listDelete_eq owned (by simpa using enough) _⟩
    rw [listLength, counted, List.length_map, Nat.zero_add]
  | cons op ops ih =>
    -- The first call is the one on the sequence, and crashes when that fails.
    have first := call_owned owned allocates (by omega)
    rw [List.foldlM_cons, List.foldlM_cons]
    cases applied : op.apply delete (cells.map Prod.snd, s.rest) with
    | none =>
      rw [applied] at first
      simp [show op.call fuel delete s = none from first]
    | some result =>
      obtain ⟨objects, rest⟩ := result
      rw [applied] at first
      obtain ⟨s', call, rfl, behind, cells', owned', rfl, longer⟩ := first
      rw [call]
      -- A call adds at most one cell, so there is fuel for the others.
      rw [List.length_cons] at enough
      exact ih owned' behind (by omega)

/-- Of two objects that are added at the ends, the first one is taken and deleted. -/
theorem list_run_ends : ∃ s' : ListState ℕ Char (List Char),
    [ListOp.addLast 'a' 1, .addFirst 'b' 2, .delFirst].foldlM
        (ListOp.call 5 (some fun object rest => rest ++ [object])) ⟨fun _ => none, none, []⟩ =
      some s' ∧ s'.rest = ['b'] ∧ listFirst s'.heap s'.list = some 'a' := by
  -- The cells 1 and 2 are free when they are given.
  have allocates : Allocates 5 (some fun object rest => rest ++ [object])
      (⟨fun _ => none, none, []⟩ : ListState ℕ Char (List Char))
      [.addLast 'a' 1, .addFirst 'b' 2, .delFirst] := by
    refine ⟨rfl, ?_⟩
    rintro _ ⟨⟩
    refine ⟨rfl, ?_⟩
    rintro _ ⟨⟩
    exact ⟨trivial, fun _ _ => trivial⟩
  obtain ⟨s', call, rest, -, first, -⟩ := list_run (.nil _) allocates (by decide)
  exact ⟨s', call, rest, first⟩

end Calls

end MiniRiscV
