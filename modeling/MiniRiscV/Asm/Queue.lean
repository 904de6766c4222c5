import MiniRiscV.Asm.Lists

/-! `queue.c`: what is put into a queue comes out of `queue_to_list` in the same order. -/

namespace MiniRiscV

open LinkedList

variable {Addr α σ : Type} [DecidableEq Addr]

/-- `queue_new`. -/
def queueNew : Option Addr := none

/-- `enqueue`, with the cell that `calloc` gives. -/
def enqueue (heap : Heap Addr α) (q : Option Addr) (object : α) (new : Addr) :
    Option (Heap Addr α × Option Addr) :=
  match q with
  | none => some (Function.update heap new (some ⟨object, some new⟩), some new)
  | some last => do
    let cell ← heap last
    let heap := Function.update heap new (some ⟨object, cell.next⟩)
    return (Function.update heap last (some { cell with next := some new }), some new)

/-- The loop of `queue_to_list`, with the cells that `malloc` gives, and its last addition. -/
def queueToListFrom (fuel : ℕ) (q : Addr) :
    List Addr → Heap Addr α → Addr → Option Addr → Option (Heap Addr α × Option Addr)
  | [], _, _, _ => none
  | new :: news, heap, p, lnew =>
    if p = q then do listAddLast fuel heap lnew (← heap p).content new
    else do
      let (heap, lnew) ← listAddLast fuel heap lnew (← heap p).content new
      queueToListFrom fuel q news heap (← (← heap p).next) lnew

/-- `queue_to_list`, with the cells that `malloc` gives. -/
def queueToList (fuel : ℕ) (heap : Heap Addr α) (q : Option Addr) (news : List Addr) :
    Option (Heap Addr α × Option Addr) :=
  match q with
  | none => some (heap, listNew)
  | some q => do queueToListFrom fuel q news heap (← (← heap q).next) listNew

/-- `enqueue` for each object, with the cell for it. -/
def enqueueAll (heap : Heap Addr α) (q : Option Addr) :
    List (Addr × α) → Option (Heap Addr α × Option Addr)
  | [] => some (heap, q)
  | (new, object) :: entries => do
    let (heap, q) ← enqueue heap q object new
    enqueueAll heap q entries

section Calls

variable {fuel : ℕ} {frame heap heap' : Heap Addr α} {q lnew : Option Addr}
  {cells done entries : List (Addr × α)} {news : List Addr} {p new last : Addr}
  {object content : α}

/-- `enqueue` puts a cell behind the last one, and takes no other cell. -/
theorem enqueue_ring (ring : Ring frame heap q cells) (isFree : heap new = none) (object : α) :
    ∃ heap', enqueue heap q object new = some (heap', some new) ∧
      Ring frame heap' (some new) (cells ++ [(new, object)]) ∧
      ∀ a, a ≠ new → heap a = none → heap' a = none := by
  rcases List.eq_nil_or_concat' cells with rfl | ⟨front, ⟨last, content⟩, rfl⟩
  · -- The first cell comes behind itself.
    obtain rfl : heap = frame := funext fun a => ring.others a (by simp)
    obtain rfl : q = none := ring.last
    refine ⟨_, rfl, .single heap isFree object, fun a other still => ?_⟩
    rw [Function.update_of_ne other, still]
  · -- The new cell comes between the last one and the first.
    obtain ⟨first, path⟩ := ring.path
    obtain ⟨next, here⟩ := path.allocated (last, content) (by simp)
    obtain rfl : q = some last := by simpa using ring.last
    refine ⟨_, by simp only [enqueue, here]; rfl, ring.concat here isFree object, ?_⟩
    intro a other still
    -- The last cell is allocated, so it is none of the free ones.
    have differs : a ≠ last := by
      rintro rfl
      rw [here] at still
      cases still
    rw [Function.update_of_ne differs, Function.update_of_ne other, still]

/-- `enqueue` for each object gives the queue of them all. -/
theorem enqueueAll_ring (ring : Ring frame heap q cells)
    (distinct : (entries.map Prod.fst ++ news).Nodup)
    (free : ∀ a ∈ entries.map Prod.fst ++ news, heap a = none) :
    ∃ heap' q', enqueueAll heap q entries = some (heap', q') ∧
      Ring frame heap' q' (cells ++ entries) ∧ ∀ a ∈ news, heap' a = none := by
  -- By induction on the objects, the cells for the others being free all the time.
  induction entries generalizing heap q cells with
  | nil => exact ⟨heap, q, rfl, by simpa using ring, fun a member => free a (by simpa using member)⟩
  | cons entry entries ih =>
    obtain ⟨new, object⟩ := entry
    rw [List.map_cons, List.cons_append] at distinct free
    -- The first cell is none of the others, which stay free.
    obtain ⟨apart, distinct⟩ := List.nodup_cons.mp distinct
    obtain ⟨isFree, free⟩ := List.forall_mem_cons.mp free
    obtain ⟨heap₁, call, ring₁, still⟩ := enqueue_ring ring isFree object
    obtain ⟨heap', q', calls, ring', free'⟩ := ih ring₁ distinct fun a member =>
      still a (ne_of_mem_of_not_mem member apart) (free a member)
    refine ⟨heap', q', ?_, by simpa using ring', free'⟩
    rw [enqueueAll, call]
    exact calls

/-- One addition of `queue_to_list`, for a cell of the queue. -/
theorem listAddLast_kept {cell : Cell Addr α} (owned : Owned heap heap' lnew done)
    (here : heap p = some cell) (isFree : heap' new = none) (enough : done.length ≤ fuel) :
    ∃ heap'' l, listAddLast fuel heap' lnew cell.content new = some (heap'', l) ∧
      Owned heap heap'' l (done ++ [(new, cell.content)]) ∧ heap'' p = some cell ∧
      ∀ a, a ≠ new → heap' a = none → heap'' a = none := by
  -- The list has cells of its own, so the queue keeps its cell.
  obtain ⟨heap'', l, added, owned'⟩ := listAddLast_owned owned isFree cell.content enough
  refine ⟨heap'', l, added, owned', owned'.kept here, fun a other still => ?_⟩
  -- A free cell belongs neither to the list nor to the queue.
  obtain ⟨apart, free⟩ := owned.fresh still
  rw [owned'.others a (by simpa [other] using apart), free]

/-- The loop of `queue_to_list` adds the cells of the queue from some cell on to the list. -/
theorem queueToListFrom_owned {first : Option Addr}
    (path : Path heap (some p) (cells ++ [(last, content)]) first)
    (apart : last ∉ cells.map Prod.fst) (owned : Owned heap heap' lnew done)
    (distinct : news.Nodup) (free : ∀ a ∈ news, heap' a = none)
    (enough : news.length = cells.length + 1) (deep : done.length + cells.length ≤ fuel) :
    ∃ heap'' l done', queueToListFrom fuel last news heap' p lnew = some (heap'', l) ∧
      Owned heap heap'' l done' ∧
      done'.map Prod.snd = done.map Prod.snd ++ (cells ++ [(last, content)]).map Prod.snd := by
  -- By induction on the cells in front of the last one.
  induction cells generalizing p heap' lnew done news with
  | nil =>
    obtain ⟨new, news, rfl⟩ := List.exists_cons_of_length_eq_add_one enough
    cases path with
    | cell here _ =>
      -- This is the last cell, behind which the loop ends.
      have small : done.length ≤ fuel := by simpa using deep
      obtain ⟨heap'', l, added, owned', -⟩ :=
        listAddLast_kept owned here (free new (by simp)) small
      refine ⟨heap'', l, _, ?_, owned', by simp⟩
      simp [queueToListFrom, owned.kept here, added]
  | cons c cells ih =>
    rw [List.map_cons, List.mem_cons, not_or] at apart
    rw [List.length_cons] at deep enough
    obtain ⟨new, news, rfl⟩ := List.exists_cons_of_length_eq_add_one enough
    obtain ⟨isFree, free⟩ := List.forall_mem_cons.mp free
    obtain ⟨fresh, distinct⟩ := List.nodup_cons.mp distinct
    cases path with
    | cell here behind =>
      -- The object of the first cell is added to the list.
      have small : done.length ≤ fuel := by omega
      obtain ⟨heap₁, l₁, added, owned₁, here₁, still⟩ := listAddLast_kept owned here isFree small
      obtain ⟨p', rfl⟩ := behind.exists_head
      -- The cell added is none of those that are free for the others.
      have free₁ : ∀ a ∈ news, heap₁ a = none := fun a member =>
        still a (ne_of_mem_of_not_mem member fresh) (free a member)
      obtain ⟨heap'', l, done', calls, owned', contents⟩ := ih behind apart.2 owned₁ distinct free₁
        (by simpa using enough) (by simp; omega)
      refine ⟨heap'', l, done', ?_, owned', by simp [contents]⟩
      -- This cell is not the last one, so the loop goes on to the next.
      rw [queueToListFrom, if_neg (Ne.symm apart.1)]
      simp [owned.kept here, added, here₁, calls]

/-- `queue_to_list` gives a list of the objects of the queue. -/
theorem queueToList_owned (ring : Ring frame heap q cells) (distinct : news.Nodup)
    (free : ∀ a ∈ news, heap a = none) (enough : news.length = cells.length)
    (deep : cells.length ≤ fuel) :
    ∃ heap' l cells', queueToList fuel heap q news = some (heap', l) ∧
      Owned heap heap' l cells' ∧ cells'.map Prod.snd = cells.map Prod.snd := by
  rcases List.eq_nil_or_concat' cells with rfl | ⟨front, ⟨last, content⟩, rfl⟩
  · -- An empty queue gives an empty list.
    obtain rfl : q = none := ring.last
    exact ⟨heap, none, [], rfl, .nil heap, rfl⟩
  · -- The pointer of the queue is to its last cell, behind which the first one comes.
    obtain ⟨p, here, path⟩ := ring.exists_first
    obtain rfl : q = some last := by simpa using ring.last
    -- The loop passes the last cell once.
    have once := ring.once
    rw [List.map_append, List.map_singleton, ← List.concat_eq_append, List.nodup_concat] at once
    rw [List.length_append, List.length_singleton] at enough deep
    have small : ([] : List (Addr × α)).length + front.length ≤ fuel := by
      rw [List.length_nil]
      omega
    obtain ⟨heap', l, cells', calls, owned, contents⟩ :=
      queueToListFrom_owned path once.1 (.nil heap) distinct free enough small
    refine ⟨heap', l, cells', ?_, owned, by simpa using contents⟩
    simpa [queueToList, here, listNew] using calls

/--
A queue gives its objects back in the order in which they were put in.

Whatever cells the allocations give, the list has the objects of the queue and then those that were
added, the queue is as it was, and to delete the list takes away all that was made for it.
-/
theorem queue_run (ring : Ring frame heap q cells)
    (distinct : (entries.map Prod.fst ++ news).Nodup)
    (free : ∀ a ∈ entries.map Prod.fst ++ news, heap a = none)
    (enough : news.length = cells.length + entries.length) (deep : news.length < fuel)
    (rest : σ) :
    ∃ heap' q' heap'' l cells', enqueueAll heap q entries = some (heap', q') ∧
      queueToList fuel heap' q' news = some (heap'', l) ∧
      Owned heap' heap'' l cells' ∧
      cells'.map Prod.snd = cells.map Prod.snd ++ entries.map Prod.snd ∧
      Ring frame heap' q' (cells ++ entries) ∧
      (∀ c ∈ cells ++ entries, heap'' c.1 = heap' c.1) ∧
      listDelete (none : Option (α → σ → σ)) fuel heap'' l rest = some (heap', rest) := by
  obtain ⟨heap', q', added, ring', free'⟩ := enqueueAll_ring ring distinct free
  -- One new cell is given for each cell of the queue.
  have whole : news.length = (cells ++ entries).length := by rw [enough, List.length_append]
  have small : (cells ++ entries).length ≤ fuel := by omega
  obtain ⟨heap'', l, cells', listed, owned, contents⟩ :=
    queueToList_owned ring' (List.nodup_append.mp distinct).2.1 free' whole small
  -- The list is as long as the queue, for which there is fuel.
  have counted : cells'.length < fuel := by
    rw [← List.length_map Prod.snd, contents, List.length_map, ← whole]
    exact deep
  refine ⟨heap', q', heap'', l, cells', added, listed, owned, by rw [contents, List.map_append],
    ring', fun c member => ?_, ?_⟩
  · -- A cell of the queue is allocated before the list is made.
    obtain ⟨first, path⟩ := ring'.path
    obtain ⟨next, here⟩ := path.allocated c member
    rw [owned.kept here, here]
  · -- Deleting gives back the heap in which the list was made.
    rw [listDelete_eq owned counted]
    simp

/-- Two objects that are put into a new queue come out in their order. -/
theorem queue_run_two : ∃ (heap' heap'' : Heap ℕ Char) (q' l : Option ℕ) (cells' : _),
    enqueueAll (fun _ => none) queueNew [(1, 'a'), (2, 'b')] = some (heap', q') ∧
      queueToList 4 heap' q' [3, 4] = some (heap'', l) ∧ Chain heap'' l cells' ∧
      cells'.map Prod.snd = ['a', 'b'] ∧
      listDelete (none : Option (Char → Unit → Unit)) 4 heap'' l () = some (heap', ()) := by
  -- All four cells are different.
  have distinct : (([(1, 'a'), (2, 'b')] : List (ℕ × Char)).map Prod.fst ++ [3, 4]).Nodup := by
    decide
  have deep : ([3, 4] : List ℕ).length < 4 := by decide
  obtain ⟨heap', q', heap'', l, cells', added, listed, owned, contents, -, -, deleted⟩ :=
    queue_run (.nil fun _ => none) distinct (fun _ _ => rfl) rfl deep ()
  exact ⟨heap', heap'', q', l, cells', added, listed, owned.chain, contents, deleted⟩

end Calls

end MiniRiscV
