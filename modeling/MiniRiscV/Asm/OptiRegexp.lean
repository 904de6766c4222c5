import MiniRiscV.Asm.Lists
import MiniRiscV.Asm.Regexp
import Mathlib.Computability.Language

/-! `opti_regexp` on the linked list of groups that it rewrites in place. -/

namespace MiniRiscV

open LinkedList
open scoped Computability

namespace Linked

variable {Addr : Type} [DecidableEq Addr]

/-- The cells of the lists of groups, each with its own group or with a null. -/
abbrev Groups (Addr : Type) := Heap Addr (Option CharGroup)

/-- `char_group_free`: a group is part of its cell here, so nothing else is freed with it. -/
def charGroupFree (_ : Option CharGroup) (rest : Unit) : Unit := rest

/-- An assignment to the group of a cell. -/
def setContent (heap : Groups Addr) (l : Option Addr) (group : CharGroup) :
    Option (Groups Addr) := do
  let a ← l
  let cell ← heap a
  return Function.update heap a (some { cell with content := some group })

/-- An assignment to the pointer of a cell. -/
def setNext (heap : Groups Addr) (l next : Option Addr) : Option (Groups Addr) := do
  let a ← l
  let cell ← heap a
  return Function.update heap a (some { cell with next := next })

/-- The variables of `opti_regexp`, with the cells. -/
structure Cursors (Addr : Type) where
  heap : Groups Addr
  p : Option Addr
  l : Option Addr
  sameGroup : Bool

/-- One turn of the loop of `opti_regexp`, none when it uses a null pointer. -/
def optiRegexpTurn (s : Cursors Addr) : Option (Cursors Addr) := do
  let prev ← (← listFirst s.heap s.p)
  let curr ← (← listFirst s.heap s.l)
  -- The flag is only ever cleared by the comparison.
  let sameGroup := s.sameGroup && prev.group == curr.group
  if sameGroup then
    if prev.operator = .zom ∧ (curr.operator = .nop ∨ curr.operator = .oom) then
      let heap ← setContent s.heap s.p { prev with operator := .oom }
      let (heap, next, ()) ← listDelFirst (some charGroupFree) heap s.l ()
      let heap ← setNext heap s.p next
      return { heap, p := s.p, l := ← listNext heap s.p, sameGroup }
    else if prev.operator = .oom ∧ curr.operator = .nop then
      let heap ← setContent s.heap s.p { prev with operator := .nop }
      let heap ← setContent heap s.l { curr with operator := .oom }
      return { heap, p := s.l, l := ← listNext heap s.l, sameGroup }
    else return { heap := s.heap, p := s.l, l := ← listNext s.heap s.l, sameGroup }
  else return { heap := s.heap, p := s.l, l := ← listNext s.heap s.l, sameGroup := true }

/-- The loop of `opti_regexp`, none also when the turns do not suffice. -/
def optiRegexpLoop : ℕ → Cursors Addr → Option (Cursors Addr)
  | 0, _ => none
  | turns + 1, s => if s.l = none then some s else do optiRegexpLoop turns (← optiRegexpTurn s)

/-- `opti_regexp`: the cells behind it, when its loop ends within so many turns. -/
def optiRegexp (turns : ℕ) (heap : Groups Addr) (groups : Option Addr) : Option (Groups Addr) :=
  if groups = none then some heap
  else do
    let l ← listNext heap groups
    let s ← optiRegexpLoop turns { heap, p := groups, l, sameGroup := true }
    return s.heap

section Turn

variable {heap : Groups Addr} {p l : Addr} {prev curr : CharGroup} {next : Option Addr}

/-- A run that may be empty takes in the group behind it, whose cell is freed. -/
theorem turn_merge (here : heap p = some ⟨some prev, some l⟩)
    (there : heap l = some ⟨some curr, next⟩) (apart : p ≠ l) (same : prev.group = curr.group)
    (zom : prev.operator = .zom) (one : curr.operator = .nop ∨ curr.operator = .oom) :
    ∃ heap', optiRegexpTurn ⟨heap, some p, some l, true⟩ = some ⟨heap', some p, next, true⟩ ∧
      heap' p = some ⟨some { prev with operator := .oom }, next⟩ ∧
      ∀ a, a ≠ p → a ≠ l → heap' a = heap a := by
  -- The cell of the first cursor is assigned twice, and the other one is freed in between.
  refine ⟨Function.update (Function.update (Function.update heap p
    (some ⟨some { prev with operator := .oom }, some l⟩)) l none) p
    (some ⟨some { prev with operator := .oom }, next⟩), ?_, ?_, ?_⟩
  · simp [optiRegexpTurn, listFirst, listNext, listDelFirst, setContent, setNext, here, there,
      same, zom, one, apart, apart.symm]
  · simp
  · intro a notP notL
    simp [notP, notL]

/-- Behind a run, the first of two groups is made the single one. -/
theorem turn_swap (here : heap p = some ⟨some prev, some l⟩)
    (there : heap l = some ⟨some curr, next⟩) (apart : p ≠ l) (same : prev.group = curr.group)
    (oom : prev.operator = .oom) (nop : curr.operator = .nop) :
    ∃ heap', optiRegexpTurn ⟨heap, some p, some l, true⟩ = some ⟨heap', some l, next, true⟩ ∧
      heap' p = some ⟨some { prev with operator := .nop }, some l⟩ ∧
      heap' l = some ⟨some { curr with operator := .oom }, next⟩ ∧
      ∀ a, a ≠ p → a ≠ l → heap' a = heap a := by
  -- Both cells are assigned once.
  refine ⟨Function.update (Function.update heap p
    (some ⟨some { prev with operator := .nop }, some l⟩)) l
    (some ⟨some { curr with operator := .oom }, next⟩), ?_, ?_, ?_, ?_⟩
  · simp [optiRegexpTurn, listFirst, listNext, setContent, here, there, same, oom, nop, apart.symm]
  · simp [apart]
  · simp
  · intro a notP notL
    simp [notP, notL]

/-- In all other cases the cursors go on, and the flag is set again. -/
theorem turn_pass (here : heap p = some ⟨some prev, some l⟩)
    (there : heap l = some ⟨some curr, next⟩)
    (noMerge : ¬ (prev.group = curr.group ∧ prev.operator = .zom ∧
      (curr.operator = .nop ∨ curr.operator = .oom)))
    (noSwap : ¬ (prev.group = curr.group ∧ prev.operator = .oom ∧ curr.operator = .nop)) :
    optiRegexpTurn ⟨heap, some p, some l, true⟩ = some ⟨heap, some l, next, true⟩ := by
  -- With different sets the operators are not looked at.
  by_cases same : prev.group = curr.group
  · have noMerge' : ¬ (prev.operator = .zom ∧ (curr.operator = .nop ∨ curr.operator = .oom)) :=
      fun merge => noMerge ⟨same, merge⟩
    have noSwap' : ¬ (prev.operator = .oom ∧ curr.operator = .nop) :=
      fun swap => noSwap ⟨same, swap⟩
    simp [optiRegexpTurn, listFirst, listNext, here, there, same, noMerge', noSwap']
  · simp [optiRegexpTurn, listFirst, listNext, here, there, same]

end Turn

section Refinement

/-- The pointer leads through cells with these groups, none of them missing. -/
def Holds (heap : Groups Addr) (l : Option Addr) (cells : List (Addr × CharGroup)) : Prop :=
  Chain heap l (cells.map fun c => (c.1, some c.2))

omit [DecidableEq Addr] in
/-- A list depends only on its own cells. -/
theorem Holds.congr {heap heap' : Groups Addr} {l : Option Addr}
    {cells : List (Addr × CharGroup)} (holds : Holds heap l cells)
    (same : ∀ c ∈ cells, heap' c.1 = heap c.1) : Holds heap' l cells := by
  -- A list of groups is a list of contents, none of them a null.
  refine Chain.congr holds fun d member => ?_
  obtain ⟨c, inCells, rfl⟩ := List.mem_map.mp member
  exact same c inCells

omit [DecidableEq Addr] in
/-- A list that is not empty has a first cell, which does not come again. -/
theorem Holds.uncons {heap : Groups Addr} {l : Option Addr} {c : Addr × CharGroup}
    {cells : List (Addr × CharGroup)} (holds : Holds heap l (c :: cells)) :
    ∃ next, l = some c.1 ∧ heap c.1 = some ⟨some c.2, next⟩ ∧ Holds heap next cells ∧
      ∀ d ∈ cells, c.1 ≠ d.1 := by
  cases holds with
  | @cell _ _ next _ here behind =>
    refine ⟨next, rfl, here, behind, fun d member => ?_⟩
    exact ((Chain.cell here behind).head_ne (List.mem_map_of_mem member)).symm

/-- What a pass from a cell on has done to the list from there on. -/
structure Rewrites (heap heap' : Groups Addr) (p : Addr) (rest cells : List (Addr × CharGroup)) :
    Prop where
  chain : Holds heap' (some p) cells
  /-- Cells are freed, and none is added. -/
  addresses : (cells.map Prod.fst).Sublist (p :: rest.map Prod.fst)
  others : ∀ a, a ≠ p → (∀ c ∈ rest, a ≠ c.1) → heap' a = heap a

namespace Rewrites

variable {heap heap' heap'' : Groups Addr} {p l : Addr} {rest cells : List (Addr × CharGroup)}
  {prev curr : CharGroup}

omit [DecidableEq Addr] in
/-- A freed cell between the two does not matter behind it. -/
theorem merged (changed : ∀ a, a ≠ p → a ≠ l → heap' a = heap a)
    (behind : Rewrites heap' heap'' p rest cells) :
    Rewrites heap heap'' p ((l, curr) :: rest) cells where
  chain := behind.chain
  addresses := behind.addresses.trans ((List.sublist_cons_self l _).cons_cons p)
  others := by
    intro a notP notRest
    rw [behind.others a notP fun c member => notRest c (List.mem_cons_of_mem _ member)]
    exact changed a notP (notRest (l, curr) List.mem_cons_self)

omit [DecidableEq Addr] in
/-- A cell that the cursors have left stays in front of those behind. -/
theorem passed (changed : ∀ a, a ≠ p → a ≠ l → heap' a = heap a)
    (left : heap' p = some ⟨some prev, some l⟩) (apart : p ≠ l) (notRest : ∀ c ∈ rest, p ≠ c.1)
    (behind : Rewrites heap' heap'' l rest cells) :
    Rewrites heap heap'' p ((l, curr) :: rest) ((p, prev) :: cells) where
  chain := .cell ((behind.others p apart notRest).trans left) behind.chain
  addresses := behind.addresses.cons_cons p
  others := by
    intro a notP away
    rw [behind.others a (away (l, curr) List.mem_cons_self) fun c member =>
      away c (List.mem_cons_of_mem _ member)]
    exact changed a notP (away (l, curr) List.mem_cons_self)

end Rewrites

/-- A result with one group in front has that group first. -/
theorem map_cons_eq_some {found : Option (List (Option CharGroup))} {prev : CharGroup}
    {groups : List CharGroup} (same : found.map (some prev :: ·) = some (groups.map some)) :
    ∃ behind, groups = prev :: behind ∧ found = some (behind.map some) := by
  -- The front of both lists is known, and the rest follows.
  obtain ⟨tail, tail_eq, front⟩ := Option.map_eq_some_iff.mp same
  cases groups with
  | nil => cases front
  | cons group groups =>
    obtain ⟨head, rest⟩ := List.cons.inj front
    obtain rfl := Option.some.inj head
    exact ⟨groups, rfl, tail_eq.trans (congrArg some rest)⟩

/-- The pass in place rewrites the groups as the pass over a list of groups does. -/
theorem loop_rewrites {heap : Groups Addr} {p : Addr} {prev : CharGroup} {next : Option Addr}
    {rest : List (Addr × CharGroup)} {groups : List CharGroup} {turns : ℕ}
    (here : heap p = some ⟨some prev, next⟩) (behind : Holds heap next rest)
    (pass : optiRegexpFrom prev (rest.map fun c => some c.2) = some (groups.map some))
    (enough : rest.length < turns) :
    ∃ s cells, optiRegexpLoop turns ⟨heap, some p, next, true⟩ = some s ∧
      Rewrites heap s.heap p rest cells ∧ cells.map Prod.snd = groups := by
  -- By induction on the cells behind the first cursor, of which every turn passes one.
  induction rest generalizing heap p prev next groups turns with
  | nil =>
    obtain ⟨turns, rfl⟩ := Nat.exists_eq_add_of_lt enough
    cases behind
    have last : groups = [prev] := by
      cases groups with
      | nil => cases pass
      | cons group groups => cases groups with
        | nil => simpa [optiRegexpFrom, eq_comm] using pass
        | cons _ _ => simp [optiRegexpFrom] at pass
    refine ⟨_, [(p, prev)], rfl, ⟨.cell here .null, List.Sublist.refl _, fun _ _ _ => rfl⟩, ?_⟩
    exact last.symm
  | cons c rest ih =>
    obtain ⟨l, curr⟩ := c
    obtain ⟨turns, rfl⟩ : ∃ more, turns = more + 1 := ⟨turns - 1, by omega⟩
    have enough' : rest.length < turns := by simpa using enough
    have whole : Holds heap (some p) ((p, prev) :: (l, curr) :: rest) := .cell here behind
    obtain ⟨-, -, -, -, awayP⟩ := whole.uncons
    obtain ⟨next', rfl, there, behind', awayL⟩ := behind.uncons
    have apart : p ≠ l := awayP (l, curr) List.mem_cons_self
    have awayRest : ∀ c ∈ rest, p ≠ c.1 := fun c member => awayP c (List.mem_cons_of_mem _ member)
    -- Cells behind both cursors are as before, whatever the turn does to the two.
    have kept {heap' : Groups Addr} (changed : ∀ a, a ≠ p → a ≠ l → heap' a = heap a) :
        Holds heap' next' rest :=
      behind'.congr fun c member => changed c.1 (awayRest c member).symm (awayL c member).symm
    rw [List.map_cons, optiRegexpFrom] at pass
    simp only [optiRegexpLoop, reduceCtorEq, if_false]
    by_cases merge : prev.group = curr.group ∧ prev.operator = .zom ∧
        (curr.operator = .nop ∨ curr.operator = .oom)
    · -- The second group is taken in, and the first cursor stays.
      obtain ⟨same, zom, one⟩ := merge
      obtain ⟨heap', turn, here', changed⟩ := turn_merge here there apart same zom one
      rw [if_pos same, if_pos ⟨zom, one⟩] at pass
      obtain ⟨s, cells, run, rewrites, result⟩ := ih here' (kept changed) pass enough'
      refine ⟨s, cells, ?_, rewrites.merged changed, result⟩
      rw [turn]
      exact run
    · by_cases swap : prev.group = curr.group ∧ prev.operator = .oom ∧ curr.operator = .nop
      · -- The operators change places, and both cursors go on.
        obtain ⟨same, oom, nop⟩ := swap
        obtain ⟨heap', turn, left, there', changed⟩ := turn_swap here there apart same oom nop
        rw [if_pos same, if_neg fun both => merge ⟨same, both⟩, if_pos ⟨oom, nop⟩] at pass
        obtain ⟨groups, rfl, later⟩ := map_cons_eq_some pass
        obtain ⟨s, cells, run, rewrites, result⟩ := ih there' (kept changed) later enough'
        refine ⟨s, _, ?_, rewrites.passed changed left apart awayRest, by rw [← result]; rfl⟩
        rw [turn]
        exact run
      · -- Nothing is rewritten.
        have turn := turn_pass here there merge swap
        have onward : (optiRegexpFrom curr (rest.map fun c => some c.2)).map (some prev :: ·) =
            some (groups.map some) := by
          split at pass
          · rename_i same
            rw [if_neg fun both => merge ⟨same, both⟩, if_neg fun both => swap ⟨same, both⟩] at pass
            exact pass
          · exact pass
        obtain ⟨groups, rfl, later⟩ := map_cons_eq_some onward
        obtain ⟨s, cells, run, rewrites, result⟩ := ih there behind' later enough'
        refine ⟨s, _, ?_, rewrites.passed (fun _ _ _ => rfl) here apart awayRest,
          by rw [← result]; rfl⟩
        rw [turn]
        exact run

end Refinement

end Linked

section Meaning

/-- The words of one character out of a set. -/
def symbols (group : BitVec 256) : Language (Fin 256) :=
  {word | ∃ c, group.getLsbD c.val ∧ word = [c]}

/-- The words of a group as a regular expression. -/
def meaning (group : CharGroup) : Language (Fin 256) :=
  match group.operator with
  | .nop => symbols group.group
  | .zom => (symbols group.group)∗
  | .oom => symbols group.group * (symbols group.group)∗
  | .zoo => 1 + symbols group.group

/-- The words of a list of groups, one behind the other. -/
def language (groups : List CharGroup) : Language (Fin 256) := (groups.map meaning).prod

/-- The words of the first group are put in front of the others. -/
theorem language_cons (group : CharGroup) (groups : List CharGroup) :
    language (group :: groups) = meaning group * language groups :=
  List.prod_cons

/-- A run that may be empty and one more of the same set are a run. -/
theorem meaning_merge {prev curr : CharGroup} (same : prev.group = curr.group)
    (zom : prev.operator = .zom) (one : curr.operator = .nop ∨ curr.operator = .oom) :
    meaning prev * meaning curr = meaning { prev with operator := .oom } := by
  rcases one with nop | oom
  · simp only [meaning, zom, nop, same]
    exact Language.mul_self_kstar_comm _
  · simp only [meaning, zom, oom, same]
    -- The single one moves to the front, and the two runs that may be empty are one.
    rw [← mul_assoc, Language.mul_self_kstar_comm, mul_assoc, kstar_mul_kstar]

/-- A run and one more of the same set are one and then the run. -/
theorem meaning_swap {prev curr : CharGroup} (same : prev.group = curr.group)
    (oom : prev.operator = .oom) (nop : curr.operator = .nop) :
    meaning prev * meaning curr =
      meaning { prev with operator := .nop } * meaning { curr with operator := .oom } := by
  -- A run is one and then a run that may be empty, on both sides of it.
  simp only [meaning, oom, nop, same]
  rw [mul_assoc, Language.mul_self_kstar_comm]

/-- The pass over a list of groups keeps its words. -/
theorem optiRegexpFrom_language (prev : CharGroup) (rest : List CharGroup) :
    ∃ groups, optiRegexpFrom prev (rest.map some) = some (groups.map some) ∧
      language groups = language (prev :: rest) := by
  -- By induction on the groups behind the current one.
  induction rest generalizing prev with
  | nil => exact ⟨[prev], rfl, rfl⟩
  | cons curr rest ih =>
    rw [List.map_cons, optiRegexpFrom]
    -- A group that is not merged is put in front of the pass over the others.
    have onward (front next : CharGroup)
        (words : meaning front * meaning next = meaning prev * meaning curr) :
        ∃ groups, (optiRegexpFrom next (rest.map some)).map (some front :: ·) =
            some (groups.map some) ∧ language groups = language (prev :: curr :: rest) := by
      obtain ⟨groups, pass, kept⟩ := ih next
      refine ⟨front :: groups, by rw [pass]; rfl, ?_⟩
      rw [language_cons, kept, language_cons, ← mul_assoc, words, mul_assoc, ← language_cons,
        ← language_cons]
    split
    · rename_i same
      split
      · -- The run takes in the group.
        rename_i merge
        obtain ⟨groups, pass, kept⟩ := ih { prev with operator := .oom }
        refine ⟨groups, pass, ?_⟩
        rw [kept, language_cons, ← meaning_merge same merge.1 merge.2, mul_assoc,
          ← language_cons, ← language_cons]
      · split
        · rename_i swap
          exact onward _ _ (meaning_swap same swap.1 swap.2).symm
        · exact onward _ _ rfl
    · exact onward _ _ rfl

/-- The pass over a list of groups, none of them missing, goes through and keeps its words. -/
theorem optiRegexp_language (groups : List CharGroup) :
    ∃ groups', optiRegexp (groups.map some) = some (groups'.map some) ∧
      language groups' = language groups := by
  -- The pass begins with the first group as the current one.
  cases groups with
  | nil => exact ⟨[], rfl, rfl⟩
  | cons prev rest => exact optiRegexpFrom_language prev rest

end Meaning

namespace Linked

variable {Addr : Type} [DecidableEq Addr]

/-- In as many turns as there are cells, the pass in place does what the one over the list does. -/
theorem optiRegexp_refines {heap : Groups Addr} {l : Option Addr}
    {cells : List (Addr × CharGroup)} {groups : List CharGroup} (holds : Holds heap l cells)
    (pass : MiniRiscV.optiRegexp (cells.map fun c => some c.2) = some (groups.map some)) {turns : ℕ}
    (enough : cells.length ≤ turns) :
    ∃ heap' cells', optiRegexp turns heap l = some heap' ∧ Holds heap' l cells' ∧
      cells'.map Prod.snd = groups ∧ (cells'.map Prod.fst).Sublist (cells.map Prod.fst) ∧
      ∀ a, (∀ c ∈ cells, a ≠ c.1) → heap' a = heap a := by
  cases cells with
  | nil =>
    -- An empty list is left as it is.
    cases holds
    have none : groups = [] := by
      cases groups with
      | nil => rfl
      | cons _ _ => cases pass
    exact ⟨heap, [], rfl, .null, none.symm, List.Sublist.refl _, fun _ _ => rfl⟩
  | cons c rest =>
    obtain ⟨p, prev⟩ := c
    obtain ⟨next, rfl, here, behind, -⟩ := holds.uncons
    obtain ⟨s, cells', run, rewrites, result⟩ := loop_rewrites here behind pass enough
    have entered : optiRegexp turns heap (some p) = some s.heap := by
      simp [optiRegexp, listNext, here, run]
    refine ⟨s.heap, cells', entered, rewrites.chain, result, rewrites.addresses, fun a away => ?_⟩
    exact rewrites.others a (away (p, prev) List.mem_cons_self) fun c member =>
      away c (List.mem_cons_of_mem _ member)

/-- What `opti_regexp` leaves of a list. -/
structure Optimises (heap heap' : Groups Addr) (groups : Option Addr)
    (cells cells' : List (Addr × CharGroup)) : Prop where
  /-- The pointer to the list, and so its first cell, is as before. -/
  holds : Holds heap' groups cells'
  words : language (cells'.map Prod.snd) = language (cells.map Prod.snd)
  /-- All cells are among those before, in their order. -/
  addresses : (cells'.map Prod.fst).Sublist (cells.map Prod.fst)
  shorter : cells'.length ≤ cells.length
  others : ∀ a, (∀ c ∈ cells, a ≠ c.1) → heap' a = heap a

/-- In as many turns as there are cells, `opti_regexp` ends, and the list has the same words. -/
theorem optiRegexp_optimises {heap : Groups Addr} {groups : Option Addr}
    {cells : List (Addr × CharGroup)} (holds : Holds heap groups cells) {turns : ℕ}
    (enough : cells.length ≤ turns) :
    ∃ heap' cells', optiRegexp turns heap groups = some heap' ∧
      Optimises heap heap' groups cells cells' := by
  obtain ⟨behind, pass, kept⟩ := optiRegexp_language (cells.map Prod.snd)
  rw [List.map_map] at pass
  obtain ⟨heap', cells', run, holds', result, addresses, others⟩ :=
    optiRegexp_refines holds pass enough
  -- A list of addresses within another one is not longer.
  have shorter : cells'.length ≤ cells.length := by simpa using addresses.length_le
  exact ⟨heap', cells', run, holds', by rw [result, kept], addresses, shorter, others⟩

/-- Three cells for `a*ab`. -/
theorem optiRegexp_optimises_cells :
    let heap : Groups ℕ := fun a =>
      if a = 0 then some ⟨some (charGroupSingleChar 'a' false .zom), some 1⟩
      else if a = 1 then some ⟨some (charGroupSingleChar 'a' false .nop), some 2⟩
      else if a = 2 then some ⟨some (charGroupSingleChar 'b' false .nop), none⟩
      else none
    ∃ heap' cells', optiRegexp 3 heap (some 0) = some heap' ∧
      Optimises heap heap' (some 0) [(0, charGroupSingleChar 'a' false .zom),
        (1, charGroupSingleChar 'a' false .nop), (2, charGroupSingleChar 'b' false .nop)]
        cells' := by
  -- The heap holds the three cells, one behind the other.
  intro heap
  have holds : Holds heap (some 0) [(0, charGroupSingleChar 'a' false .zom),
      (1, charGroupSingleChar 'a' false .nop), (2, charGroupSingleChar 'b' false .nop)] :=
    .cell rfl (.cell rfl (.cell rfl .null))
  exact optiRegexp_optimises holds (by decide)

end Linked
end MiniRiscV
