import MiniRiscV.Lib.Greedy

/-! Greedy matching in front of an element that no place accepts: it does not depend on the rest. -/

namespace Greedy

variable {α : Type*} {place : Place α} {places : List (Place α)} {stop : α}

/-- A run ends at the latest in front of an element that it rejects. -/
theorem exists_dropWhile {p : α → Bool} (rejects : p stop = false) (source : List α) :
    ∃ left, ∀ rest, (source ++ stop :: rest).dropWhile p = left ++ stop :: rest := by
  -- By induction on the source, up to the first element that is rejected.
  induction source with
  | nil => exact ⟨[], fun rest => by simp [rejects]⟩
  | cons c source ih =>
    by_cases accepts : p c
    · obtain ⟨left, drops⟩ := ih
      exact ⟨left, fun rest => by simp [accepts, drops]⟩
    · exact ⟨c :: source, fun rest => by simp [accepts]⟩

/-- What a place takes in front of an element that it rejects. -/
theorem Place.exists_take (rejects : place.accepts stop = false) (source : List α) :
    ∃ left : Option (List α), ∀ rest,
      place.take (source ++ stop :: rest) = left.map (· ++ stop :: rest) := by
  obtain ⟨accepts, count⟩ := place
  -- The next element decides, and behind it only a run goes on.
  cases source with
  | nil =>
    cases count with
    | one => exact ⟨none, fun rest => by simp_all [take]⟩
    | zeroOrMore => exact ⟨some [], fun rest => by simp_all [take]⟩
    | oneOrMore => exact ⟨none, fun rest => by simp_all [take]⟩
    | zeroOrOne => exact ⟨some [], fun rest => by simp_all [take]⟩
  | cons c source =>
    obtain ⟨left, drops⟩ := exists_dropWhile rejects source
    by_cases first : accepts c
    · cases count with
      | one => exact ⟨some source, fun rest => by simp [take, first]⟩
      | zeroOrMore => exact ⟨some left, fun rest => by simp [take, first, drops]⟩
      | oneOrMore => exact ⟨some left, fun rest => by simp [take, first, drops]⟩
      | zeroOrOne => exact ⟨some source, fun rest => by simp [take, first]⟩
    · cases count with
      | one => exact ⟨none, fun rest => by simp [take, first]⟩
      | zeroOrMore => exact ⟨some (c :: source), fun rest => by simp [take, first]⟩
      | oneOrMore => exact ⟨none, fun rest => by simp [take, first]⟩
      | zeroOrOne => exact ⟨some (c :: source), fun rest => by simp [take, first]⟩

/-- What a walk leaves in front of an element that all its places reject. -/
theorem exists_walk (rejects : ∀ place ∈ places, place.accepts stop = false) (source : List α) :
    ∃ left : Option (List α), ∀ rest,
      walk places (source ++ stop :: rest) = left.map (· ++ stop :: rest) := by
  -- By induction on the places, each of which leaves the element.
  induction places generalizing source with
  | nil => exact ⟨some source, fun rest => rfl⟩
  | cons place places ih =>
    rw [List.forall_mem_cons] at rejects
    obtain ⟨left, takes⟩ := Place.exists_take rejects.1 source
    cases left with
    | none => exact ⟨none, fun rest => by rw [walk_of_take_none (takes rest)]; rfl⟩
    | some left =>
      obtain ⟨left', walks⟩ := ih rejects.2 left
      refine ⟨left', fun rest => ?_⟩
      rw [walk_of_take_some (takes rest)]
      exact walks rest

/-- A source does not run out in front of an element that all places reject. -/
theorem runsOut_of_rejects (rejects : ∀ place ∈ places, place.accepts stop = false)
    (source rest : List α) : runsOut places (source ++ stop :: rest) = none := by
  -- By induction on the places, each of which leaves the element.
  induction places generalizing source with
  | nil => cases source <;> rfl
  | cons place places ih =>
    rw [List.forall_mem_cons] at rejects
    obtain ⟨left, takes⟩ := Place.exists_take rejects.1 source
    obtain ⟨c, behind, shape⟩ := List.exists_cons_of_ne_nil
      (List.append_ne_nil_of_right_ne_nil source (List.cons_ne_nil stop rest))
    have taken := takes rest
    rw [shape] at taken ⊢
    cases left with
    | none => exact runsOut_of_take_none taken
    | some left => rw [runsOut_of_take_some taken (by simp), ih rejects.2 left]

end Greedy
