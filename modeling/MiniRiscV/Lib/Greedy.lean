import Mathlib.Data.List.TakeWhile

/-! Greedy matching: a sequence of places, each of which takes what it can off a source. -/

namespace Greedy

/-- How many elements a place takes: one, the longest run, empty or not, or one at most. -/
inductive Count where
  | one | zeroOrMore | oneOrMore | zeroOrOne
  deriving DecidableEq

/-- A place of a sequence: the elements that it accepts, and how many of them it takes. -/
structure Place (α : Type*) where
  accepts : α → Bool
  count : Count

variable {α : Type*}

namespace Place

/-- What a place leaves of a source, none when it does not match. -/
def take (place : Place α) (source : List α) : Option (List α) :=
  match place.count, source with
  | .one, [] => none
  | .one, c :: rest => if place.accepts c then some rest else none
  -- A run that may be empty matches every source, also an empty one.
  | .zeroOrMore, source => some (source.dropWhile place.accepts)
  | .oneOrMore, [] => none
  | .oneOrMore, c :: rest => if place.accepts c then some (rest.dropWhile place.accepts) else none
  | .zeroOrOne, [] => some []
  | .zeroOrOne, c :: rest => some (if place.accepts c then rest else c :: rest)

/-- The place takes a run, which goes on as long as it can. -/
def takesRun (place : Place α) : Bool := place.count = .zeroOrMore || place.count = .oneOrMore

/-- The place does not match an empty source. -/
def needsOne (place : Place α) : Bool := place.count = .one || place.count = .oneOrMore

/-- A run behind its first element. -/
def openRun (place : Place α) : Place α := { place with count := .zeroOrMore }

/-- A run that has begun goes on. -/
@[simp] theorem takesRun_openRun (place : Place α) : place.openRun.takesRun = true := rfl

/-- Going on with it twice is going on with it. -/
@[simp] theorem openRun_openRun (place : Place α) : place.openRun.openRun = place.openRun := rfl

/-- A place that may stay empty is its own continuation. -/
theorem openRun_of_zeroOrMore {place : Place α} (optional : place.count = .zeroOrMore) :
    place.openRun = place := by
  -- Such a run is open from its beginning.
  rw [openRun, ← optional]

/-- A run takes the same elements throughout. -/
@[simp] theorem accepts_openRun (place : Place α) : place.openRun.accepts = place.accepts := rfl

end Place

/-- What the places of a sequence leave of a source, one behind the other. -/
def walk : List (Place α) → List α → Option (List α)
  | [], source => some source
  | place :: places, source => (place.take source).bind (walk places)

/-- The places still to be passed when the source runs out, none when it does not. -/
def runsOut : List (Place α) → List α → Option (List (Place α))
  | places, [] => some places
  | [], _ :: _ => none
  | place :: places, c :: rest =>
    match place.take (c :: rest) with
    | none => none
    -- A run that ends with the source could go on, so it is still to be passed.
    | some [] => some (if place.takesRun then place.openRun :: places else places)
    | some (c :: rest) => runsOut places (c :: rest)

section Steps

variable {place : Place α} {places : List (Place α)} {c : α} {rest source : List α}

/-- A place that does not match is where the walk ends. -/
theorem walk_of_take_none (fails : place.take source = none) :
    walk (place :: places) source = none := by
  rw [walk, fails, Option.bind_none]

/-- Behind a place that matches, the walk goes on with what it leaves. -/
theorem walk_of_take_some {left : List α} (takes : place.take source = some left) :
    walk (place :: places) source = walk places left := by
  rw [walk, takes, Option.bind_some]

/-- An empty source leaves all places to be passed. -/
theorem runsOut_nil : runsOut places ([] : List α) = some places := by
  cases places <;> rfl

/-- Where the first place does not match, the source does not run out. -/
theorem runsOut_of_take_none (fails : place.take (c :: rest) = none) :
    runsOut (place :: places) (c :: rest) = none := by
  rw [runsOut, fails]

/-- A place that is passed before the source is empty, or takes no run, is not left. -/
theorem runsOut_of_take_some {left : List α} (takes : place.take (c :: rest) = some left)
    (passed : left = [] → place.takesRun = false) :
    runsOut (place :: places) (c :: rest) = runsOut places left := by
  -- When the place leaves nothing, it is no run, and only the places behind it are left.
  rw [runsOut, takes]
  cases left with
  | nil => simp [passed rfl, runsOut_nil]
  | cons => rfl

/-- A place that rejects the next element takes nothing, and fails if it needs one. -/
theorem take_of_rejects (rejects : place.accepts c = false) :
    place.take (c :: rest) = if place.needsOne then none else some (c :: rest) := by
  -- One case for each count, of which two need an element.
  rcases place with ⟨set, _ | _ | _ | _⟩ <;>
    simp_all [Place.needsOne, Place.take]

/-- A place that takes no run takes the next element, if it accepts it. -/
theorem take_of_accepts (single : place.takesRun = false) (accepts : place.accepts c) :
    place.take (c :: rest) = some rest := by
  -- Only a single element, needed or not, is no run.
  rcases place with ⟨set, _ | _ | _ | _⟩ <;>
    simp_all [Place.takesRun, Place.take]

/-- A run that takes one element is an open run on the rest. -/
theorem take_of_accepts_run (run : place.takesRun) (accepts : place.accepts c) :
    place.take (c :: rest) = place.openRun.take rest := by
  -- Behind its first element, a run of one or more is one that may be empty.
  rcases place with ⟨set, _ | _ | _ | _⟩ <;>
    simp_all [Place.takesRun, Place.take, Place.openRun]

/-- A run takes the element, and goes on with the same place. -/
theorem walk_of_accepts_run (run : place.takesRun) (accepts : place.accepts c) :
    walk (place :: places) (c :: rest) = walk (place.openRun :: places) rest := by
  -- Both places leave the same, and the walk goes on with it.
  rw [walk, walk, take_of_accepts_run run accepts]

/-- The same for the places that are left when the source runs out. -/
theorem runsOut_of_accepts_run (run : place.takesRun) (accepts : place.accepts c) :
    runsOut (place :: places) (c :: rest) = runsOut (place.openRun :: places) rest := by
  have all : place.openRun.take rest = some (rest.dropWhile place.accepts) := rfl
  have takes : place.take (c :: rest) = some (rest.dropWhile place.accepts) :=
    (take_of_accepts_run run accepts).trans all
  cases rest with
  | nil =>
    -- The run goes to the end of the source, and is still open there.
    rw [runsOut_nil, runsOut, takes]
    simp [run]
  | cons d rest =>
    rw [runsOut, runsOut, takes, all]
    simp [run]

end Steps

section RunningOut

variable {places left : List (Place α)} {source : List α}

/-- On an empty source a walk fails at the first place that needs an element. -/
theorem walk_nil (places : List (Place α)) :
    walk places [] = if places.any Place.needsOne then none else some [] := by
  -- By induction on the places: the first one that needs an element decides.
  induction places with
  | nil => rfl
  | cons place places ih =>
    rcases place with ⟨set, _ | _ | _ | _⟩
    -- Only a run that may be empty, or an element that may be missing, is passed.
    · simp [walk, Place.take, Place.needsOne]
    · simpa [walk, Place.take, Place.needsOne] using ih
    · simp [walk, Place.take, Place.needsOne]
    · simpa [walk, Place.take, Place.needsOne] using ih

/-- Where the source runs out, the walk is decided by the places that are left. -/
theorem walk_of_runsOut (out : runsOut places source = some left) :
    walk places source = walk left [] := by
  -- By induction on the places, following the source that each of them leaves.
  induction places generalizing source with
  | nil =>
    cases source with
    | nil =>
      rw [← Option.some.inj out]
    | cons c rest => cases out
  | cons place places ih =>
    cases source with
    | nil => rw [← Option.some.inj out]
    | cons c rest =>
      cases takes : place.take (c :: rest) with
      | none =>
        -- A place that fails leaves no places, so the source does not run out.
        rw [runsOut_of_take_none takes] at out
        cases out
      | some behind =>
        rw [walk_of_take_some takes]
        cases behind with
        -- Something is left: the source runs out in the places behind.
        | cons d behind =>
          rw [runsOut_of_take_some takes (fun empty => absurd empty (by simp))] at out
          exact ih out
        | nil =>
          -- The source ends with this place.
          rw [runsOut, takes] at out
          obtain rfl := Option.some.inj out
          split
          -- An open run takes nothing off an empty source.
          · rfl
          · rfl

end RunningOut

end Greedy
