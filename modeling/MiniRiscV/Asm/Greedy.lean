import MiniRiscV.Asm.Regexp
import MiniRiscV.Lib.Greedy

/-! `re_match` against greedy matching, from which it departs where the source runs out. -/

namespace MiniRiscV

open Greedy

/-- How many characters a group with an operator takes. -/
def Operator.count : Operator → Count
  | .nop => .one
  | .zom => .zeroOrMore
  | .oom => .oneOrMore
  | .zoo => .zeroOrOne

/-- The place that a group stands for, with the characters of its set. -/
def CharGroup.place (group : CharGroup) : Place Char where
  accepts c := group.group.getLsbD c.toNat
  count := group.operator.count

/-- The same place, with the characters that `char_group_in` finds in it. -/
def CharGroup.placeIn (group : CharGroup) : Place Char where
  accepts := charGroupIn group
  count := group.operator.count

/-- The places that `re_match` accepts as the last ones when the source runs out. -/
def passesAtEnd : List (Place Char) → Bool
  | [] => true
  | [place] => place.takesRun
  | _ :: _ :: _ => false

/-- What `re_match` leaves: it is the walk, but for sources that run out. -/
def outcome (places : List (Place Char)) (source : CStr) : Option CStr :=
  match runsOut places source with
  | none => walk places source
  | some left => if passesAtEnd left then some [] else none

section Outcome

variable {place : Place Char} {places : List (Place Char)} {c : Char} {rest source left : CStr}

/-- Without places, the whole source is left. -/
@[simp] theorem outcome_no_places (source : CStr) : outcome [] source = some source := by
  cases source <;> rfl

/-- At the end of the source, the places left must all be ones that can be passed. -/
theorem outcome_nil : outcome places [] = if passesAtEnd places then some [] else none := by
  rw [outcome, runsOut_nil]

/-- The turn at a place that needs a character and rejects the next one. -/
theorem outcome_of_rejects_needed (rejects : place.accepts c = false) (needed : place.needsOne) :
    outcome (place :: places) (c :: rest) = none := by
  -- The walk fails at this place, before the source runs out.
  have fails : place.take (c :: rest) = none := by rw [take_of_rejects rejects, if_pos needed]
  rw [outcome, runsOut_of_take_none fails, walk_of_take_none fails]

/-- The turn at a place that needs no character and rejects the next one. -/
theorem outcome_of_rejects (rejects : place.accepts c = false)
    (optional : place.needsOne = false) :
    outcome (place :: places) (c :: rest) = outcome places (c :: rest) := by
  -- The place takes nothing, so the same source is left to the places behind.
  have takes : place.take (c :: rest) = some (c :: rest) := by
    rw [take_of_rejects rejects]
    simp [optional]
  rw [outcome, outcome, walk_of_take_some takes, runsOut_of_take_some takes (by simp)]

/-- The turn at a place for a single character, which it accepts. -/
theorem outcome_of_accepts (single : place.takesRun = false) (accepts : place.accepts c) :
    outcome (place :: places) (c :: rest) = outcome places rest := by
  -- The place is passed with one character, whether or not the source ends there.
  have takes : place.take (c :: rest) = some rest := take_of_accepts single accepts
  rw [outcome, outcome, walk_of_take_some takes, runsOut_of_take_some takes fun _ => single]

/-- The turn at a run that goes on. -/
theorem outcome_of_accepts_run (run : place.takesRun) (accepts : place.accepts c) :
    outcome (place :: places) (c :: rest) = outcome (place.openRun :: places) rest := by
  -- What is left of the run is a run that may be empty, for the walk and at the end.
  rw [outcome, outcome, runsOut_of_accepts_run run accepts, walk_of_accepts_run run accepts]

/-- An open run takes all characters that its place accepts. -/
theorem outcome_openRun {text : CStr} (accepts : ∀ d ∈ text, place.accepts d) (source : CStr) :
    outcome (place.openRun :: places) (text ++ source) =
      outcome (place.openRun :: places) source := by
  -- By induction on the characters that it accepts, behind each of which it is still open.
  induction text with
  | nil => rfl
  | cons d text ih =>
    rw [List.forall_mem_cons] at accepts
    rw [List.cons_append, outcome_of_accepts_run (Place.takesRun_openRun place) accepts.1,
      Place.openRun_openRun]
    exact ih accepts.2

/-- An open run ends at a character that its place rejects. -/
theorem outcome_openRun_ends (rejects : place.accepts c = false) :
    outcome (place.openRun :: places) (c :: rest) = outcome places (c :: rest) :=
  outcome_of_rejects rejects rfl

end Outcome

section Loop

variable {toPlace : CharGroup → Place Char} {groups : List CharGroup} {group : CharGroup}
  {firstChar : Bool} {c : Char} {source rest : CStr}

/-- The places still to be passed, `first_char` telling that a run of one or more is open. -/
def placesLeft (toPlace : CharGroup → Place Char) (firstChar : Bool) :
    List CharGroup → List (Place Char)
  | [] => []
  | group :: groups =>
    (if firstChar then (toPlace group).openRun else toPlace group) :: groups.map toPlace

/-- Where no run has begun, the places left are those of the groups. -/
theorem placesLeft_false (groups : List CharGroup) :
    placesLeft toPlace false groups = groups.map toPlace := by
  cases groups <;> rfl

/-- At the end of the source, the last group may be a run, whether or not it has begun. -/
theorem matchesAtEnd_map (counts : ∀ group, (toPlace group).count = group.operator.count)
    (begun : firstChar → group.operator = .oom) :
    matchesAtEnd ((group :: groups).map some) =
      some (passesAtEnd (placesLeft toPlace firstChar (group :: groups))) := by
  -- One group is left at the end, or there are more, which the code never passes.
  cases groups with
  | cons next groups => rfl
  | nil =>
    cases firstChar with
    | true => simp [matchesAtEnd, placesLeft, passesAtEnd, begun rfl]
    | false =>
      simp only [List.map_cons, List.map_nil, matchesAtEnd, placesLeft, passesAtEnd,
        Place.takesRun, counts, Bool.false_eq_true, if_false]
      cases group.operator <;> rfl

/-- A turn finds no match, passes the group, or goes on in its run; and the outcome is kept. -/
theorem reMatchTurn_outcome (count : (toPlace group).count = group.operator.count)
    (inSet : (toPlace group).accepts c = charGroupIn group c)
    (begun : firstChar → group.operator = .oom) :
    (reMatchTurn group (groups.map some) firstChar c rest = none ∧
        outcome (placesLeft toPlace firstChar (group :: groups)) (c :: rest) = none) ∨
      (∃ source, (source = rest ∨ source = c :: rest) ∧
        reMatchTurn group (groups.map some) firstChar c rest =
          some (groups.map some, false, source) ∧
        outcome (placesLeft toPlace firstChar (group :: groups)) (c :: rest) =
          outcome (placesLeft toPlace false groups) source) ∨
      ∃ firstChar' : Bool, (firstChar' → group.operator = .oom) ∧
        reMatchTurn group (groups.map some) firstChar c rest =
          some ((group :: groups).map some, firstChar', rest) ∧
        outcome (placesLeft toPlace firstChar (group :: groups)) (c :: rest) =
          outcome (placesLeft toPlace firstChar' (group :: groups)) rest := by
  rw [placesLeft_false]
  simp only [placesLeft, reMatchTurn, ← inSet, List.map_cons]
  -- Only in a run of one or more is the flag set.
  have unset : group.operator ≠ .oom → firstChar = false := fun other =>
    Bool.eq_false_iff.mpr fun set => other (begun set)
  cases operator : group.operator with
  | nop =>
    obtain rfl := unset (by simp [operator])
    have single : (toPlace group).takesRun = false := by
      simp [Place.takesRun, count, operator, Operator.count]
    have needed : (toPlace group).needsOne := by
      simp [Place.needsOne, count, operator, Operator.count]
    cases accepts : (toPlace group).accepts c with
    | true => exact .inr (.inl ⟨rest, .inl rfl, by simp, outcome_of_accepts single accepts⟩)
    | false => exact .inl ⟨by simp, outcome_of_rejects_needed accepts needed⟩
  | zom =>
    obtain rfl := unset (by simp [operator])
    have zeroOrMore : (toPlace group).count = .zeroOrMore := by rw [count, operator]; rfl
    cases accepts : (toPlace group).accepts c with
    | true =>
      have run : (toPlace group).takesRun := by simp [Place.takesRun, zeroOrMore]
      refine .inr (.inr ⟨false, by simp, by simp, (outcome_of_accepts_run run accepts).trans ?_⟩)
      rw [Place.openRun_of_zeroOrMore zeroOrMore]
      rfl
    | false =>
      have optional : (toPlace group).needsOne = false := by simp [Place.needsOne, zeroOrMore]
      exact .inr (.inl ⟨c :: rest, .inr rfl, by simp, outcome_of_rejects accepts optional⟩)
  | oom =>
    have oneOrMore : (toPlace group).count = .oneOrMore := by rw [count, operator]; rfl
    cases accepts : (toPlace group).accepts c with
    | true =>
      -- The run is begun by this character, or goes on with it.
      have run : (toPlace group).takesRun := by simp [Place.takesRun, oneOrMore]
      refine .inr (.inr ⟨true, by simp, by simp, ?_⟩)
      cases firstChar with
      | true => exact outcome_of_accepts_run (Place.takesRun_openRun _) accepts
      | false => exact outcome_of_accepts_run run accepts
    | false =>
      cases firstChar with
      | true =>
        -- The run ends here, and the flag is for the next one.
        exact .inr (.inl ⟨c :: rest, .inr rfl, by simp, outcome_of_rejects accepts rfl⟩)
      | false =>
        have needed : (toPlace group).needsOne := by simp [Place.needsOne, oneOrMore]
        exact .inl ⟨by simp, outcome_of_rejects_needed accepts needed⟩
  | zoo =>
    obtain rfl := unset (by simp [operator])
    have single : (toPlace group).takesRun = false := by
      simp [Place.takesRun, count, operator, Operator.count]
    have optional : (toPlace group).needsOne = false := by
      simp [Place.needsOne, count, operator, Operator.count]
    cases accepts : (toPlace group).accepts c with
    | true => exact .inr (.inl ⟨rest, .inl rfl, by simp, outcome_of_accepts single accepts⟩)
    | false =>
      exact .inr (.inl ⟨c :: rest, .inr rfl, by simp, outcome_of_rejects accepts optional⟩)

/-- The loop keeps what the places left of it leave of the source left of it. -/
theorem reMatchFrom_eq_outcome {fuel : ℕ}
    (counts : ∀ group, (toPlace group).count = group.operator.count)
    (agrees : ∀ group, ∀ c ∈ source, (toPlace group).accepts c = charGroupIn group c)
    (some_group : groups ≠ []) (begun : ∀ group ∈ groups.head?, firstChar → group.operator = .oom)
    (enough : groups.length + source.length < fuel) :
    reMatchFrom fuel (groups.map some) firstChar source =
      some (outcome (placesLeft toPlace firstChar groups) source) := by
  -- By induction on the fuel, with the groups, the flag and the source of each turn.
  induction fuel generalizing groups firstChar source with
  | zero => omega
  | succ fuel ih =>
    obtain ⟨group, groups, rfl⟩ := List.exists_cons_of_ne_nil some_group
    have begun : firstChar → group.operator = .oom := begun group (by simp)
    cases source with
    | nil =>
      -- The exit of the loop at the end of the source.
      rw [reMatchFrom, matchesAtEnd_map counts begun, outcome_nil]
      simp
    | cons c rest =>
      have agreesRest : ∀ group, ∀ d ∈ rest, (toPlace group).accepts d = charGroupIn group d :=
        fun group d mem => agrees group d (List.mem_cons_of_mem _ mem)
      simp only [List.length_cons] at enough
      rw [List.map_cons, reMatchFrom]
      have inSet := agrees group c List.mem_cons_self
      -- Each turn keeps the outcome; it remains that the loop makes it again on less.
      have turns := @reMatchTurn_outcome toPlace groups group firstChar c rest (counts group) inSet
        begun
      rcases turns with
        ⟨turn, kept⟩ | ⟨source, suffix, turn, kept⟩ | ⟨firstChar', begun, turn, kept⟩
      · rw [turn, kept]
      · -- Behind the last group the loop returns what is left.
        rw [turn, kept]
        cases groups with
        | nil => simp [placesLeft]
        | cons next groups =>
          rcases suffix with rfl | rfl
          · exact ih agreesRest (by simp) (by simp) (by simp only [List.length_cons] at *; omega)
          · exact ih agrees (by simp) (by simp) (by simp only [List.length_cons] at *; omega)
      · rw [turn, kept]
        -- A run that goes on keeps the groups and takes a character.
        have again : (group :: groups).length + rest.length < fuel := by
          simp only [List.length_cons]
          omega
        exact ih agreesRest (by simp) (by simpa using begun) again

/-- `re_match` leaves the outcome of its groups, as places that agree with them on the source. -/
theorem reMatch_eq_outcome {reg : Regexp} (assigned : reg.groups = groups.map some)
    (some_group : groups ≠ [])
    (counts : ∀ group, (toPlace group).count = group.operator.count)
    (agrees : ∀ group, ∀ c ∈ source, (toPlace group).accepts c = charGroupIn group c) :
    reMatch reg source = some (outcome (groups.map toPlace) source) := by
  -- The loop begins with the flag unset and fuel for every group and character.
  rw [reMatch, assigned, ← placesLeft_false]
  exact reMatchFrom_eq_outcome counts agrees some_group (by simp)
    (by rw [List.length_map]; exact Nat.lt_succ_self _)

end Loop

/-- The places left when the source runs out are judged as the walk judges them. -/
def EndsWell (left : List (Place Char)) : Prop :=
  if left.any Place.needsOne then left.map Place.count ≠ [.oneOrMore]
  else left = [] ∨ left.map Place.count = [.zeroOrMore]

/-- At the end of the source, the walk passes the places that need no character. -/
theorem passesAtEnd_iff_endsWell (left : List (Place Char)) :
    passesAtEnd left = !left.any Place.needsOne ↔ EndsWell left := by
  rcases left with _ | ⟨place, _ | ⟨next, left⟩⟩
  · simp [EndsWell, passesAtEnd]
  · -- A single place: a run is passed, and rightly so if it may be empty.
    rcases place with ⟨set, _ | _ | _ | _⟩ <;>
      simp [EndsWell, passesAtEnd, Place.needsOne, Place.takesRun]
  · -- Several places are not passed, and rightly so if one of them needs a character.
    unfold EndsWell
    cases (place :: next :: left).any Place.needsOne <;> simp [passesAtEnd]

/-- The outcome is the walk exactly where the source does not run out, or does so well. -/
theorem outcome_eq_walk_iff {places : List (Place Char)} {source : CStr} :
    outcome places source = walk places source ↔
      ∀ left, runsOut places source = some left → EndsWell left := by
  -- A source that does not run out is walked by definition.
  cases out : runsOut places source with
  | none => simp [outcome, out]
  | some left =>
    -- The walk passes the places left if none needs a character.
    rw [outcome, out, walk_of_runsOut out, walk_nil]
    simp only [Option.some.injEq, forall_eq', ← passesAtEnd_iff_endsWell]
    cases passesAtEnd left <;> cases left.any Place.needsOne <;> simp

/-- The matching of characters of seven bits is greedy, exactly unless it ends badly. -/
theorem reMatch_eq_walk_iff {reg : Regexp} {groups : List CharGroup} {source : CStr}
    (assigned : reg.groups = groups.map some) (some_group : groups ≠ [])
    (sevenBit : ∀ c ∈ source, c.toNat < 128) :
    reMatch reg source = some (walk (groups.map CharGroup.place) source) ↔
      ∀ left, runsOut (groups.map CharGroup.place) source = some left → EndsWell left := by
  -- On characters of seven bits, the flags of a group are what `char_group_in` finds.
  have agrees : ∀ group : CharGroup, ∀ c ∈ source, group.place.accepts c = charGroupIn group c := by
    intro group c mem
    simp [CharGroup.place, charGroupIn, sevenBit c mem]
  rw [reMatch_eq_outcome assigned some_group (fun _ => rfl) agrees, Option.some.injEq]
  exact outcome_eq_walk_iff

/-- A run of one or more before an optional character, where the source goes on behind both. -/
theorem reMatch_eq_walk_behind :
    let groups := [charGroupSingleChar 'a' false .oom, charGroupSingleChar 'b' false .zoo]
    reMatch ⟨[], groups.map some⟩ "aac" =
      some (walk (groups.map CharGroup.place) "aac".toList) := by
  intro groups
  refine (@reMatch_eq_walk_iff ⟨[], groups.map some⟩ groups "aac" rfl (by simp [groups])
    (by simp)).mpr fun left out => ?_
  have none_left : runsOut (groups.map CharGroup.place) "aac".toList = none := by decide
  rw [none_left] at out
  cases out

/-- Two runs that may be empty, an optional last character, and a last run that is not begun. -/
theorem reMatch_ne_walk :
    let a := charGroupSingleChar 'a' false
    let b := charGroupSingleChar 'b' false
    (reMatch ⟨[], [some (a .zom), some (b .zom)]⟩ "aaa" = some none ∧
        walk [(a .zom).place, (b .zom).place] "aaa".toList = some []) ∧
      (reMatch ⟨[], [some (a .nop), some (b .zoo)]⟩ "a" = some none ∧
        walk [(a .nop).place, (b .zoo).place] "a".toList = some []) ∧
      (reMatch ⟨[], [some (a .nop), some (b .oom)]⟩ "a" = some (some []) ∧
        walk [(a .nop).place, (b .oom).place] "a".toList = none) := by
  decide

end MiniRiscV
