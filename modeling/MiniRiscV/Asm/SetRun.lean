import MiniRiscV.Asm.Greedy
import MiniRiscV.Asm.OptiRegexp

/-! Groups of one set in a row, as `opti_regexp` leaves them and `re_match` goes through them. -/

namespace MiniRiscV

open Greedy

section Operators

variable {op prev : Operator} {ops rest : List Operator} {m : ℕ}

/-- What `opti_regexp` makes of the operators of groups with the same set. -/
def mergeFrom (prev : Operator) : List Operator → List Operator
  | [] => [prev]
  | curr :: rest =>
    if prev = .zom ∧ (curr = .nop ∨ curr = .oom) then mergeFrom .oom rest
    else if prev = .oom ∧ curr = .nop then .nop :: mergeFrom .oom rest
    else prev :: mergeFrom curr rest

/-- Greedy groups of one set pass a run of exactly so many characters. -/
def Takes : List Operator → ℕ → Prop
  | [], m => m = 0
  | .nop :: _, 0 => False
  | .nop :: ops, m + 1 => Takes ops m
  | .zom :: ops, _ => Takes ops 0
  | .oom :: _, 0 => False
  | .oom :: ops, _ + 1 => Takes ops 0
  | .zoo :: ops, m => Takes ops (m - 1)

/-- The number of groups that need a character. -/
def needed (ops : List Operator) : ℕ := ops.countP fun op => op = .nop ∨ op = .oom

/-- The lengths of the runs that the groups stand for as a regular expression. -/
def LongEnough (ops : List Operator) (m : ℕ) : Prop :=
  if ops.all (· = .nop) then m = needed ops else needed ops ≤ m

/-- Only single characters come before the first run, and only runs that may be empty behind it. -/
def ready : List Operator → Bool
  | [] => true
  | .nop :: ops => ready ops
  | .zom :: ops | .oom :: ops | .zoo :: ops => ops.all (· = .zom)

/-- Behind one OOM there are NOPs and then ZOMs. -/
def behindOom : List Operator → Bool
  | .nop :: ops => behindOom ops
  | ops => ops.all (· = .zom)

/-- Behind one ZOM there is one OOM at most. -/
def behindZom : List Operator → Bool
  | .oom :: ops => behindOom ops
  | ops => behindOom ops

/-- In this order: NOPs, one ZOM at most, one OOM at most, NOPs and ZOMs. -/
def mergesToOne : List Operator → Bool
  | .nop :: ops => mergesToOne ops
  | .zom :: ops => behindZom ops
  | ops => behindZom ops

/-- Without operators no character is needed. -/
@[simp] theorem needed_nil : needed [] = 0 := rfl

/-- An operator that takes one needs one more. -/
theorem needed_cons (op : Operator) (ops : List Operator) :
    needed (op :: ops) = needed ops + if op = .nop ∨ op = .oom then 1 else 0 := by
  simp [needed, List.countP_cons]

/-- Where no character is needed, there are only runs that may be empty. -/
theorem needed_eq_zero_iff (known : ∀ op ∈ ops, op ≠ .zoo) :
    needed ops = 0 ↔ ops.all (· = .zom) := by
  -- The other two operators ask for a character.
  rw [needed, List.countP_eq_zero, List.all_eq_true]
  constructor
  · intro none op mem
    have optional := none op mem
    have noZoo := known op mem
    cases op <;> simp_all
  · intro zoms op mem
    have zom := zoms op mem
    simp only [decide_eq_true_eq] at zom
    simp [zom]

/-- Some run that is not empty is long enough. -/
theorem exists_longEnough (some_op : ops ≠ []) : ∃ m, 0 < m ∧ LongEnough ops m := by
  by_cases single : ops.all (· = .nop)
  · -- Each of the groups needs a character.
    refine ⟨needed ops, ?_, by simp [LongEnough, single]⟩
    obtain ⟨op, rest, rfl⟩ := List.exists_cons_of_ne_nil some_op
    simp only [List.all_cons, Bool.and_eq_true, decide_eq_true_eq] at single
    simp [needed_cons, single.1]
  · exact ⟨needed ops + 1, Nat.succ_pos _, by simp [LongEnough, single]⟩

/-- An empty run is passed by groups that need no character. -/
theorem takes_zero_iff (known : ∀ op ∈ ops, op ≠ .zoo) : Takes ops 0 ↔ needed ops = 0 := by
  -- By induction on the operators, of which `ZOM` alone takes nothing.
  induction ops with
  | nil => simp [Takes]
  | cons op ops ih =>
    rw [List.forall_mem_cons] at known
    cases op with
    | nop => simp [Takes, needed_cons]
    | zom => simpa [Takes, needed_cons] using ih known.2
    | oom => simp [Takes, needed_cons]
    | zoo => exact absurd rfl known.1

/-- Groups that are ready pass the runs they stand for, and other groups pass none. -/
theorem takes_iff (known : ∀ op ∈ ops, op ≠ .zoo) :
    Takes ops m ↔ ready ops ∧ LongEnough ops m := by
  -- By induction on the groups: the first run takes all that is left of the characters.
  induction ops generalizing m with
  | nil => simp [Takes, ready, LongEnough]
  | cons op ops ih =>
    rw [List.forall_mem_cons] at known
    have zeros := takes_zero_iff known.2
    have zoms := needed_eq_zero_iff known.2
    cases op with
    | nop =>
      cases m with
      | zero => simp [Takes, LongEnough, needed_cons]
      | succ m =>
        rw [Takes, ih known.2]
        by_cases single : ops.all (· = .nop) <;> simp_all [ready, LongEnough, needed_cons]
    | zom =>
      rw [Takes, zeros, ready, ← zoms]
      by_cases none : needed ops = 0 <;> simp [LongEnough, needed_cons, none]
    | oom =>
      cases m with
      | zero => simp [Takes, LongEnough, needed_cons]
      | succ m =>
        rw [Takes, zeros, ready, ← zoms]
        by_cases none : needed ops = 0 <;> simp [LongEnough, needed_cons, none]
    | zoo => exact absurd rfl known.1

/-- The pass keeps the number of characters that are needed. -/
theorem needed_mergeFrom : needed (mergeFrom prev ops) = needed (prev :: ops) := by
  -- By induction on the operators; merging and swapping keep their number.
  induction ops generalizing prev with
  | nil => rfl
  | cons curr ops ih =>
    rw [mergeFrom]
    split
    · rename_i merge
      obtain ⟨rfl, rfl | rfl⟩ := merge <;> simp [ih, needed_cons]
    · split
      · rename_i swap
        obtain ⟨rfl, rfl⟩ := swap
        simp [ih, needed_cons]
      · simp [ih, needed_cons]

/-- The pass neither makes the first run nor takes the last one away. -/
theorem all_nop_mergeFrom :
    (mergeFrom prev ops).all (· = .nop) = (prev :: ops).all (· = .nop) := by
  -- By induction on the operators; what is merged or swapped is not `NOP` alone, before and after.
  induction ops generalizing prev with
  | nil => rfl
  | cons curr ops ih =>
    rw [mergeFrom]
    split
    · rename_i merge
      obtain ⟨rfl, -⟩ := merge
      simp [ih]
    · split
      · rename_i swap
        obtain ⟨rfl, rfl⟩ := swap
        simp [ih]
      · simp [ih]

/-- The pass makes no group optional. -/
theorem known_mergeFrom (known : ∀ op ∈ prev :: ops, op ≠ .zoo) :
    ∀ op ∈ mergeFrom prev ops, op ≠ .zoo := by
  -- By induction on the operators, of which a merge makes an `OOM`.
  induction ops generalizing prev with
  | nil => exact known
  | cons curr ops ih =>
    simp only [List.forall_mem_cons] at known ih
    rw [mergeFrom]
    split
    · exact ih ⟨by simp, known.2.2⟩
    · split
      · exact List.forall_mem_cons.mpr ⟨by simp, ih ⟨by simp, known.2.2⟩⟩
      · exact List.forall_mem_cons.mpr ⟨known.1, ih known.2⟩

/-- Behind the first run, the pass leaves no run that needs a character where there was none. -/
theorem all_zom_mergeFrom (known : ∀ op ∈ prev :: ops, op ≠ .zoo) :
    (mergeFrom prev ops).all (· = .zom) = (prev :: ops).all (· = .zom) := by
  -- Both say that no character is needed.
  have merged := needed_eq_zero_iff (known_mergeFrom known)
  have before := needed_eq_zero_iff known
  rw [needed_mergeFrom] at merged
  rw [Bool.eq_iff_iff, ← merged, before]

/-- Behind an OOM, single characters are moved in front of it. -/
theorem ready_mergeFrom_oom (known : ∀ op ∈ ops, op ≠ .zoo) :
    ready (mergeFrom .oom ops) = behindOom ops := by
  -- By induction on the operators behind the `OOM`, which changes places with each `NOP`.
  induction ops with
  | nil => rfl
  | cons curr ops ih =>
    rw [List.forall_mem_cons] at known
    cases curr with
    | nop => simpa [mergeFrom, ready, behindOom] using ih known.2
    | zom =>
      have kept := all_zom_mergeFrom (List.forall_mem_cons.mpr
        ⟨show Operator.zom ≠ .zoo by simp, known.2⟩)
      simpa [mergeFrom, ready, behindOom] using kept
    | oom =>
      have kept := all_zom_mergeFrom (List.forall_mem_cons.mpr
        ⟨show Operator.oom ≠ .zoo by simp, known.2⟩)
      simpa [mergeFrom, ready, behindOom] using kept
    | zoo => exact absurd rfl known.1

/-- A ZOM takes in one group that needs a character. -/
theorem ready_mergeFrom_zom (known : ∀ op ∈ ops, op ≠ .zoo) :
    ready (mergeFrom .zom ops) = behindZom ops := by
  -- The first operator is merged with the `ZOM`, or ends the merging.
  cases ops with
  | nil => rfl
  | cons curr ops =>
    rw [List.forall_mem_cons] at known
    cases curr with
    | nop => simpa [mergeFrom, behindZom, behindOom] using ready_mergeFrom_oom known.2
    | oom => simpa [mergeFrom, behindZom] using ready_mergeFrom_oom known.2
    | zom =>
      have kept := all_zom_mergeFrom (List.forall_mem_cons.mpr
        ⟨show Operator.zom ≠ .zoo by simp, known.2⟩)
      simpa [mergeFrom, ready, behindZom, behindOom] using kept
    | zoo => exact absurd rfl known.1

/-- The pass makes groups ready exactly when they merge to one run. -/
theorem ready_mergeFrom (known : ∀ op ∈ prev :: ops, op ≠ .zoo) :
    ready (mergeFrom prev ops) = mergesToOne (prev :: ops) := by
  -- By induction on the groups in front of the first run.
  induction ops generalizing prev with
  | nil => cases prev <;> simp_all [mergeFrom, ready, mergesToOne, behindZom, behindOom]
  | cons curr ops ih =>
    rw [List.forall_mem_cons] at known
    cases prev with
    | nop => simpa [mergeFrom, ready, mergesToOne] using ih known.2
    | zom => exact ready_mergeFrom_zom known.2
    | oom => exact ready_mergeFrom_oom known.2
    | zoo => exact absurd rfl known.1

end Operators

section Groups

variable {run groups : List CharGroup} {group last prev : CharGroup} {set : BitVec 256}
  {text : CStr} {c : Char}

/-- Groups with one set, and a last group, pass a run and one more character as they take it. -/
theorem outcome_eq_nil_iff (known : ∀ group ∈ groups, group.operator ≠ .zoo)
    (single : last.operator = .nop) (ends : charGroupIn last c)
    (within : ∀ d ∈ text, charGroupIn last d = false ∧ ∀ group ∈ groups, charGroupIn group d)
    (outside : ∀ group ∈ groups, charGroupIn group c = false) :
    outcome ((groups ++ [last]).map CharGroup.placeIn) (text ++ [c]) = some [] ↔
      Takes (groups.map CharGroup.operator) text.length := by
  have lastSingle : last.placeIn.takesRun = false := by
    simp [CharGroup.placeIn, Place.takesRun, single, Operator.count]
  have lastNeeds : last.placeIn.needsOne := by
    simp [CharGroup.placeIn, Place.needsOne, single, Operator.count]
  -- By induction on the groups, the first of which takes a character or all of them.
  induction groups generalizing text with
  | nil =>
    cases text with
    | nil =>
      change outcome [last.placeIn] [c] = some [] ↔ 0 = 0
      rw [outcome_of_accepts lastSingle ends]
      simp
    | cons d text =>
      have rejects := (within d List.mem_cons_self).1
      change outcome [last.placeIn] (d :: (text ++ [c])) = some [] ↔ text.length + 1 = 0
      rw [outcome_of_rejects_needed rejects lastNeeds]
      simp
  | cons group groups ih =>
    rw [List.forall_mem_cons] at known outside
    have rejects : group.placeIn.accepts c = false := outside.1
    -- Behind a run, the last character comes next.
    have behind : outcome ((groups ++ [last]).map CharGroup.placeIn) [c] = some [] ↔
        Takes (groups.map CharGroup.operator) 0 :=
      @ih [] known.2 (fun d mem => absurd mem List.not_mem_nil) outside.2
    have accepted : ∀ d ∈ text, group.placeIn.accepts d := fun d mem =>
      (within d mem).2 group List.mem_cons_self
    rw [List.cons_append, List.map_cons, List.map_cons]
    cases operator : group.operator with
    | nop =>
      have groupSingle : group.placeIn.takesRun = false := by
        simp [CharGroup.placeIn, Place.takesRun, operator, Operator.count]
      cases text with
      | nil =>
        have needs : group.placeIn.needsOne := by
          simp [CharGroup.placeIn, Place.needsOne, operator, Operator.count]
        rw [List.nil_append, outcome_of_rejects_needed rejects needs]
        simp [Takes]
      | cons d text =>
        rw [List.forall_mem_cons] at accepted
        rw [List.cons_append, outcome_of_accepts groupSingle accepted.1]
        refine ih known.2 (fun e mem => ?_) outside.2
        obtain ⟨other, inGroups⟩ := within e (List.mem_cons_of_mem d mem)
        exact ⟨other, (List.forall_mem_cons.mp inGroups).2⟩
    | zom =>
      have zeroOrMore : group.placeIn.count = .zeroOrMore := by
        simp [CharGroup.placeIn, operator, Operator.count]
      rw [← Place.openRun_of_zeroOrMore zeroOrMore, outcome_openRun accepted,
        outcome_openRun_ends rejects, behind, Takes]
    | oom =>
      cases text with
      | nil =>
        have needs : group.placeIn.needsOne := by
          simp [CharGroup.placeIn, Place.needsOne, operator, Operator.count]
        rw [List.nil_append, outcome_of_rejects_needed rejects needs]
        simp [Takes]
      | cons d text =>
        have isRun : group.placeIn.takesRun := by
          simp [CharGroup.placeIn, Place.takesRun, operator, Operator.count]
        rw [List.forall_mem_cons] at accepted
        rw [List.cons_append, outcome_of_accepts_run isRun accepted.1,
          outcome_openRun accepted.2, outcome_openRun_ends rejects, behind]
        rfl
    | zoo => exact absurd operator known.1

/-- In front of a group with another set, the pass merges the operators of one set. -/
theorem optiRegexpFrom_sameSet {rest : List CharGroup} (same : ∀ group ∈ prev :: rest,
    group.group = set) (other : last.group ≠ set) :
    ∃ groups, optiRegexpFrom prev ((rest ++ [last]).map some) =
        some ((groups ++ [last]).map some) ∧ (∀ group ∈ groups, group.group = set) ∧
      groups.map CharGroup.operator = mergeFrom prev.operator (rest.map CharGroup.operator) := by
  -- By induction on the groups behind the current one.
  induction rest generalizing prev with
  | nil =>
    have apart : prev.group ≠ last.group := by
      rw [same prev List.mem_cons_self]
      exact other.symm
    refine ⟨[prev], ?_, same, rfl⟩
    simp [optiRegexpFrom, apart]
  | cons curr rest ih =>
    simp only [List.forall_mem_cons] at same ih
    obtain ⟨prevSet, currSet, restSet⟩ := same
    have equal : prev.group = curr.group := prevSet.trans currSet.symm
    rw [List.cons_append, List.map_cons, optiRegexpFrom, if_pos equal, List.map_cons, mergeFrom]
    split
    · exact @ih { prev with operator := .oom } ⟨prevSet, restSet⟩
    · split
      · obtain ⟨groups, pass, sets, operators⟩ := @ih { curr with operator := .oom }
          ⟨currSet, restSet⟩
        refine ⟨{ prev with operator := .nop } :: groups, by rw [pass]; rfl, ?_,
          by simp [operators]⟩
        exact List.forall_mem_cons.mpr ⟨prevSet, sets⟩
      · obtain ⟨groups, pass, sets, operators⟩ := @ih curr ⟨currSet, restSet⟩
        refine ⟨prev :: groups, by rw [pass]; rfl, ?_, by simp [operators]⟩
        exact List.forall_mem_cons.mpr ⟨prevSet, sets⟩

/-- Groups with one set in a row, and behind them one character that is not in the set. -/
structure SetRun (run : List CharGroup) (last : CharGroup) (set : BitVec 256) : Prop where
  some_group : run ≠ []
  sets : ∀ group ∈ run, group.group = set
  operators : ∀ group ∈ run, group.operator ≠ .zoo
  single : last.operator = .nop
  disjoint : last.group &&& set = 0

/-- What `opti_regexp` leaves is matched with all the texts that the groups stand for. -/
def MatchedComplete (run : List CharGroup) (last : CharGroup) : Prop :=
  ∃ groups, optiRegexp ((run ++ [last]).map some) = some groups ∧
    ∀ (name text : CStr) (c : Char), (∀ d ∈ text, ∀ group ∈ run, charGroupIn group d) →
      charGroupIn last c →
      (reMatch { name, groups } (text ++ [c]) = some (some []) ↔
        LongEnough (run.map CharGroup.operator) text.length)

/-- A character is in one of two disjoint sets at most. -/
theorem charGroupIn_of_disjoint (disjoint : last.group &&& group.group = 0) (d : Char) :
    charGroupIn last d = false ∨ charGroupIn group d = false := by
  -- No flag is set in both words.
  have bit := congrArg (fun set : BitVec 256 => set.getLsbD d.toNat) disjoint
  simp only [BitVec.getLsbD_and] at bit
  unfold charGroupIn
  cases inLast : last.group.getLsbD d.toNat <;> simp_all

/-- Only the set of a group decides which characters are in it. -/
theorem charGroupIn_congr {group' : CharGroup} (same : group.group = group'.group) (d : Char) :
    charGroupIn group d = charGroupIn group' d := by
  rw [charGroupIn, charGroupIn, same]

/-- Merging the operators does not change which lengths are enough. -/
theorem longEnough_mergeFrom (prev : Operator) (ops : List Operator) (m : ℕ) :
    LongEnough (mergeFrom prev ops) m ↔ LongEnough (prev :: ops) m := by
  rw [LongEnough, LongEnough, all_nop_mergeFrom, needed_mergeFrom]

/-- What is left of a run takes the texts it stands for if the run merges to one, or is empty. -/
theorem SetRun.matched (setRun : SetRun run last set) (some_last : ∃ c, charGroupIn last c) :
    ∃ groups, optiRegexp ((run ++ [last]).map some) = some groups ∧
      ∀ (name text : CStr) (c : Char), (∀ d ∈ text, ∀ group ∈ run, charGroupIn group d) →
        charGroupIn last c →
        (reMatch { name, groups } (text ++ [c]) = some (some []) ↔
          (text = [] ∨ mergesToOne (run.map CharGroup.operator)) ∧
            LongEnough (run.map CharGroup.operator) text.length) := by
  obtain ⟨prev, rest, rfl⟩ := List.exists_cons_of_ne_nil setRun.some_group
  have prevSet : prev.group = set := setRun.sets prev List.mem_cons_self
  have disjoint : last.group &&& prev.group = 0 := by
    rw [prevSet]
    exact setRun.disjoint
  -- The last set has a character, so it is another one.
  have other : last.group ≠ set := by
    intro same
    obtain ⟨c, inLast⟩ := some_last
    rcases charGroupIn_of_disjoint disjoint c with outLast | outPrev
    · simp [inLast] at outLast
    · rw [← charGroupIn_congr (same.trans prevSet.symm), inLast] at outPrev
      cases outPrev
  obtain ⟨groups, pass, sets, operators⟩ := optiRegexpFrom_sameSet setRun.sets other
  have knownRun : ∀ op ∈ (prev :: rest).map CharGroup.operator, op ≠ .zoo := by
    rw [List.forall_mem_map]
    exact setRun.operators
  have knownLeft : ∀ op ∈ groups.map CharGroup.operator, op ≠ .zoo := by
    rw [operators]
    exact known_mergeFrom knownRun
  have knownGroups : ∀ group ∈ groups, group.operator ≠ .zoo := fun group mem =>
    knownLeft _ (List.mem_map_of_mem mem)
  refine ⟨_, pass, fun name text c inRun inLast => ?_⟩
  have inPrev {group : CharGroup} (mem : group ∈ groups) (d : Char) :
      charGroupIn group d = charGroupIn prev d :=
    charGroupIn_congr ((sets group mem).trans prevSet.symm) d
  -- The loop of `re_match` is the walk through the places of these groups.
  have loop : reMatch { name, groups := (groups ++ [last]).map some } (text ++ [c]) =
      some (outcome ((groups ++ [last]).map CharGroup.placeIn) (text ++ [c])) :=
    reMatch_eq_outcome rfl (by simp) (fun _ => rfl) fun _ _ _ => rfl
  have within : ∀ d ∈ text, charGroupIn last d = false ∧ ∀ group ∈ groups, charGroupIn group d := by
    intro d mem
    have inPrev' := inRun d mem prev List.mem_cons_self
    refine ⟨(charGroupIn_of_disjoint disjoint d).resolve_right (by simp [inPrev']), ?_⟩
    intro group member
    rw [inPrev member]
    exact inPrev'
  have outside : ∀ group ∈ groups, charGroupIn group c = false := by
    intro group member
    rw [inPrev member]
    exact (charGroupIn_of_disjoint disjoint c).resolve_left (by simp [inLast])
  rw [loop, Option.some.injEq, outcome_eq_nil_iff knownGroups setRun.single inLast within
    outside, operators]
  rw [operators] at knownLeft
  -- An empty text is taken as soon as no character is needed.
  cases text with
  | nil =>
    rw [List.length_nil, takes_zero_iff knownLeft, needed_mergeFrom]
    simp only [true_or, true_and, LongEnough]
    split
    · exact eq_comm
    · exact Nat.le_zero.symm
  | cons d text =>
    rw [takes_iff knownLeft, longEnough_mergeFrom, ready_mergeFrom knownRun]
    simp

/--
Matching is complete on a run of one set exactly when the pass makes one run of it.

A single pass from left to right does so when the operators come in this order: NOPs, one ZOM at
most, one OOM at most, NOPs, ZOMs.
-/
theorem matchedComplete_iff (setRun : SetRun run last set) :
    MatchedComplete run last ↔ ((∃ d, ∀ group ∈ run, charGroupIn group d) →
      (∃ c, charGroupIn last c) → mergesToOne (run.map CharGroup.operator)) := by
  by_cases some_last : ∃ c, charGroupIn last c
  · obtain ⟨groups, pass, matched⟩ := setRun.matched some_last
    constructor
    · -- The shortest text of the run is matched, which only groups that merge do.
      rintro ⟨groups', pass', complete⟩ ⟨d, inRun⟩ ⟨c, inLast⟩
      obtain rfl := Option.some.inj (pass.symm.trans pass')
      obtain ⟨m, positive, long⟩ :=
        exists_longEnough (show run.map CharGroup.operator ≠ [] by simpa using setRun.some_group)
      have inText : ∀ e ∈ List.replicate m d, ∀ group ∈ run, charGroupIn group e := by
        intro e mem
        rw [List.eq_of_mem_replicate mem]
        exact inRun
      have taken := (complete [] _ c inText inLast).mpr (by rwa [List.length_replicate])
      rcases ((matched [] _ c inText inLast).mp taken).1 with empty | merges
      · rw [List.replicate_eq_nil_iff] at empty
        omega
      · exact merges
    · intro merges
      refine ⟨groups, pass, fun name text c inRun inLast => ?_⟩
      rw [matched name text c inRun inLast]
      cases text with
      | nil => simp
      | cons d text =>
        simp [merges ⟨d, inRun d List.mem_cons_self⟩ some_last]
  · -- Without a last character there is no text.
    obtain ⟨groups, pass, -⟩ := optiRegexp_language (run ++ [last])
    refine iff_of_true ⟨_, pass, fun name text c _ inLast => ?_⟩ fun _ ends => absurd ends some_last
    exact absurd ⟨c, inLast⟩ some_last

/-- `a*ab`, the first of the cases that the pass is for. -/
theorem matchedComplete_zomNop :
    MatchedComplete [charGroupSingleChar 'a' false .zom, charGroupSingleChar 'a' false .nop]
      (charGroupSingleChar 'b' false .nop) :=
  (matchedComplete_iff
    { some_group := by simp
      sets := by
        simp only [List.forall_mem_cons]
        exact ⟨rfl, rfl, by simp⟩
      operators := by simp [charGroupSingleChar]
      single := rfl
      disjoint := by decide }).mpr fun _ _ => by decide

/-- Of `a*a*ab` the pass leaves `a*a+b`, which it would have merged, and `ab` is not matched. -/
theorem not_matchedComplete_zomZomNop :
    ¬ MatchedComplete [charGroupSingleChar 'a' false .zom, charGroupSingleChar 'a' false .zom,
      charGroupSingleChar 'a' false .nop] (charGroupSingleChar 'b' false .nop) := by
  rintro ⟨groups, pass, complete⟩
  have left : optiRegexp [some (charGroupSingleChar 'a' false .zom),
      some (charGroupSingleChar 'a' false .zom), some (charGroupSingleChar 'a' false .nop),
      some (charGroupSingleChar 'b' false .nop)] =
        some [some (charGroupSingleChar 'a' false .zom), some (charGroupSingleChar 'a' false .oom),
          some (charGroupSingleChar 'b' false .nop)] := by
    decide
  obtain rfl := Option.some.inj (left.symm.trans pass)
  have unmatched : reMatch { name := [], groups := [some (charGroupSingleChar 'a' false .zom),
      some (charGroupSingleChar 'a' false .oom), some (charGroupSingleChar 'b' false .nop)] }
        "ab" = some none := by
    decide
  have matched := (complete [] ['a'] 'b' (List.forall_mem_singleton.mpr (by decide))
    (by decide)).mpr (by simp [charGroupSingleChar, LongEnough, needed])
  cases unmatched.symm.trans matched

end Groups

end MiniRiscV
