import MiniRiscV.Asm.Concatenation

/-! Programs whose lexemes are changed one by one, and keep their types: the lines follow. -/

namespace MiniRiscV

/-- A change of lexemes that keeps their types, and the change of lines that it makes. -/
structure Follows (f : Lexem → Lexem) (g : AsmLine → AsmLine) : Prop where
  types : ∀ lex, (f lex).type = lex.type
  label : ∀ lex addr, lexemType lex "label" →
    asmLineLabelAdd [] (f lex).value addr = (asmLineLabelAdd [] lex.value addr).map g
  emit : ∀ prod ∈ productions, ∀ taken addr, Fit prod.terms taken →
    prod.emit (taken.map f) addr = (prod.emit taken addr).map g

namespace Follows

variable {f : Lexem → Lexem} {g : AsmLine → AsmLine} {lexems taken rest : List Lexem}
  {addr addr' : ℤ} {lines : List AsmLine} {terms : List (List String)}

/-- A lexeme is of the types that it was of. -/
theorem lexemType_eq (follows : Follows f g) (lex : Lexem) :
    lexemType (f lex) = lexemType lex := by
  funext type
  rw [lexemType, lexemType, follows.types]

/-- The type of the first lexeme is the one that it had. -/
theorem startsWith_eq (follows : Follows f g) (types : List String) :
    startsWith types (lexems.map f) = startsWith types lexems := by
  cases lexems with
  | nil => rfl
  | cons lex lexems => simp [startsWith, follows.lexemType_eq]

/-- The same lexemes are skipped. -/
theorem skip_eq (follows : Follows f g) (type : String) :
    skip type (lexems.map f) = (skip type lexems).map f := by
  rw [skip, skip, follows.startsWith_eq]
  split
  · rw [List.map_tail]
  · rfl

/-- The same lexemes are an end of line. -/
theorem readEnd_eq (follows : Follows f g) :
    readEnd (lexems.map f) = (readEnd lexems).map (List.map f) := by
  -- An optional blank and comment, and then a newline.
  rw [readEnd, follows.skip_eq, follows.skip_eq, readEnd]
  cases skip "comment" (skip "blank" lexems) with
  | nil => rfl
  | cons newline behind =>
    simp only [List.map_cons, follows.lexemType_eq]
    split
    · rw [follows.skip_eq, Option.map_some]
    · rfl

/-- The lexemes fit the terminals that they did. -/
theorem fit (follows : Follows f g) (fit : Fit terms taken) : Fit terms (taken.map f) := by
  refine List.forall₂_map_right_iff.mpr (fit.imp fun types lex isType => ?_)
  simpa only [follows.lexemType_eq] using isType

/-- Items stay items, and their lines follow. -/
theorem items (follows : Follows f g) (items : Items lexems addr lines addr') :
    Items (lexems.map f) addr (lines.map g) addr' := by
  -- By induction on the items.
  induction items with
  | nil => exact .nil
  | @label lex _ _ _ _ isLabel _ ih =>
    rw [List.map_append, List.map_cons, ← follows.label _ _ isLabel]
    exact .label (by rw [follows.lexemType_eq, isLabel]) ih
  | @insn prod lexems taken rest addr addr' lines mem matched _ ih =>
    obtain ⟨rfl, fit⟩ := matchTerms_eq_some.mp matched
    rw [List.map_append, List.map_append, ← follows.emit prod mem taken addr fit]
    refine .insn mem (matchTerms_eq_some.mpr ⟨rfl, follows.fit fit⟩) ?_
    rw [follows.emit prod mem taken addr fit, List.length_map]
    exact ih
  | eol ends _ ih => exact .eol (by rw [follows.readEnd_eq, ends, Option.map_some]) ih

/-- Only items become items. -/
theorem exists_items (follows : Follows f g) (items : Items (lexems.map f) addr lines addr') :
    ∃ before, Items lexems addr before addr' := by
  generalize shape : lexems.map f = changed at items
  -- By induction on the items of the changed lexemes.
  induction items generalizing lexems with
  | nil =>
    obtain rfl := List.map_eq_nil_iff.mp shape
    exact ⟨[], .nil⟩
  | label isLabel _ ih =>
    obtain ⟨lex, rest, rfl, rfl, behind⟩ := List.map_eq_cons_iff.mp shape
    obtain ⟨before, items⟩ := ih behind
    rw [follows.lexemType_eq] at isLabel
    exact ⟨_, .label isLabel items⟩
  | @insn prod _ _ _ addr _ _ mem matched _ ih =>
    obtain ⟨rfl, fit⟩ := matchTerms_eq_some.mp matched
    obtain ⟨taken, rest, rfl, rfl, behind⟩ := List.map_eq_append_iff.mp shape
    have fit : Fit prod.terms taken := by
      refine (List.forall₂_map_right_iff.mp fit).imp fun types lex isType => ?_
      simpa only [follows.lexemType_eq] using isType
    obtain ⟨before, items⟩ := ih behind
    rw [follows.emit prod mem taken addr fit, List.length_map] at items
    exact ⟨_, .insn mem (matchTerms_eq_some.mpr ⟨rfl, fit⟩) items⟩
  | eol ends _ ih =>
    rw [← shape, follows.readEnd_eq] at ends
    obtain ⟨rest, ends, behind⟩ := Option.map_eq_some_iff.mp ends
    obtain ⟨before, items⟩ := ih behind
    exact ⟨before, .eol ends items⟩

/-- The parser accepts the same programs. -/
theorem accepted_iff (follows : Follows f g) : Accepted (lexems.map f) ↔ Accepted lexems := by
  -- The parser accepts items behind an optional comment, and these are the same.
  rw [Accepted, Accepted, parseCode_accepts_iff, parseCode_accepts_iff]
  change (∃ lines addr, Items (skip "comment" (lexems.map f)) 0 lines addr) ↔
    ∃ lines addr, Items (skip "comment" lexems) 0 lines addr
  rw [follows.skip_eq]
  constructor
  · rintro ⟨lines, addr, items⟩
    obtain ⟨before, items⟩ := follows.exists_items items
    exact ⟨before, addr, items⟩
  · rintro ⟨lines, addr, items⟩
    exact ⟨_, addr, follows.items items⟩

/-- The lines of a program follow, if those that are added to it stay as they are. -/
theorem parsedLines_eq (follows : Follows f g) (start : (progStart 0).map g = progStart 0)
    (loop : ∀ addr, (progLoop addr).map g = progLoop addr) (accepted : Accepted lexems) :
    parsedLines (lexems.map f) = (parsedLines lexems).map g := by
  obtain ⟨lines, addr, items⟩ := accepted_items accepted
  -- The lines of the items follow, and those around them are kept.
  have changed := follows.items items
  rw [← follows.skip_eq] at changed
  rw [changed.parsed.2, items.parsed.2, List.map_append, List.map_append, start, loop]

/-- The lines of a program depend on the types and the values of its lexemes, and on no place. -/
theorem of_values (types : ∀ lex, (f lex).type = lex.type)
    (values : ∀ lex, (f lex).value = lex.value) : Follows f id where
  types := types
  label lex addr _ := by rw [values, List.map_id]
  emit prod mem taken addr fit := by
    rw [List.map_id]
    simp only [productions, List.mem_cons, List.not_mem_nil, or_false] at mem
    rcases mem with rfl | rfl | rfl | rfl | rfl | rfl | rfl | rfl | rfl | rfl | rfl
    all_goals
      -- One lexeme for each terminal, and none behind the last.
      repeat
        obtain ⟨_, _, -, later, rfl⟩ := List.forall₂_cons_left_iff.mp fit
        clear fit
        rename' later => fit
      obtain rfl := List.forall₂_nil_left_iff.mp fit
      simp only [List.map_cons, List.map_nil, insnRegreg, insnImm, insnLoad, insnStore, insnBranch,
        insnJal, insnJalr, insnUpper, unsninsnJ, unsninsnLi, unsninsnMv, types, values]

/-- Without a change of the lines, a program has the lines that it had. -/
theorem parsedLines_id (follows : Follows f id) (accepted : Accepted lexems) :
    parsedLines (lexems.map f) = parsedLines lexems := by
  rw [follows.parsedLines_eq (List.map_id _) (fun _ => List.map_id _) accepted, List.map_id]

end Follows

end MiniRiscV
