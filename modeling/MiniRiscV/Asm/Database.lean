import MiniRiscV.Asm.Lexer
import MiniRiscV.Asm.Grammar

/-! `database.txt`, and the regular expressions that are read from it. -/

namespace MiniRiscV

/-- The lines of `database.txt`. -/
def databaseLines : List String :=
  ["# Structure du texte du code", "blank\t\t\t\t\t\t[ \\t]+", "newline\t\t\t\t\t\t\\n+",
    "comment\t\t\t\t\t\t;[^\\n]*", "comma\t\t\t\t\t\t,",
    "label\t\t\t\t\t\t[a-zA-Z_\\.][a-zA-Z_0-9\\.]*:", "", "# Instructions",
    "insn::NOP\t\t\t\t\tnop", "insn::ADDI\t\t\t\t\taddi", "insn::ADD\t\t\t\t\tadd",
    "insn::ANDI\t\t\t\t\tandi", "insn::AND\t\t\t\t\tand", "insn::BEQ\t\t\t\t\tbeq",
    "insn::SLLI\t\t\t\t\tslli", "insn::SRLI\t\t\t\t\tsrli", "insn::SLL\t\t\t\t\tsll",
    "insn::SRL\t\t\t\t\tsrl", "insn::ORI\t\t\t\t\tori", "insn::OR\t\t\t\t\tor",
    "insn::BNE\t\t\t\t\tbne", "insn::XORI\t\t\t\t\txori", "insn::XOR\t\t\t\t\txor",
    "insn::BGEU\t\t\t\t\tbgeu", "insn::BGE\t\t\t\t\tbge", "insn::SLTIU\t\t\t\t\tsltiu",
    "insn::SLTI\t\t\t\t\tslti", "insn::SLTU\t\t\t\t\tsltu", "insn::SLT\t\t\t\t\tslt",
    "insn::SRAI\t\t\t\t\tsrai", "insn::SRA\t\t\t\t\tsra", "insn::LUI\t\t\t\t\tlui",
    "insn::AUIPC\t\t\t\t\tauipc", "insn::BLTU\t\t\t\t\tbltu", "insn::BLT\t\t\t\t\tblt",
    "insn::LBU\t\t\t\t\tlbu", "insn::LHU\t\t\t\t\tlhu", "insn::LB\t\t\t\t\tlb",
    "insn::LH\t\t\t\t\tlh", "insn::LW\t\t\t\t\tlw", "insn::SB\t\t\t\t\tsb",
    "insn::SW\t\t\t\t\tsw", "insn::SH\t\t\t\t\tsh", "insn::JALR\t\t\t\t\tjalr",
    "insn::JAL\t\t\t\t\tjal", "insn::SUB\t\t\t\t\tsub", "", "# Instructions non supporté",
    "unsinsn::J                  j", "unsinsn::LI                 li",
    "unsinsn::MV                 mv", "unsinsn::BLE                ble", "",
    "# Description des constantes", "#integer::hex\t\t\t\t0x[0-9A-Za-z]+",
    "integer::dec\t\t\t\t[\\-+]?[0-9]+", "symbole::register\t\t\tr[0-9]+",
    "symbole::register\t\t\tzero", "symbole::register\t\t\tpc", "symbole::register\t\t\ts[01p]",
    "symbole::register\t\t\ta[0-7]", "symbole::register\t\t\tra",
    "symbole::label\t\t\t\t[a-zA-Z_\\.][a-zA-Z_0-9\\.]*", "",
    "# Parenthèses, crochets et double points", "paren::left\t\t\t\t\t(",
    "paren::right\t\t\t\t)", "#colon\t\t\t\t\t\t:"]

/-- The bytes of a text, of which an accented letter has two. -/
def bytes (text : String) : CStr := text.toByteArray.data.toList.map fun b => Char.ofNat b.toNat

/-- The contents of `database.txt`. -/
def databaseText : CStr := databaseLines.flatMap (bytes · ++ ['\n'])

/-- The regular expressions of `database.txt`. -/
def database : List Regexp := (regexpRead databaseText).getD []

/-- `regexp_read` makes the expressions listed here of `database.txt`. -/
theorem regexpRead_databaseText : regexpRead databaseText = some database := by
  -- The file is read without a crash, so the default is not used.
  have defined : (regexpRead databaseText).isSome := by decide +kernel
  unfold database
  cases read : regexpRead databaseText with
  | none => simp [read] at defined
  | some regexps => rfl

/-- Each expression of the file takes a character, and has a name that the grammar knows. -/
theorem database_sound : ∀ regexp ∈ database,
    regexp.sound ∧ cString regexp.name ∈ typeNames.map String.toList := by
  decide +kernel

/-- Every source is split into lexemes whose types are names of `database.txt`. -/
theorem lexemRead_database (content : CStr) :
    ∃ code lexems, lexemRead content database = some (code, lexems) ∧ Named lexems := by
  -- No name of the table is empty.
  have named : ∀ regexp ∈ database, cString regexp.name ≠ [] := by
    intro regexp mem empty
    have known := (database_sound regexp mem).2
    rw [empty] at known
    obtain ⟨name, mem, nothing⟩ := List.mem_map.mp known
    rw [String.toList_eq_nil_iff] at nothing
    simp [nothing, typeNames] at mem
  -- The reading comes to an end, and the types are names of expressions.
  obtain ⟨⟨code, lexems⟩, read⟩ := Option.isSome_iff_exists.mp
    (lexemRead_isSome (progress_of_sound (fun regexp mem => (database_sound regexp mem).1) content)
      named)
  refine ⟨code, lexems, read, fun lex mem => ?_⟩
  obtain ⟨regexp, mem, type⟩ := (lexemRead_lexes read).types lex mem
  obtain ⟨name, known, same⟩ := List.mem_map.mp (database_sound regexp mem).2
  exact ⟨name, known, type.trans same.symm⟩

end MiniRiscV
