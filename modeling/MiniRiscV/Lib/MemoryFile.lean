import MiniRiscV.Lib.BinaryText

/-! Files of words, as they are read into a memory. -/

namespace BitVec

variable {w : ℕ}

/-- A character between the words of a file. -/
def isSpace (c : Char) : Bool := c ∈ [' ', '\t', '\n', '\r', '\x0c']

end BitVec
