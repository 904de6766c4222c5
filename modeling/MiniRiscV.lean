import MiniRiscV.Rtl.Arithmetic
import MiniRiscV.Rtl.Comparison
import MiniRiscV.Rtl.Delayed
import MiniRiscV.Rtl.Fetch
import MiniRiscV.Rtl.Forwarding
import MiniRiscV.Rtl.Link
import MiniRiscV.Rtl.Loads
import MiniRiscV.Rtl.NotTaken
import MiniRiscV.Rtl.Operands
import MiniRiscV.Rtl.PastEnd
import MiniRiscV.Rtl.PcRelative
import MiniRiscV.Rtl.Redirect
import MiniRiscV.Rtl.Reset
import MiniRiscV.Rtl.SetLess
import MiniRiscV.Asm.AsmLine
import MiniRiscV.Asm.Assembling
import MiniRiscV.Asm.Brackets
import MiniRiscV.Asm.Digits
import MiniRiscV.Asm.Encoding
import MiniRiscV.Asm.Grammar
import MiniRiscV.Asm.Labels
import MiniRiscV.Asm.Layout
import MiniRiscV.Asm.Offsets
import MiniRiscV.Asm.CharGroup
import MiniRiscV.Asm.Database
import MiniRiscV.Asm.Loading
import MiniRiscV.Asm.Main
import MiniRiscV.Asm.OptiRegexp
import MiniRiscV.Asm.Queue
import MiniRiscV.Asm.References
import MiniRiscV.Asm.Comments
import MiniRiscV.Asm.Renaming
import MiniRiscV.Asm.Segmentation
import MiniRiscV.Asm.SetRun
import MiniRiscV.Asm.Verbose
import MiniRiscV.Asm.Truncation
import MiniRiscV.Asm.WellFormed
import MiniRiscV.System.BranchDelay
import MiniRiscV.System.Repeated
