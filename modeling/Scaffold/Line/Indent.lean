/-!
# Indentation

The tabs and spaces in front of a line. A tab is one level and four spaces are one level; spaces
that do not fill a level count for nothing, and tabs and spaces may be interleaved in any way.
-/

namespace Scaffold

/-- The number of spaces that make one level. -/
def spacesPerLevel : Nat := 4

/-- What stands in front of a line. -/
inductive Indent where
  | none
  | tabs (n : Nat)
  | spaces (n : Nat)
  /-- Both tabs and spaces, in any order. -/
  | mixed (tabs spaces : Nat)
deriving DecidableEq, Repr

namespace Indent

/-- The characters that indent a line. -/
def isIndentChar (c : Char) : Bool := c == '\t' || c == ' '

/-- The indentation made of `tabs` tabs and `spaces` spaces. -/
def ofCounts : Nat → Nat → Indent
  | 0, 0 => none
  | t, 0 => tabs t
  | 0, s => spaces s
  | t, s => mixed t s

/-- The indentation of a line. -/
def measure (line : String) : Indent :=
  let lead := line.toList.takeWhile isIndentChar
  ofCounts (lead.count '\t') (lead.count ' ')

/-- The level that an indentation reaches. -/
def depth : Indent → Nat
  | none => 0
  | tabs t => t
  | spaces s => s / spacesPerLevel
  | mixed t s => t + s / spacesPerLevel

/-- The depth of an indentation does not depend on its shape. -/
theorem depth_ofCounts (t s : Nat) : (ofCounts t s).depth = t + s / spacesPerLevel := by
  unfold ofCounts
  split <;> simp [depth, spacesPerLevel]

end Indent

/-- The level of a line. -/
def depthOf (line : String) : Nat := (Indent.measure line).depth

end Scaffold
