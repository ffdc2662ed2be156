import Scaffold.Line.Indent
import Scaffold.Line.Kind

/-!
# Lines of a structure

A line that is not blank, with its number, its indentation and what it asks for.
-/

namespace Scaffold

/-- A line of a structure. -/
structure Line where
  number : Nat
  indent : Indent
  kind : LineKind
deriving DecidableEq, Repr

namespace Line

/-- Reads a line; a blank one is none. -/
def parse? (number : Nat) (raw : String) : Option Line :=
  let trimmed := Text.trim raw
  if trimmed.isEmpty then none else some ⟨number, Indent.measure raw, LineKind.classify trimmed⟩

/-- The level of a line. -/
def depth (line : Line) : Nat := line.indent.depth

end Line

end Scaffold
