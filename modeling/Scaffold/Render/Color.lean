/-!
# Terminal colours

A text between the sequence that switches a style on and the one that switches it off.
-/

namespace Scaffold

/-- The styles that are used, with the number that switches each on. -/
inductive TextStyle where
  | bold | dimmed | red | green | yellow | blue | magenta | cyan | white | brightBlue
deriving DecidableEq, Repr

namespace TextStyle

/-- The number that switches a style on. -/
def onCode : TextStyle → Nat
  | bold => 1
  | dimmed => 2
  | red => 31
  | green => 32
  | yellow => 33
  | blue => 34
  | magenta => 35
  | cyan => 36
  | white => 37
  | brightBlue => 94

/-- The number that switches a style off: the weight of the text goes back to normal together with
everything else, its colour alone. -/
def offCode : TextStyle → Nat
  | bold | dimmed => 0
  | _ => 39

/-- The sequence for a number. -/
def sequence (code : Nat) : String := "\x1b[" ++ toString code ++ "m"

/-- A text in a style. -/
def paint (style : TextStyle) (s : String) : String :=
  sequence style.onCode ++ s ++ sequence style.offCode

end TextStyle

end Scaffold
