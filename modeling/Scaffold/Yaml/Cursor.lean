/-!
# Reading YAML text

A cursor is a place in a text: what follows it, and its line, column and distance from the start.
The loops of the scanner are steps repeated until one is the last. Each step reads at least one
character, so a bound on their number is known from the text.
-/

namespace Scaffold.Yaml

/-! ### Repeated steps -/

/-- What a step comes to: another step, a result, or a refusal. -/
inductive Step (σ α : Type) where
  | more (s : σ)
  | done (a : α)
  | fail

/-- Repeats a step at most `bound` times. -/
def repeatStep {σ α : Type} (step : σ → Step σ α) : (bound : Nat) → σ → Option α
  | 0, _ => none
  | bound + 1, s =>
    match step s with
    | .more s => repeatStep step bound s
    | .done a => some a
    | .fail => none

/-! ### Characters -/

/-- A character that ends a line. -/
def isBreak (c : Char) : Bool :=
  c == '\n' || c == '\r' || c == '\u0085' || c == '\u2028' || c == '\u2029'

/-- A space or a tab. -/
def isSpace (c : Char) : Bool := c == ' ' || c == '\t'

/-- Whether a character may stand in a YAML text at all. -/
def isPrintable (c : Char) : Bool :=
  let n := c.toNat
  n == 0x09 || n == 0x0A || n == 0x0D || (0x20 ≤ n && n ≤ 0x7E) || n == 0x85 ||
    (0xA0 ≤ n && n ≤ 0xFFFD) || 0x10000 ≤ n

/-- A character of anchors and of the handles of tags. -/
def isWordChar (c : Char) : Bool := c.isAlphanum || c == '_' || c == '-'

/-- Whether a word ends in front of what follows: the text ends, or there is white space. -/
def endsWord : List Char → Bool
  | [] => true
  | c :: _ => isSpace c || isBreak c

/-! ### Cursors -/

/-- A place in a text. -/
structure Cursor where
  rest : List Char
  line : Nat := 0
  column : Nat := 0
  index : Nat := 0

namespace Cursor

/-- The next character. -/
def peek? (c : Cursor) : Option Char := c.rest.head?

/-- Whether the text goes on with one of the given characters. -/
def isAt (c : Cursor) (chars : List Char) : Bool := c.peek?.any chars.contains

/-- The place `n` characters further on the line. -/
def advance (c : Cursor) (n : Nat) : Cursor :=
  { c with rest := c.rest.drop n, column := c.column + n, index := c.index + n }

/-- The start of the next line; the cursor stands at the end of one. -/
def nextLine (c : Cursor) : Cursor :=
  let n := if "\r\n".toList.isPrefixOf c.rest then 2 else 1
  { rest := c.rest.drop n, line := c.line + 1, column := 0, index := c.index + n }

/-- The end of the line. -/
def endOfLine (c : Cursor) : Cursor :=
  c.advance (c.rest.takeWhile fun x ↦ !isBreak x).length

/-- The place behind the spaces and tabs. -/
def skipSpaces (c : Cursor) : Cursor := c.advance (c.rest.takeWhile isSpace).length

/-- Whether a word ends here. -/
def atWordEnd (c : Cursor) : Bool := endsWord c.rest

/-- Whether a line break is here. -/
def atBreak (c : Cursor) : Bool := c.peek?.any isBreak

/-- Whether a line ends here, perhaps with the text. -/
def atLineEnd (c : Cursor) : Bool := c.rest.isEmpty || c.atBreak

/-- The character that stands for a line break in a scalar. -/
def breakChar (c : Cursor) : Char :=
  match c.peek? with
  | some '\u2028' => '\u2028'
  | some '\u2029' => '\u2029'
  | _ => '\n'

/-- Whether a line starts here with the three given characters as a word. -/
def atMarker (c : Cursor) (marker : String) : Bool :=
  c.column == 0 && marker.toList.isPrefixOf c.rest && endsWord (c.rest.drop 3)

/-- Whether a line starts here that separates documents. -/
def atDocumentMarker (c : Cursor) : Bool := c.atMarker "---" || c.atMarker "..."

/-- Repeats steps that read. -/
def loop {σ α : Type} (c : Cursor) (step : σ → Step σ α) (s : σ) : Option α :=
  repeatStep step (c.rest.length + 2) s

end Cursor

end Scaffold.Yaml
