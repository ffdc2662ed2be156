/-!
# Lines and segments

Cutting a text at a character, and into lines. A cut text has one segment more than it has
cuts, so `splitOn` never answers the empty list; a text cut into lines has no last line when
it ends in a line feed.
-/

namespace Scaffold.Text

/-- Puts a character in front of the first segment. -/
def consHead (c : Char) : List (List Char) → List (List Char)
  | [] => [[c]]
  | seg :: segs => (c :: seg) :: segs

/-- The segments of a text between the occurrences of `sep`. -/
def splitOn (sep : Char) (s : List Char) : List (List Char) :=
  s.foldr (fun c segs ↦ if c = sep then [] :: segs else consHead c segs) [[]]

@[simp]
theorem splitOn_nil (sep : Char) : splitOn sep [] = [[]] := rfl

/-- A separator starts a new segment, and any other character belongs to the first one. -/
theorem splitOn_cons (sep c : Char) (s : List Char) :
    splitOn sep (c :: s) =
      if c = sep then [] :: splitOn sep s else consHead c (splitOn sep s) := rfl

/-- A segment without the carriage return that may end it. -/
def dropReturn (s : List Char) : List Char :=
  if s.getLast? = some '\r' then s.dropLast else s

/-- The lines of a text. A line ends in a line feed, which may follow a carriage return; the
last line may end with the text instead, and then keeps a carriage return. -/
def lineChars (s : List Char) : List (List Char) :=
  let segs := splitOn '\n' s
  let whole := segs.dropLast.map dropReturn
  match segs.getLast? with
  | none | some [] => whole
  | some rest => whole ++ [rest]

/-- The lines of a text, as strings. -/
def lines (s : String) : List String :=
  (lineChars s.toList).map String.ofList

/-- Line ends in one spelling: a carriage return, with or without a line feed after it,
becomes a line feed. -/
def unifyLineEnds : List Char → List Char
  | [] => []
  | '\r' :: '\n' :: rest => '\n' :: unifyLineEnds rest
  | c :: rest => (if c = '\r' then '\n' else c) :: unifyLineEnds rest

end Scaffold.Text
