/-!
# Indented JSON

Values as JSON text, one member a line and two spaces a level. A value keeps its members in the
order in which they were given. In strings only the quote, the backslash and the control characters
are escaped, those of them with a short escape by it.
-/

namespace Scaffold

/-- A value that can be written as JSON. -/
inductive Json where
  | bool (b : Bool)
  | nat (n : Nat)
  | string (s : String)
  | array (items : List Json)
  | object (members : List (String × Json))

namespace Json

/-- A digit of the numbers to base sixteen. -/
def hexDigit (n : Nat) : Char := Nat.digitChar n

/-- A character inside a string. -/
def escapeChar (c : Char) : List Char :=
  match c with
  | '"' => ['\\', '"']
  | '\\' => ['\\', '\\']
  | '\x08' => ['\\', 'b']
  | '\x0c' => ['\\', 'f']
  | '\n' => ['\\', 'n']
  | '\r' => ['\\', 'r']
  | '\t' => ['\\', 't']
  | c =>
    if c.toNat < 32 then
      ['\\', 'u', '0', '0', hexDigit (c.toNat / 16), hexDigit (c.toNat % 16)]
    else
      [c]

/-- A text as a string. -/
def quote (s : String) : String :=
  String.ofList ('"' :: s.toList.flatMap escapeChar ++ ['"'])

/-- The start of a line at a level. -/
def newline (level : Nat) : String := "\n" ++ String.ofList (List.replicate (2 * level) ' ')

/-- Lines between brackets that stand at a level; brackets without lines have nothing between
them. -/
def bracketed (opening closing : Char) (level : Nat) (lines : List String) : String :=
  if lines.isEmpty then String.ofList [opening, closing]
  else
    opening.toString ++ newline (level + 1) ++ (("," ++ newline (level + 1)).intercalate lines) ++
      newline level ++ closing.toString

mutual

/-- A value whose first line has been started at a level. -/
def write (level : Nat) : Json → String
  | bool b => if b then "true" else "false"
  | nat n => toString n
  | string s => quote s
  | array items => bracketed '[' ']' level (writeItems (level + 1) items)
  | object members => bracketed '\x7b' '\x7d' level (writeMembers (level + 1) members)

/-- The items of an array, each at a level. -/
def writeItems (level : Nat) : List Json → List String
  | [] => []
  | item :: items => write level item :: writeItems level items

/-- The members of an object, each at a level. -/
def writeMembers (level : Nat) : List (String × Json) → List String
  | [] => []
  | (name, value) :: members =>
    (quote name ++ ": " ++ write level value) :: writeMembers level members

end

/-- The text of a value. -/
def pretty (value : Json) : String := write 0 value

/-- A member that is there only if it has a value. -/
def optional {α : Type} (name : String) (f : α → Json) : Option α → List (String × Json)
  | some a => [(name, f a)]
  | none => []

end Json

end Scaffold
