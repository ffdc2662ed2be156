import Scaffold.Decimal.Shortest

/-!
# Setting values

What files and environment variables say of settings, whatever the format. A setting is read
leniently: truth values may be written as numbers or words, and texts as numbers or truth values.
-/

namespace Scaffold

/-- A value of a setting. -/
inductive Setting where
  | nothing
  | bool (b : Bool)
  | int (n : Int)
  | real (x : Float)
  | text (s : String)
  | list (items : List Setting)
  | table (entries : List (String × Setting))

namespace Setting

/-- A table without entries. -/
def empty : Setting := table []

/-- The words for true. -/
def trueWords : List String := ["1", "true", "on", "yes"]

/-- The words for false. -/
def falseWords : List String := ["0", "false", "off", "no"]

/-- The truth value that a setting says. Words may be in letters of any case. -/
def bool? : Setting → Option Bool
  | bool b => some b
  | int n => some (n != 0)
  | real x => some (x != 0.0)
  | text s =>
    if trueWords.contains s.toLower then some true
    else if falseWords.contains s.toLower then some false
    else none
  | _ => none

/-- The text that a setting says. -/
def text? : Setting → Option String
  | bool b => some (if b then "true" else "false")
  | int n => some (toString n)
  | real x => some (Decimal.floatText x)
  | text s => some s
  | _ => none

/-- The name that a setting chooses, as a text or as the only entry of a table. -/
def choice? : Setting → Option String
  | text s => some s
  | table [(name, _)] => some name
  | _ => none

/-- Sets an entry among others. -/
def setEntry (name : String) (value : Setting) : List (String × Setting) → List (String × Setting)
  | [] => [(name, value)]
  | (n, v) :: rest => if n = name then (n, value) :: rest else (n, v) :: setEntry name value rest

/-- The entries of a table; a value that is no table has none. -/
def entries : Setting → List (String × Setting)
  | table entries => entries
  | _ => []

/-- The items of a list; a value that is no list has none. -/
def items : Setting → List Setting
  | list items => items
  | _ => []

mutual

/-- A value laid over another: a table sets entries of what is there, anything else replaces it. -/
def overlay (below : Setting) : Setting → Setting
  | table [] => below
  | table entries => table (overlayEntries below.entries entries)
  | value => value

/-- Entries laid over others. -/
def overlayEntries (below : List (String × Setting)) :
    List (String × Setting) → List (String × Setting)
  | [] => below
  | (name, value) :: rest =>
    overlayEntries (setEntry name (overlay ((below.lookup name).getD empty) value) below) rest

end

end Setting

end Scaffold
