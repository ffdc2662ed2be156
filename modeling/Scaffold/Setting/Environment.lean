import Scaffold.Setting.KeyPath
import Scaffold.Text.Replace

/-!
# Settings in the environment

A variable whose name starts with the name of the program and an underscore sets what the rest of
its name says, a double underscore being a step into a table. Letters may be of any case. A value
is a truth value, an integer or another number if it reads as one, and otherwise a text.
-/

namespace Scaffold

/-- The names and values of variables. -/
abbrev Environment := List (String × String)

namespace Environment

/-- What the names of variables start with, in small letters. -/
def marker : String := "skelly_"

/-- A name in small letters. The kelvin sign is the only character outside ASCII whose small letter
is in ASCII. -/
def lower (name : String) : String :=
  name.map fun c ↦ if c = '\u212a' then 'k' else c.toLower

/-- The key that a name of a variable says; nothing for variables that set nothing here. -/
def key? (name : String) : Option String :=
  ((lower name).dropPrefix? marker).map fun rest ↦ Text.replace rest.toString "__" "."

/-- What the value of a variable says. -/
def value (s : String) : Setting :=
  if s.toLower = "true" then .bool true
  else if s.toLower = "false" then .bool false
  else match Decimal.word? s.toList, Decimal.float? s.toList with
    | some n, _ => .int n
    | none, some x => .real x
    | none, none => .text s

/-- The settings that the variables make. Of several that set the same the last counts. -/
def layer (env : Environment) : List (String × Setting) :=
  env.foldl (fun layer (name, s) ↦
    match key? name with
    | some key => Setting.setEntry key (value s) layer
    | none => layer) []

end Environment

end Scaffold
