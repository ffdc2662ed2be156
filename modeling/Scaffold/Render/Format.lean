/-!
# Forms of output

Plans and reports can be shown in several forms, each of which has a name.
-/

namespace Scaffold

/-- How plans and reports are shown. -/
inductive OutputFormat where
  | tree
  | table
  | json
deriving DecidableEq, Repr

namespace OutputFormat

/-- The forms, the usual one first. -/
def all : List OutputFormat := [tree, table, json]

/-- The name of a form. -/
def label : OutputFormat → String
  | tree => "tree"
  | table => "table"
  | json => "json"

/-- The form with a name. -/
def ofLabel? (name : String) : Option OutputFormat := all.find? (·.label == name)

/-- A form is found under its name. -/
theorem ofLabel?_label (f : OutputFormat) : ofLabel? f.label = some f := by
  cases f <;> rfl

end OutputFormat

end Scaffold
