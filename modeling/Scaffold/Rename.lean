import Scaffold.Text.Replace

/-!
# Rename rules

A rule replaces a text inside names. Rules come in three scopes, for all names, for file names and
for folder names; those for all names are applied first, and each rule sees what the one before it
left.
-/

namespace Scaffold

/-- Replaces `search` by `replace` inside names. -/
structure RenameRule where
  search : String
  replace : String
deriving DecidableEq, Repr

namespace RenameRule

/-- Why a written rule is refused. -/
inductive ParseError where
  | noSeparator (text : String)
  | emptySearch
deriving DecidableEq, Repr

/-- The text of a refusal. -/
def ParseError.message : ParseError → String
  | noSeparator text => s!"expected SEARCH=REPLACE, got '{text}'"
  | emptySearch => "search text must not be empty"

/-- Reads a rule that is written as its two texts around the first `=`. -/
def parse (text : String) : Except ParseError RenameRule :=
  let search := text.toList.takeWhile (· != '=')
  match text.toList.drop search.length with
  | [] => .error (.noSeparator text)
  | _ :: replace =>
    if search.isEmpty then .error .emptySearch
    else .ok ⟨String.ofList search, String.ofList replace⟩

/-- The name that a rule makes of a name. An empty search text occurs in no name. -/
def apply (rule : RenameRule) (name : String) : String :=
  Text.replace name rule.search rule.replace

end RenameRule

/-- The rules of the three scopes. -/
structure RenameRules where
  all : List RenameRule := []
  files : List RenameRule := []
  folders : List RenameRule := []
deriving DecidableEq, Repr

namespace RenameRules

/-- No rules at all. -/
def isEmpty (rules : RenameRules) : Bool :=
  rules.all.isEmpty && rules.files.isEmpty && rules.folders.isEmpty

/-- The rules for names of one kind, in the order in which they apply. -/
def rulesFor (rules : RenameRules) (isDirectory : Bool) : List RenameRule :=
  rules.all ++ if isDirectory then rules.folders else rules.files

/-- The name that the rules make of a name. -/
def apply (rules : RenameRules) (name : String) (isDirectory : Bool) : String :=
  (rules.rulesFor isDirectory).foldl (fun name rule ↦ rule.apply name) name

/-- The rules of `a` followed by those of `b`, scope by scope. -/
instance : Append RenameRules where
  append a b := ⟨a.all ++ b.all, a.files ++ b.files, a.folders ++ b.folders⟩

end RenameRules

end Scaffold
