import Scaffold.FrontMatter.Basic
import Scaffold.Yaml.Node

/-!
# Reading front matter

The block is a YAML mapping with two optional lists of rules, `fileReplacements` and
`folderReplacements`. An empty block, or one that says `null`, has no rules. Members of other names
are passed over, a name must not come twice, and the texts of a rule are scalars of any style, as
they are written.
-/

namespace Scaffold.FrontMatter

open Yaml

variable (doc : Document)

/-- The node that a node stands for. An alias of an alias is followed as often as there are
anchors. -/
def resolve (node : Node) : Option Node :=
  go (doc.anchored.length + 1) node
where
  /-- Follows at most as many aliases as given. -/
  go : Nat → Node → Option Node
    | 0, _ => none
    | n + 1, .alias number => (doc.anchored.lookup number).bind (go n)
    | _ + 1, node => some node

/-- The text of a scalar. -/
def text? (node : Node) : Option String := do
  match ← resolve doc node with
  | .scalar _ _ text => some text
  | _ => none

/-- The members of a mapping by name. -/
def members? (node : Node) : Option (List (String × Node)) := do
  match ← resolve doc node with
  | .mapping entries => entries.mapM fun (key, value) ↦ do return (← text? doc key, value)
  | _ => none

/-- The member with a name; refused when there are several. -/
def member? (members : List (String × Node)) (name : String) : Option (Option Node) :=
  match members.filter (·.1 == name) with
  | [] => some none
  | [(_, value)] => some (some value)
  | _ => none

/-- A rule, which needs both of its texts. -/
def rule? (node : Node) : Option RenameRule := do
  let members ← members? doc node
  let search ← (← member? members "search").bind (text? doc)
  let replace ← (← member? members "replace").bind (text? doc)
  return ⟨search, replace⟩

/-- A list of rules; nothing written is an empty list. -/
def rules? (node : Node) : Option (List RenameRule) := do
  match ← resolve doc node with
  | .sequence items => items.mapM (rule? doc)
  | .scalar _ true "" => some []
  | _ => none

/-- The words that stand for nothing. -/
def isNull (text : String) : Bool := ["null", "Null", "NULL", "~"].contains text

/-- Whether a plain scalar says that there is no front matter. An empty one does, unless its tag
asks for a word; a word does, unless its tag asks for something else. -/
def saysNothing (tag : Option String) (text : String) : Bool :=
  match tag with
  | none => text.isEmpty || isNull text
  | some "tag:yaml.org,2002:null" => isNull text
  | some _ => text.isEmpty

/-- The front matter that a node says. -/
def ofNode? (node : Node) : Option FrontMatter := do
  match ← resolve doc node with
  | .scalar tag true text => if saysNothing tag text then some {} else none
  | .mapping entries => do
    let members ← members? doc (.mapping entries)
    let fileRules ← (← member? members "fileReplacements").elim (some []) (rules? doc)
    let folderRules ← (← member? members "folderReplacements").elim (some []) (rules? doc)
    return { fileRules, folderRules }
  | _ => none

/-- Reads the text of a block. -/
def read? (block : String) : Option FrontMatter := do
  let doc ← document? block
  match doc.root with
  | none => some {}
  | some root => ofNode? doc root

/-- Splits a text into its front matter and the structure. -/
def extract (text : String) : Option FrontMatter × String := extractWith read? text

end Scaffold.FrontMatter
