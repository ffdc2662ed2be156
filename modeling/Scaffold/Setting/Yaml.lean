import Scaffold.Setting.Basic
import Scaffold.Text.Scan
import Scaffold.Yaml.Node

/-!
# Settings in YAML

A plain scalar is a number, a truth value or nothing if it reads as one, and otherwise a text; a
tag can ask for one of these. A name must not come twice in a mapping.
-/

namespace Scaffold.Setting.Yaml

open Scaffold.Yaml

/-- The texts of the infinities and of what is not a number. They are numbers, but have no place
among settings. -/
def isSpecialReal (s : String) : Bool :=
  let signed := match s.toList with
    | '+' :: rest | '-' :: rest => String.ofList rest
    | rest => String.ofList rest
  [".inf", ".Inf", ".INF"].contains signed || [".nan", ".NaN", ".NAN"].contains s

/-- The integer that a plain scalar says; those to base sixteen and eight are marked. -/
def int? (s : String) : Option Int :=
  let digit? (base : Nat) (c : Char) : Option Nat := (Scan.hexDigit? c).filter (· < base)
  let based (base : Nat) (digits : List Char) : Option Int := do
    if digits.isEmpty then none
    let value ← digits.foldlM (fun n c ↦ (digit? base c).map (base * n + ·)) 0
    if Decimal.fitsWord value then some value else none
  match s.toList with
  | '0' :: 'x' :: digits => based 16 digits
  | '0' :: 'o' :: digits => based 8 digits
  | s => Decimal.word? s

/-- The number with a fraction or an exponent that a plain scalar says; it has a digit. -/
def real? (s : String) : Option Float :=
  if s.toList.any Char.isDigit then Decimal.float? s.toList else none

/-- The value of a plain scalar. -/
def plain? (s : String) : Option Setting :=
  if ["", "~", "null"].contains s then some .nothing
  else if ["true", "True", "TRUE"].contains s then some (.bool true)
  else if ["false", "False", "FALSE"].contains s then some (.bool false)
  else if isSpecialReal s then none
  else match int? s, real? s with
    | some n, _ => some (.int n)
    | none, some x => some (.real x)
    | none, none => some (.text s)

/-- The value of a plain scalar with a tag; one that does not read as its tag asks says nothing. -/
def tagged? (tag s : String) : Option Setting :=
  if tag = "tag:yaml.org,2002:bool" then
    if s = "true" then some (.bool true)
    else if s = "false" then some (.bool false)
    else some .nothing
  else if tag = "tag:yaml.org,2002:int" then
    some ((Decimal.word? s.toList).elim .nothing .int)
  else if tag = "tag:yaml.org,2002:float" then
    if isSpecialReal s then none else some ((real? s).elim .nothing .real)
  else if tag = "tag:yaml.org,2002:null" then some .nothing
  else some (.text s)

/-- The name of an entry, which is a scalar. -/
def key? : Node → Option String
  | .scalar _ _ written => some written
  | _ => none

mutual

/-- The value of a node. At most `aliases` aliases are followed one inside another. -/
def ofNode? (doc : Document) (aliases : Nat) : Node → Option Setting
  | .scalar (some tag) true written => tagged? tag written
  | .scalar none true written => plain? written
  | .scalar _ false written => some (.text written)
  | .sequence items => (ofNodes? doc aliases items).map .list
  | .mapping entries => (ofEntries? doc aliases entries).map .table
  | .alias number =>
    match aliases with
    | 0 => none
    | aliases + 1 => (doc.anchored.lookup number).bind (ofNode? doc aliases)
termination_by node => (aliases, sizeOf node)

/-- The values of nodes. -/
def ofNodes? (doc : Document) (aliases : Nat) : List Node → Option (List Setting)
  | [] => some []
  | node :: rest => do
    let value ← ofNode? doc aliases node
    return value :: (← ofNodes? doc aliases rest)
termination_by nodes => (aliases, sizeOf nodes)

/-- The entries of a mapping. -/
def ofEntries? (doc : Document) (aliases : Nat) :
    List (Node × Node) → Option (List (String × Setting))
  | [] => some []
  | (key, node) :: rest => do
    let name ← key? key
    let value ← ofNode? doc aliases node
    let others ← ofEntries? doc aliases rest
    if (others.lookup name).isSome then none
    return (name, value) :: others
termination_by entries => (aliases, sizeOf entries)

end

/-- Reads a whole text. One without content is a table without entries. -/
def read? (s : String) : Option Setting := do
  let doc ← document? s
  match doc.root with
  | none => some .empty
  | some root => ofNode? doc doc.anchored.length root

end Scaffold.Setting.Yaml
