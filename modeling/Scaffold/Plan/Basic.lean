import Scaffold.Expansion
import Scaffold.FrontMatter.Basic
import Scaffold.Path.Basic

/-!
# Plans

A plan is a list of operations in the order in which they run. The operations form a forest: each
one below the root of the structure names its parent by position. What is found inside a copied or
moved directory is planned too, as included operations right behind the transfer.
-/

namespace Scaffold

/-- What an operation does. -/
inductive OperationKind where
  | create
  | copy
  | move
  /-- Carries along an entry found inside a copied or moved directory. -/
  | included
deriving DecidableEq, Repr

/-- The word for a kind of operation. -/
def OperationKind.label : OperationKind → String
  | create => "create"
  | copy => "copy"
  | move => "move"
  | included => "included"

/-- One planned action on a store. -/
structure Operation where
  kind : OperationKind
  target : Path
  source : Option Path
  isDirectory : Bool
  depth : Nat
  name : String
  warning : Option String
  /-- The position of the operation for the directory around this one; `none` at the root. -/
  parent : Option Nat
deriving DecidableEq

/-- What a plan is made with. -/
structure PlanOptions where
  root : Path
  rules : RenameRules := {}
  /-- Whether what is inside copied and moved directories is planned entry by entry. -/
  recursive : Bool := true
  /-- What a tilde in front of a source stands for. -/
  home : String := ""
deriving DecidableEq

/-- The two styles of indentation, of which a structure uses one. -/
inductive IndentStyle where
  | tabs
  | spaces
deriving DecidableEq, Repr

/-- The word for a style. -/
def IndentStyle.label : IndentStyle → String
  | tabs => "tabs"
  | spaces => "spaces"

/-- Why a structure cannot be planned. Everything else that goes wrong becomes a warning. -/
inductive PlanError where
  /-- A line that does not follow the style of an earlier one. -/
  | mixedIndentation (line : Nat) (expected : IndentStyle)
  /-- A line that mixes both styles before either is set. -/
  | mixedIndentLine (line : Nat)
  | overBudget (cause : Expansion.OverBudget)
deriving DecidableEq, Repr

/-- The cause in words. -/
def PlanError.message : PlanError → String
  | mixedIndentation line expected =>
    s!"line {line}: indentation mixes tabs and spaces (document uses {expected.label}); " ++
      "use one style throughout"
  | mixedIndentLine line =>
    s!"line {line}: indentation mixes tabs and spaces; use one style throughout"
  | overBudget cause => cause.message

/-- The operations for a structure. -/
structure Plan where
  operations : List Operation
  /-- The options as used, with the rules of the front matter behind those of the caller. -/
  options : PlanOptions
  frontMatter : Option FrontMatter
deriving DecidableEq

namespace Plan

/-- The parent of the operation at a position. -/
def parent? (plan : Plan) (i : Nat) : Option Operation := do
  plan.operations[← (← plan.operations[i]?).parent]?

/-- The positions of the operations that satisfy `p`. -/
def positions (plan : Plan) (p : Operation → Bool) : List Nat :=
  plan.operations.zipIdx.filterMap fun (op, i) ↦ if p op then some i else none

/-- The positions of the direct children of an operation. -/
def children (plan : Plan) (i : Nat) : List Nat := plan.positions (·.parent == some i)

/-- The positions of the operations at the root. -/
def roots (plan : Plan) : List Nat := plan.positions (·.parent.isNone)

/-- The position of the last of the included operations that follow an operation and are deeper
than it, if there are any. -/
def includedEnd? (plan : Plan) (i : Nat) : Option Nat := do
  let op ← plan.operations[i]?
  let run := (plan.operations.drop (i + 1)).takeWhile fun below ↦
    below.kind == .included && op.depth < below.depth
  if run.isEmpty then none else some (i + run.length)

/-- The operations that carry a warning, with it. -/
def warnings (plan : Plan) : List (Operation × String) :=
  plan.operations.filterMap fun op ↦ op.warning.map (op, ·)

end Plan

end Scaffold
