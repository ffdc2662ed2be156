import Scaffold.Setting.Basic
import Scaffold.Text.Scan

/-!
# Key paths

A key path leads into a setting: a name, then names behind dots and positions in brackets. A
position below zero counts from the end of a list. Setting a value at a path makes the tables and
lists on the way, in place of whatever else is there.
-/

namespace Scaffold

/-- A step into a setting. -/
inductive KeyStep where
  | name (name : String)
  | position (index : Int)
deriving DecidableEq, Repr

namespace KeyPath

/-- The characters of names in paths. -/
def isNameChar (c : Char) : Bool := c.isAlphanum || c == '_' || c == '-'

/-- Reads a name. -/
def scanName : Scan KeyStep := do
  let name ← Scan.takeWhile isNameChar
  if name.isEmpty then failure
  pure (.name (String.ofList name))

/-- Reads a position, behind its opening bracket. -/
def scanPosition : Scan KeyStep := do
  let sign ← Scan.takeUpTo 1 (· == '-')
  let digits ← Scan.takeWhile Char.isDigit
  Scan.take "]"
  match Decimal.word? (sign ++ digits) with
  | some index => pure (.position index)
  | none => failure

/-- Reads the steps behind the first name. There are fewer than characters. -/
def scanSteps : Nat → Scan (List KeyStep)
  | 0 => pure []
  | n + 1 => do
    if ← Scan.tryTake "." then
      let step ← scanName
      return step :: (← scanSteps n)
    else if ← Scan.tryTake "[" then
      let step ← scanPosition
      return step :: (← scanSteps n)
    else
      pure []

/-- The steps of a key. A key that is no path is the name of one entry. -/
def ofKey (key : String) : List KeyStep :=
  let steps : Scan (List KeyStep) := do
    let first ← scanName
    return first :: (← scanSteps key.length)
  (steps.run? key.toList).getD [.name key]

/-- Changes the item at a position. Missing items, in front or behind, say nothing. -/
def changeItem (index : Int) (f : Setting → Setting) (items : List Setting) : List Setting :=
  let missing (n : Nat) : List Setting := List.replicate n .nothing
  let fromEnd := index + items.length
  if 0 ≤ index then
    (items ++ missing (index.toNat + 1 - items.length)).modify index.toNat f
  else if 0 ≤ fromEnd then items.modify fromEnd.toNat f
  else (missing fromEnd.natAbs ++ items).modify 0 f

/-- Changes what a path leads to. -/
def change (f : Setting → Setting) : List KeyStep → Setting → Setting
  | [], value => f value
  | .name name :: rest, value =>
    let below := (value.entries.lookup name).getD (if rest.isEmpty then .empty else .nothing)
    .table (Setting.setEntry name (change f rest below) value.entries)
  | .position index :: rest, value => .list (changeItem index (change f rest) value.items)

/-- Lays a value over what a path leads to. -/
def set (path : List KeyStep) (value root : Setting) : Setting :=
  change (·.overlay value) path root

end KeyPath

/-- Lays a layer of settings over a value; its keys are paths. -/
def Setting.addLayer (root : Setting) (layer : List (String × Setting)) : Setting :=
  layer.foldl (fun root (key, value) ↦ KeyPath.set (KeyPath.ofKey key) value root) root

end Scaffold
