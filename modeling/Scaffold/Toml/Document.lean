import Scaffold.Toml.Scalar
import Scaffold.Toml.Table

/-!
# Documents in TOML

A document is a sequence of lines, each of which is empty, sets an entry under a key, or is a
header, which says in which table the entries that follow are set.
-/

namespace Scaffold.Toml

/-- Reads a part of a key. -/
def scanName : Scan String := do
  match ← scanPlainString? with
  | some name => pure name
  | none =>
    let name ← Scan.takeWhile isKeyChar
    if name.isEmpty then failure
    pure (String.ofList name)

/-- Reads what stands behind a part of a key: further parts behind dots. -/
def scanNames : Nat → Scan (List String)
  | 0 => pure []
  | fuel + 1 => do
    skipBlanks
    if ← Scan.tryTake "." then
      skipBlanks
      let name ← scanName
      return name :: (← scanNames fuel)
    else
      pure []

/-- A key: its last part, and those in front of it. -/
structure Key where
  path : List String
  name : String

/-- Reads a key and the blanks behind it. -/
def scanKey : Scan Key := do
  let first ← scanName
  let names := first :: (← scanNames ((← get).length))
  return ⟨names.dropLast, names.getLastD first⟩

/-- How deep arrays and tables in braces may be nested. -/
def maxDepth : Nat := 80

mutual

/-- Reads a value, in which arrays and tables may be nested `depth` deep. -/
def scanValue (fuel depth : Nat) : Scan Value :=
  match fuel with
  | 0 => failure
  | fuel + 1 => do
    if ← Scan.tryTake "[" then
      if depth = 0 then failure
      return .array (← scanItems fuel (depth - 1) true)
    else if ← Scan.tryTake "\x7b" then
      if depth = 0 then failure
      return .table .braces (← scanEntries fuel (depth - 1) true .header [])
    else
      return .scalar (← scanScalar)

/-- Reads the items of an array; there is a comma between them, and there may be one behind the
last. -/
def scanItems (fuel depth : Nat) (first : Bool) : Scan (List Value) :=
  match fuel with
  | 0 => failure
  | fuel + 1 => do
    skipAllLines
    if ← Scan.tryTake "]" then return []
    if !first then
      Scan.take ","
      skipAllLines
      if ← Scan.tryTake "]" then return []
    let item ← scanValue fuel depth
    return item :: (← scanItems fuel depth false)

/-- Reads the entries of a table in braces behind those that have been read; commas as in
arrays. -/
def scanEntries (fuel depth : Nat) (first : Bool) (origin : Origin) (entries : Entries) :
    Scan Entries :=
  match fuel with
  | 0 => failure
  | fuel + 1 => do
    skipAllLines
    if ← Scan.tryTake "\x7d" then return entries
    if !first then
      Scan.take ","
      skipAllLines
      if ← Scan.tryTake "\x7d" then return entries
    let key ← scanKey
    Scan.take "="
    skipBlanks
    let value ← scanValue fuel depth
    match addEntry key.path key.name value origin entries with
    | some (origin, entries) => scanEntries fuel depth false origin entries
    | none => failure

end

/-- How far reading has come. -/
structure Progress where
  root : Entries
  /-- The names that lead to the table in which entries are set. -/
  current : List String

/-- Sets an entry in the current table. -/
def Progress.add (p : Progress) (key : Key) (value : Value) : Option Progress := do
  let (_, root) ←
    changeTable .headerPath (addEntry key.path key.name value) p.current .header p.root
  return { p with root }

/-- Goes on to the table of a header, in single or in double brackets. -/
def Progress.open (p : Progress) (double : Bool) (key : Key) : Option Progress := do
  let root ← (if double then addToTables else addTable) key.path key.name p.root
  return ⟨root, key.path ++ [key.name]⟩

/-- Goes on with what has been found, if anything has. -/
def orFail {α : Type} : Option α → Scan α
  | some a => pure a
  | none => failure

/-- Reads a line, without its end. -/
def scanLine (p : Progress) : Scan Progress := do
  match ← Scan.peek? with
  | none | some '#' | some '\n' | some '\r' => pure p
  | some '[' => do
    Scan.skip 1
    let double ← Scan.tryTake "["
    skipBlanks
    let key ← scanKey
    Scan.take (if double then "]]" else "]")
    orFail (p.open double key)
  | some _ => do
    let key ← scanKey
    Scan.take "="
    skipBlanks
    let value ← scanValue (2 * (← get).length + 2) maxDepth
    orFail (p.add key value)

/-- Reads lines to the end of the text. -/
def scanDocument : Nat → Progress → Scan Progress
  | 0, _ => failure
  | fuel + 1, p => do
    skipBlanks
    let p ← scanLine p
    skipBlanks
    skipComment
    if ← tryLineEnd then scanDocument fuel p
    else if (← get).isEmpty then pure p
    else failure

/-- Reads a whole text. -/
def read? (text : String) : Option Setting :=
  ((scanDocument (text.length + 1) ⟨[], []⟩).run? text.toList).map fun p ↦
    (Value.table .header p.root).toSetting

end Scaffold.Toml
