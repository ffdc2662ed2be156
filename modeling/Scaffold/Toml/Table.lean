import Scaffold.Setting.Basic

/-!
# Tables in TOML

A table remembers how it came to be, because that decides how it may be extended. A header may name
a table that so far was only on the way to others, but no table twice; dotted keys may extend only
what dotted keys have made; and a table in braces is complete.
-/

namespace Scaffold.Toml

/-- How a table came to be. -/
inductive Origin where
  /-- By a header of its own, or as the whole document. -/
  | header
  /-- On the way to the table of a header. -/
  | headerPath
  /-- On the way to the last name of a dotted key. -/
  | dottedKey
  /-- In braces. -/
  | braces
deriving DecidableEq, Repr

/-- A value. -/
inductive Value where
  | scalar (s : Setting)
  | array (items : List Value)
  | table (origin : Origin) (entries : List (String × Value))
  /-- The tables of headers in double brackets, first the last of them. -/
  | tables (last : List (String × Value)) (before : List (List (String × Value)))

/-- The entries of a table. -/
abbrev Entries := List (String × Value)

namespace Entries

/-- Sets an entry among others. -/
def set (name : String) (value : Value) : Entries → Entries
  | [] => [(name, value)]
  | (n, v) :: rest => if n = name then (n, value) :: rest else (n, v) :: set name value rest

end Entries

/-- Changes the table that names lead to from a table, with tables of origin `fresh` made on the
way. Dotted keys do not lead through a table that has a header. -/
def changeTable (fresh : Origin) (f : Origin → Entries → Option (Origin × Entries)) :
    List String → Origin → Entries → Option (Origin × Entries)
  | [], origin, entries => f origin entries
  | name :: rest, origin, entries =>
    let put (value : Value) : Origin × Entries := (origin, entries.set name value)
    match entries.lookup name with
    | none => do
      let (o, below) ← changeTable fresh f rest fresh []
      return put (.table o below)
    | some (.table o below) =>
      if o = .braces || (fresh = .dottedKey && o = .header) then none
      else do
        let (o, below) ← changeTable fresh f rest o below
        return put (.table o below)
    | some (.tables last before) => do
      let (_, last) ← changeTable fresh f rest .header last
      return put (.tables last before)
    | some _ => none

/-- Adds an entry under a dotted key. -/
def addEntry (path : List String) (name : String) (value : Value) (origin : Origin)
    (entries : Entries) : Option (Origin × Entries) :=
  changeTable .dottedKey
    (fun o entries ↦
      if (o == .dottedKey) == path.isEmpty || (entries.lookup name).isSome then none
      else some (o, entries.set name value))
    path origin entries

/-- Makes the table of a header in single brackets. -/
def addTable (path : List String) (name : String) (entries : Entries) : Option Entries :=
  (changeTable .headerPath
    (fun o entries ↦
      match entries.lookup name with
      | none => some (o, entries.set name (.table .header []))
      | some (.table .headerPath below) => some (o, entries.set name (.table .header below))
      | some _ => none)
    path .header entries).map (·.2)

/-- Makes another table of a header in double brackets. -/
def addToTables (path : List String) (name : String) (entries : Entries) : Option Entries :=
  (changeTable .headerPath
    (fun o entries ↦
      match entries.lookup name with
      | none => some (o, entries.set name (.tables [] []))
      | some (.tables last before) => some (o, entries.set name (.tables [] (last :: before)))
      | some _ => none)
    path .header entries).map (·.2)

mutual

/-- What a value says of settings. -/
def Value.toSetting : Value → Setting
  | .scalar s => s
  | .array items => .list (settingsOf items)
  | .table _ entries => .table (entrySettings entries)
  | .tables last before => .list ((tableSettings before).reverse ++ [.table (entrySettings last)])

/-- What values say. -/
def settingsOf : List Value → List Setting
  | [] => []
  | value :: rest => value.toSetting :: settingsOf rest

/-- What entries say. -/
def entrySettings : List (String × Value) → List (String × Setting)
  | [] => []
  | (name, value) :: rest => (name, value.toSetting) :: entrySettings rest

/-- What tables say. -/
def tableSettings : List (List (String × Value)) → List Setting
  | [] => []
  | entries :: rest => .table (entrySettings entries) :: tableSettings rest

end

end Scaffold.Toml
