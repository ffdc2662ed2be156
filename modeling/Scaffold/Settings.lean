import Scaffold.Disk.System
import Scaffold.Rename
import Scaffold.Render.Format
import Scaffold.Setting.Environment
import Scaffold.Setting.Json
import Scaffold.Setting.Yaml
import Scaffold.Toml.Document

/-!
# Settings

Settings come from the first settings file that exists in a directory, and over them from the
environment. A setting that nobody makes has its usual value; one that nobody knows is passed over.
-/

namespace Scaffold

/-- The settings. -/
structure Settings where
  /-- Where structures are made, if not told otherwise. -/
  root : Option Path := none
  recursive : Bool := true
  format : OutputFormat := .tree
  rules : RenameRules := {}
deriving DecidableEq

/-- Why there are no settings. -/
inductive SettingsError where
  /-- The file cannot be read, or not in its format. -/
  | unreadable
  /-- A setting has a value of the wrong kind. -/
  | invalid
deriving DecidableEq, Repr

/-- A refusal in words. -/
def SettingsError.message : SettingsError → String
  | unreadable => "Failed to load configuration"
  | invalid => "Failed to parse configuration"

namespace Settings

/-! ### Values -/

/-- A rule: a table with both texts, or a list that starts with them. -/
def rule? : Setting → Option RenameRule
  | .table entries => do
    return ⟨← (← entries.lookup "search").text?, ← (← entries.lookup "replace").text?⟩
  | .list (search :: replace :: _) => do return ⟨← search.text?, ← replace.text?⟩
  | _ => none

/-- A list of rules. -/
def rules? : Setting → Option (List RenameRule)
  | .list items => items.mapM rule?
  | _ => none

/-- A value that may be missing, and then is the given one. -/
def orUsual {α : Type} (usual : α) (read : Setting → Option α) : Option Setting → Option α
  | some value => read value
  | none => some usual

/-- The rules of all scopes: a table of them, or a list of them in the order of the scopes. -/
def scopes? : Setting → Option RenameRules
  | .table entries => do
    let scope (name : String) := orUsual [] rules? (entries.lookup name)
    return ⟨← scope "all", ← scope "files", ← scope "folders"⟩
  | .list items => do
    let scope (n : Nat) := orUsual [] rules? items[n]?
    return ⟨← scope 0, ← scope 1, ← scope 2⟩
  | _ => none

/-- A path that need not be given. -/
def path? : Setting → Option (Option Path)
  | .nothing => some none
  | value => value.text?.map fun s ↦ some (Path.ofText s)

/-- The settings that a table makes. -/
def ofSetting? (value : Setting) : Option Settings := do
  let usual : Settings := {}
  let entry {α : Type} (name : String) (usual : α) (read : Setting → Option α) : Option α :=
    orUsual usual read (value.entries.lookup name)
  return {
    root := ← entry "root_dir" usual.root path?
    recursive := ← entry "recursive" usual.recursive Setting.bool?
    format := ← entry "format" usual.format fun v ↦ v.choice?.bind OutputFormat.ofLabel?
    rules := ← entry "replacements" usual.rules scopes? }

/-! ### Sources -/

/-- The formats of settings files. -/
inductive FileFormat where
  | toml | yaml | json
deriving DecidableEq, Repr

/-- Reads a text in a format. -/
def FileFormat.read? : FileFormat → String → Option Setting
  | toml => Toml.read?
  | yaml => Setting.Yaml.read?
  | json => Setting.Json.read?

/-- The usual name of the settings file. -/
def usualFileName : String := "skelly.toml"

/-- The names of settings files, first the one that counts most. -/
def files : List (String × FileFormat) :=
  [(usualFileName, .toml), ("skelly.yaml", .yaml), ("skelly.json", .json), (".skelly.toml", .toml)]

/-- The entries of a settings file; it must say a table. A byte order mark does not count. -/
def readFile? (format : FileFormat) (bytes : ByteArray) : Option (List (String × Setting)) := do
  let s ← String.fromUTF8? bytes
  match ← format.read? ((s.dropPrefix? "\ufeff").elim s (·.toString)) with
  | .table entries => some entries
  | _ => none

/-- The settings that a file and the environment make together. -/
def ofLayers (file env : List (String × Setting)) : Except SettingsError Settings :=
  match ofSetting? ((Setting.empty.addLayer file).addLayer env) with
  | some settings => .ok settings
  | none => .error .invalid

variable {m : Type → Type} [Monad m]

/-- Finds the settings file of a directory that counts. -/
def findFile? (sys : System m) (dir : Path) : m (Option (Path × FileFormat)) :=
  files.findSomeM? fun (name, format) ↦ do
    let path := dir.join (Path.ofText name)
    return if ← sys.isThere path then some (path, format) else none

/-- Reads the settings for a directory. -/
def load (sys : System m) (env : Environment) (dir : Path) : m (Except SettingsError Settings) := do
  match ← findFile? sys dir with
  | none => return ofLayers [] env.layer
  | some (path, format) =>
    match ← (sys.read path).run with
    | .error _ => return .error .unreadable
    | .ok bytes =>
      match readFile? format bytes with
      | none => return .error .unreadable
      | some file => return ofLayers file env.layer

/-! ### A file to start from -/

/-- The text of a settings file with the usual values and a rule as an example. -/
def sample : String :=
  "recursive = true\nformat = \"tree\"\n\n[replacements]\nfiles = []\nfolders = []\n\n" ++
    "[[replacements.all]]\nsearch = \"__name__\"\nreplace = \"my-project\"\n"

end Settings

end Scaffold
