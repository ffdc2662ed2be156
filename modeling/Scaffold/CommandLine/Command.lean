import Scaffold.CommandLine.Grammar
import Scaffold.Path.Basic

/-!
# Commands

What a command line says, once it has been read: a command with its arguments, and what holds for
every command.
-/

namespace Scaffold.CommandLine

/-- The arguments of the commands that work on a structure. -/
structure StructureArguments where
  /-- The file with the structure, or a dash for the standard input. -/
  input : Path
  root : Option Path := none
  format : Option OutputFormat := none
  noRecursive : Bool := false
  rules : RenameRules := {}
deriving DecidableEq

/-- A command with its arguments. -/
inductive Command where
  | plan (structure_ : StructureArguments)
  | apply (structure_ : StructureArguments) (strict : Bool)
  | init (dir : Path) (force : Bool)
  | completions (shell : Shell) (dir : Option Path) (stdout : Bool)
deriving DecidableEq

/-- What holds for every command. -/
structure Globals where
  noColor : Bool := false
  quiet : Bool := false
  dryRun : Bool := false
deriving DecidableEq, Repr

/-- A command line. -/
structure Invocation where
  command : Command
  globals : Globals
deriving DecidableEq

/-! ### Reading arguments -/

/-- The rules of an option. -/
def rulesUnder (given : Given) (name : String) : List RenameRule :=
  (given.values name).filterMap fun s ↦ (RenameRule.parse s).toOption

/-- The path under a name. -/
def pathUnder? (given : Given) (name : String) : Option Path :=
  (given.value? name).map Path.ofText

/-- The operand of the commands that work on a structure. -/
def structureOperand : OperandSpec :=
  { name := "INPUT", kind := .path, about := "Structure file to read, or `-` for stdin" }

/-- The arguments of a command that works on a structure. -/
def StructureArguments.ofGiven? (given : Given) : Option StructureArguments := do
  return {
    input := ← pathUnder? given structureOperand.name
    root := pathUnder? given "root"
    format := (given.value? "format").bind OutputFormat.ofLabel?
    noRecursive := given.has "no-recursive"
    rules := ⟨rulesUnder given "replace", rulesUnder given "replace-file",
      rulesUnder given "replace-folder"⟩ }

/-- What holds for every command. -/
def Globals.ofGiven (given : Given) : Globals :=
  ⟨given.has "no-color", given.has "quiet", given.has "dry-run"⟩

/-! ### What is accepted -/

/-- The name of the program. -/
def programName : String := "skelly"

/-- What the program is for. -/
def programAbout : String :=
  "Turn an indentation-based structure description into files and folders"

/-- The option that asks for help. -/
def helpOption : OptionSpec :=
  { long := "help", short := some 'h', action := .help, about := "Print help" }

/-- The option that asks for the version. -/
def versionOption : OptionSpec :=
  { long := "version", short := some 'V', action := .version, about := "Print version" }

/-- The options that may stand in front of the command and behind it. -/
def globalOptions : List OptionSpec :=
  [{ long := "no-color", about := "Disable colored output" },
    { long := "quiet", about := "Suppress progress spinners and non-essential output" },
    { long := "dry-run", about := "Show what would be done without touching the filesystem" }]

/-- An option for rename rules. -/
def ruleOption (long names : String) : OptionSpec :=
  { long, action := .value .rule true
    about := s!"Rename rule for {names} (SEARCH=REPLACE, repeatable)" }

/-- The options of the commands that work on a structure. -/
def structureOptions : List OptionSpec :=
  [{ long := "root", short := some 'r', action := .value .path false
     about := "Destination root directory (default: config `root_dir`, else `.`)" },
    { long := "format", short := some 'f', action := .value .format false
      about := "Output format (default: config `format`, else tree)" },
    { long := "no-recursive"
      about := "Do not enumerate the contents of copied or moved directories" },
    ruleOption "replace" "every name",
    ruleOption "replace-file" "file names only",
    ruleOption "replace-folder" "folder names only"]

/-- A command: what it is for, and what it accepts beside what every command does. -/
structure CommandSpec where
  name : String
  about : String
  options : List OptionSpec
  operand : OperandSpec
  /-- The command with the arguments that are given; nothing if its operand is missing. -/
  build : Given → Option Command

/-- What a command accepts. -/
def CommandSpec.level (spec : CommandSpec) : LevelSpec :=
  { options := spec.options ++ globalOptions ++ [helpOption], operand := some spec.operand }

/-- The command `plan`. -/
def planSpec : CommandSpec :=
  { name := "plan", about := "Parse a structure and print the planned operations"
    options := structureOptions
    operand := structureOperand
    build given := (StructureArguments.ofGiven? given).map .plan }

/-- The command `apply`. -/
def applySpec : CommandSpec :=
  { name := "apply", about := "Create the described structure on disk"
    options := structureOptions ++
      [{ long := "strict", about := "Exit with status 2 when the run produced warnings" }]
    operand := structureOperand
    build given := (StructureArguments.ofGiven? given).map (.apply · (given.has "strict")) }

/-- The command `init`. -/
def initSpec : CommandSpec :=
  { name := "init", about := "Initialize a skelly.toml config file"
    options := [{ long := "force", about := "Overwrite existing config file" }]
    operand :=
      { name := "PATH", kind := .path, required := false
        about := "Directory to initialize config in" }
    build given :=
      some (.init ((pathUnder? given "PATH").getD (Path.ofText ".")) (given.has "force")) }

/-- The command `completions`. -/
def completionsSpec : CommandSpec :=
  { name := "completions", about := "Generate shell completions"
    options :=
      [{ long := "out-dir", action := .value .path false
         about := "Output directory; if omitted and --stdout not set, prints error" },
        { long := "stdout", about := "Print completion script to stdout instead of a file" }]
    operand := { name := "SHELL", kind := .shell, about := "Target shell" }
    build given :=
      ((given.value? "SHELL").bind Shell.ofLabel?).map
        (.completions · (pathUnder? given "out-dir") (given.has "stdout")) }

/-- The commands. -/
def commandSpecs : List CommandSpec := [planSpec, applySpec, initSpec, completionsSpec]

/-- The command that shows help. -/
def helpCommand : String := "help"

/-- What help on help says. -/
def helpCommandAbout : String := "Print this message or the help of the given subcommand(s)"

/-- What is accepted in front of the command. -/
def topLevel : LevelSpec :=
  { options := globalOptions ++ [helpOption, versionOption]
    commands := commandSpecs.map (·.name) ++ [helpCommand] }

/-! ### Reading -/

/-- What the command for help answers: help on the program, or on a command. Commands have no
commands of their own. -/
def helpOn : List String → UsageError
  | [] => .help
  | [name] => if topLevel.commands.contains name then .help else .unknownCommand
  | _ => .unknownCommand

/-- Reads a command line, without the name of the program. -/
def Invocation.read (arguments : List String) : Except UsageError Invocation := do
  match ← topLevel.read {} arguments with
  | (given, none) => .error (if given.isEmpty then .noArguments else .noCommand)
  | (outer, some (name, rest)) =>
    match commandSpecs.find? (·.name == name) with
    | none => .error (helpOn rest)
    | some spec =>
      let (given, _) ← spec.level.read {} rest
      match spec.build given with
      | some command => return ⟨command, .ofGiven (outer ++ given)⟩
      | none => .error .missingOperand

end Scaffold.CommandLine
