import Scaffold.Render.Format
import Scaffold.Rename

/-!
# Command lines

A level of a command line has options and at most one operand, or else commands, each of which
starts a level of its own. What a level accepts is said by data, and read by one function.

A value is checked late: not when it is read, but when the next option or operand is, or the line
ends. So an option that nobody knows is found before a bad value in front of it.
-/

namespace Scaffold.CommandLine

/-- Why a command line is not run. Help and the version are asked for; the rest are mistakes. -/
inductive UsageError where
  | help
  | version
  /-- Nothing is given at all. -/
  | noArguments
  | noCommand
  | unknownCommand
  | unknownArgument
  | missingOperand
  /-- A value is missing, or is none of those that are accepted. -/
  | invalidValue
  /-- A value is not written as it has to be. -/
  | malformedValue
  | repeatedOption
  /-- A value is given to an option that takes none. -/
  | unwantedValue
deriving DecidableEq, Repr

/-- Whether a command line asks for what is shown instead. -/
def UsageError.isRequest : UsageError → Bool
  | help | version => true
  | _ => false

/-- The status of the program on a command line that is not run. -/
def UsageError.status (e : UsageError) : Nat := if e.isRequest then 0 else 2

/-- The shells for which there are completions. -/
inductive Shell where
  | bash | zsh | fish | powerShell | elvish
deriving DecidableEq, Repr

namespace Shell

/-- The shells. -/
def all : List Shell := [bash, zsh, fish, powerShell, elvish]

/-- The name of a shell. -/
def label : Shell → String
  | bash => "bash"
  | zsh => "zsh"
  | fish => "fish"
  | powerShell => "power-shell"
  | elvish => "elvish"

/-- The shell with a name. -/
def ofLabel? (name : String) : Option Shell := all.find? (·.label == name)

end Shell

/-! ### What is accepted -/

/-- What a value is. -/
inductive ValueKind where
  | path
  | format
  | shell
  | rule
deriving DecidableEq, Repr

namespace ValueKind

/-- The words that a value may be, if only some are accepted. -/
def choices : ValueKind → List String
  | format => OutputFormat.all.map (·.label)
  | shell => Shell.all.map (·.label)
  | path | rule => []

/-- Checks a value. -/
def check (kind : ValueKind) (value : String) : Except UsageError Unit :=
  match kind with
  | path => if value.isEmpty then .error .invalidValue else .ok ()
  | format | shell => if kind.choices.contains value then .ok () else .error .invalidValue
  | rule =>
    match RenameRule.parse value with
    | .ok _ => .ok ()
    | .error _ => .error .malformedValue

end ValueKind

/-- What an option does. -/
inductive OptionAction where
  | flag
  | value (kind : ValueKind) (repeatable : Bool)
  | help
  | version
deriving DecidableEq, Repr

/-- An option. -/
structure OptionSpec where
  /-- The name behind two dashes. -/
  long : String
  /-- The letter behind one dash. -/
  short : Option Char := none
  action : OptionAction := .flag
  about : String
deriving DecidableEq, Repr

/-- An operand: a value that stands without a name. -/
structure OperandSpec where
  name : String
  kind : ValueKind
  required : Bool := true
  about : String
deriving DecidableEq, Repr

/-- What a level of a command line accepts. -/
structure LevelSpec where
  options : List OptionSpec
  operand : Option OperandSpec := none
  commands : List String := []
deriving DecidableEq, Repr

/-- The values that are given, under the names of their options or operands. A flag has the empty
value. -/
abbrev Given := List (String × String)

namespace Given

/-- Whether there is anything under a name. -/
def has (given : Given) (name : String) : Bool := (given.lookup name).isSome

/-- The values under a name. -/
def values (given : Given) (name : String) : List String :=
  (given.filter (·.1 == name)).map (·.2)

/-- The first value under a name. -/
def value? (given : Given) (name : String) : Option String := given.lookup name

end Given

/-! ### Reading -/

/-- A value that is still to be checked. -/
structure Pending where
  name : String
  kind : ValueKind
  repeatable : Bool
  /-- The value; nothing while it is awaited. -/
  value : Option String
deriving DecidableEq, Repr

/-- How far reading has come. -/
structure Reading where
  given : Given := []
  pending : Option Pending := none
  /-- Whether options are over. -/
  literal : Bool := false
deriving DecidableEq, Repr

namespace Reading

/-- Adds a value under a name, which cannot be given twice unless it is repeatable. -/
def add (r : Reading) (name value : String) (repeatable : Bool) : Except UsageError Reading :=
  if !repeatable && r.given.has name then .error .repeatedOption
  else .ok { r with given := r.given ++ [(name, value)] }

/-- Adds the value that is pending. -/
def settle (r : Reading) : Except UsageError Reading :=
  match r.pending with
  | none => .ok r
  | some p =>
    match p.value with
    | none => .error .invalidValue
    | some value => do
      let r ← { r with pending := none }.add p.name value p.repeatable
      p.kind.check value
      return r

/-- Whether an option awaits its value. -/
def awaits (r : Reading) : Bool :=
  !r.literal && r.pending.any fun p ↦ p.value.isNone

/-- Takes an option that stands without a value. -/
def takeOption (r : Reading) (spec : OptionSpec) : Except UsageError Reading := do
  let r ← r.settle
  match spec.action with
  | .flag => r.add spec.long "" false
  | .help => .error .help
  | .version => .error .version
  | .value kind repeatable => return { r with pending := some ⟨spec.long, kind, repeatable, none⟩ }

/-- Takes an option with the value that is attached to it. -/
def takeAttached (r : Reading) (spec : OptionSpec) (value : String) :
    Except UsageError Reading := do
  match spec.action with
  | .value kind repeatable =>
    let r ← r.settle
    { r with pending := some ⟨spec.long, kind, repeatable, some value⟩ }.settle
  | _ => .error .unwantedValue

/-- Takes a word that is no option: the awaited value, or the operand. -/
def takeWord (r : Reading) (level : LevelSpec) (word : String) : Except UsageError Reading :=
  if r.awaits then
    .ok { r with pending := r.pending.map fun p ↦ { p with value := some word } }
  else
    let taken (o : OperandSpec) : Bool :=
      r.given.has o.name || r.pending.any (·.name == o.name)
    match level.operand with
    | some operand =>
      if taken operand then .error .unknownArgument
      else do
        let r ← r.settle
        return { r with pending := some ⟨operand.name, operand.kind, false, some word⟩ }
    | none =>
      if level.commands.isEmpty || level.commands.contains word then .error .unknownArgument
      else .error .unknownCommand

/-- Takes the letters behind one dash. What stands behind the letter of an option with a value is
that value, with or without an equals sign in front. -/
def takeLetters (r : Reading) (level : LevelSpec) : List Char → Except UsageError Reading
  | [] => .ok r
  | c :: rest =>
    match level.options.find? (·.short == some c) with
    | none => .error .unknownArgument
    | some spec =>
      match spec.action, rest with
      | .value _ _, '=' :: value => r.takeAttached spec (String.ofList value)
      | .value _ _, c :: value => r.takeAttached spec (String.ofList (c :: value))
      | _, _ => do
        let r ← r.takeOption spec
        r.takeLetters level rest

/-- Takes what stands behind two dashes: the name of an option, and a value behind an equals
sign. -/
def takeLong (r : Reading) (level : LevelSpec) (word : List Char) : Except UsageError Reading :=
  let name := word.takeWhile (· != '=')
  match level.options.find? (·.long == String.ofList name), word.drop name.length with
  | none, _ => .error .unknownArgument
  | some spec, [] => r.takeOption spec
  | some spec, _ :: value => r.takeAttached spec (String.ofList value)

/-- Takes an argument. -/
def take (r : Reading) (level : LevelSpec) (argument : String) : Except UsageError Reading :=
  if r.literal then r.takeWord level argument
  else match argument.toList with
    | ['-', '-'] => .ok { r with literal := true }
    | '-' :: '-' :: word => r.takeLong level word
    | '-' :: c :: letters => r.takeLetters level (c :: letters)
    | _ => r.takeWord level argument

end Reading

/-- Reads the arguments of a level, up to the first that is a command; answers what is given, and
the command with what follows it. -/
def LevelSpec.read (level : LevelSpec) (r : Reading) :
    List String → Except UsageError (Given × Option (String × List String))
  | [] => do return ((← r.settle).given, none)
  | argument :: rest =>
    if !r.literal && !r.awaits && level.commands.contains argument then do
      return ((← r.settle).given, some (argument, rest))
    else do
      let r ← r.take level argument
      level.read r rest

end Scaffold.CommandLine
