import Scaffold.CommandLine.Run

/-!
# The program

Everything that the library leaves open is filled in here: the calls of the operating system, the
surroundings and the outputs.
-/

namespace Scaffold.Main

open CommandLine

/-- The number of an error of the operating system, if it has one. -/
def errno? : IO.Error → Option UInt32
  | .alreadyExists _ n _ | .otherError n _ | .resourceBusy n _ | .resourceVanished n _
  | .unsupportedOperation n _ | .hardwareFault n _ | .unsatisfiedConstraints n _
  | .illegalOperation n _ | .protocolError n _ | .timeExpired n _ | .interrupted _ n _
  | .noFileOrDirectory _ n _ | .invalidArgument _ n _ | .permissionDenied _ n _
  | .resourceExhausted _ n _ | .inappropriateType _ n _ | .noSuchThing _ n _ => some n
  | .unexpectedEof | .userError _ => none

/-- An error of the operating system. Its number may be given with the sign turned. -/
def osError (e : IO.Error) : OsError :=
  match errno? e with
  | some n => .errno ⟨(if 0x80000000 ≤ n then -n else n).toNat⟩
  | none => .refused (toString e)

/-- A call of the operating system. -/
def call {α : Type} (x : IO α) : OsCall BaseIO α := ExceptT.mk do
  match ← x.toBaseIO with
  | .ok a => pure (.ok a)
  | .error e => pure (.error (osError e))

/-- A path as the handle that calls on directories take. -/
def handle (p : Path) : IO.FS.DirEntry := { root := p.text, fileName := "" }

/-- The type of a file. -/
def fileType : IO.FS.FileType → FileType
  | .dir => .directory
  | .symlink => .link
  | .file | .other => .file

/-- The status of a file. -/
def fileStatus (found : IO.FS.Metadata) : FileStatus :=
  ⟨fileType found.type, found.byteSize.toNat⟩

/-- The entries of a directory with their types. -/
def listDir (p : Path) : IO (List (EntryName × FileType)) := do
  let found ← (handle p).root.readDir
  found.toList.filterMapM fun entry ↦ do
    if valid : isEntryName entry.fileName then
      return some (.spelled entry.fileName valid, fileType (← entry.path.symlinkMetadata).type)
    else
      return none

/-- The disk. -/
def disk : System BaseIO where
  stat p := call do return fileStatus (← (handle p).root.metadata)
  lstat p := call do return fileStatus (← (handle p).root.symlinkMetadata)
  mkdir p := call (IO.FS.createDir p.text)
  rmdir p := call (IO.FS.removeDir p.text)
  unlink p := call (IO.FS.removeFile p.text)
  rename source target := call (IO.FS.rename source.text target.text)
  list p := call (listDir p)
  read p := call (IO.FS.readBinFile p.text)
  write p bytes := call (IO.FS.writeBinFile p.text bytes)

/-- The recursion with the given step, followed as deep as it goes. -/
partial def follow {ι α : Type} [Inhabited (OptionT BaseIO α)]
    (step : (ι → OptionT BaseIO α) → ι → OptionT BaseIO α) (i : ι) : OptionT BaseIO α :=
  step (follow step) i

instance : Recursive BaseIO where
  follow {_ α} endless step i := do
    haveI : Inhabited (OptionT BaseIO α) := ⟨failure⟩
    return (← (follow step i).run).getD (endless i)

/-- Reads a stream to its end. -/
partial def readToEnd (stream : IO.FS.Stream) (before : ByteArray) : IO ByteArray := do
  let bytes ← stream.read 65536
  if bytes.isEmpty then return before else readToEnd stream (before ++ bytes)

/-- The variables of the environment. -/
def environment : IO Environment := do
  let bytes ← try IO.FS.readBinFile "/proc/self/environ" catch _ => pure ByteArray.empty
  let definitions := ((String.fromUTF8? bytes).getD "").splitOn "\x00"
  return definitions.filterMap fun definition ↦
    match definition.splitOn "=" with
    | name :: value :: more => some (name, "=".intercalate (value :: more))
    | _ => none

/-- Whether a command works on the standard input. -/
def readsInput : Command → Bool
  | .plan arguments | .apply arguments _ => arguments.input.parts = standardInput.parts
  | .init _ _ | .completions _ _ _ => false

/-- What surrounds the run of a command. -/
def surroundings (command : Command) : IO Surroundings := do
  let input ← if readsInput command then
      (call do readToEnd (← IO.getStdin) ByteArray.empty).run
    else
      pure (.ok ByteArray.empty)
  return {
    directory := Path.ofText (← IO.currentDir).toString
    home := (← IO.getEnv "HOME").getD ""
    environment := ← environment
    input }

/-- The line that says how an option is written and what it is for. -/
def optionLine (spec : OptionSpec) : String :=
  "  " ++ ", ".intercalate (Completion.flags spec) ++ "  " ++ spec.about

/-- The help on the program. -/
def helpText : String :=
  let commands := Completion.commandWords.map fun (name, about) ↦ s!"  {name}  {about}"
  "\n".intercalate
    ([programAbout, "", s!"Usage: {programName} [OPTIONS] <COMMAND>", "", "Commands:"] ++
      commands ++ ["", "Options:"] ++ topLevel.options.map optionLine)

/-- What is said of a command line that is not run. -/
def usageText : UsageError → String
  | .help => helpText
  | .version => s!"{programName} 0.1.0"
  | .noArguments => helpText
  | .noCommand => "error: a subcommand is required"
  | .unknownCommand => "error: unrecognized subcommand"
  | .unknownArgument => "error: unexpected argument"
  | .missingOperand => "error: a required argument was not provided"
  | .invalidValue => "error: a value is missing or not one of the possible values"
  | .malformedValue => "error: expected SEARCH=REPLACE"
  | .repeatedOption => "error: an argument cannot be used multiple times"
  | .unwantedValue => "error: an argument was given a value it does not take"

/-- Runs a command line. -/
def runInvocation (invocation : Invocation) : IO UInt32 := do
  let around ← surroundings invocation.command
  let (result, transcript) ← ((invocation.run disk around).run.run {} : BaseIO _)
  IO.print transcript.out
  IO.eprint transcript.err
  match result with
  | .ok status => return status.toUInt32
  | .error failure =>
    IO.eprint failure.report
    return 1

end Scaffold.Main

open Scaffold CommandLine in
/-- The program. -/
def main (arguments : List String) : IO UInt32 := do
  match Invocation.read arguments with
  | .ok invocation => Main.runInvocation invocation
  | .error e =>
    if e.isRequest then
      IO.println (Main.usageText e)
    else
      IO.eprintln (Main.usageText e)
    return e.status.toUInt32
