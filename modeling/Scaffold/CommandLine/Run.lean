import Scaffold.CommandLine.Completion
import Scaffold.CommandLine.Options
import Scaffold.Disk.Local
import Scaffold.FrontMatter.Reader
import Scaffold.Plan.Planner
import Scaffold.Render.Plan

/-!
# Running commands

A command is run against a disk and its surroundings, and answers with a status. What it writes to
its two outputs is gathered in a transcript, which a failure does not take back.
-/

namespace Scaffold.CommandLine

/-- What surrounds a run. -/
structure Surroundings where
  /-- The current directory. -/
  directory : Path
  home : String
  environment : Environment
  /-- The bytes of the standard input. -/
  input : Except OsError ByteArray

/-- What has been written to the standard output and to the standard error. -/
structure Transcript where
  out : String := ""
  err : String := ""
deriving DecidableEq, Repr

/-- Why a command failed. -/
inductive Failure where
  | readInput (reason : OsError)
  | readFile (file : Path) (reason : OsError)
  | planning (reason : PlanError)
  | settingsFileExists (file : Path)
  | writeSettings (reason : OsError)
  | noCompletionDir
  | makeCompletionDir (dir : Path) (reason : OsError)
  | writeCompletion (reason : OsError)
deriving DecidableEq

/-- A failure in words, and behind that what caused it. -/
def Failure.chain : Failure → List String
  | readInput reason => ["Failed to read structure from stdin", reason.text]
  | readFile file reason => [s!"Failed to read structure file {file.text}", reason.text]
  | planning reason => ["Failed to plan structure", reason.message]
  | settingsFileExists file =>
    [s!"Config file already exists at {file.text}. Use --force to overwrite."]
  | writeSettings reason => ["Failed to write config file", reason.text]
  | noCompletionDir => ["--out-dir is required unless --stdout is set"]
  | makeCompletionDir dir reason => [s!"create completion dir {dir.text}", reason.text]
  | writeCompletion reason => ["generate completion file", reason.text]

/-- A failure with its causes as it is reported. -/
def Failure.report (failure : Failure) : String :=
  match failure.chain with
  | [] => ""
  | outer :: causes =>
    let lines := causes.map fun cause ↦ "    " ++ cause ++ "\n"
    let behind := if causes.isEmpty then "" else "\nCaused by:\n" ++ String.join lines
    "Error: " ++ outer ++ "\n" ++ behind

/-- A run that may fail. -/
abbrev Session (m : Type → Type) (α : Type) : Type := ExceptT Failure (StateT Transcript m) α

namespace Session

variable {m : Type → Type} [Monad m]

/-- Writes a line to the standard output. -/
def say (line : String) : Session m Unit :=
  modify fun t ↦ { t with out := t.out ++ line ++ "\n" }

/-- Writes a line to the standard error. -/
def sayError (line : String) : Session m Unit :=
  modify fun t ↦ { t with err := t.err ++ line ++ "\n" }

/-- Writes a warning to the standard error. -/
def warn (warning : String) : Session m Unit :=
  sayError (TextStyle.yellow.paint "warning:" ++ " " ++ warning)

/-- Something that cannot fail. -/
def doing {α : Type} (x : m α) : Session m α := ExceptT.lift (StateT.lift x)

/-- A call of the operating system, with what its failure means. -/
def calling {α : Type} (failure : OsError → Failure) (call : OsCall m α) : Session m α := do
  match ← doing call.run with
  | .ok a => pure a
  | .error e => throw (failure e)

end Session

open Session

variable {m : Type → Type} [Monad m] [Recursive m] (sys : System m) (around : Surroundings)

/-! ### Structures -/

/-- The name that stands for the standard input. -/
def standardInput : Path := Path.ofText "-"

/-- The text that some bytes are. -/
def decode (failure : OsError → Failure) (bytes : ByteArray) : Session m String :=
  match String.fromUTF8? bytes with
  | some s => pure s
  | none => throw (failure (.refused "stream did not contain valid UTF-8"))

/-- Reads the text of a structure. -/
def readStructure (input : Path) : Session m String := do
  if input.parts = standardInput.parts then
    match around.input with
    | .ok bytes => decode .readInput bytes
    | .error e => throw (.readInput e)
  else
    decode (.readFile input) (← calling (.readFile input) (sys.read input))

/-- The settings for the current directory. Settings that cannot be used do not count. -/
def currentSettings : m Settings := do
  return match ← Settings.load sys around.environment (Path.ofText ".") with
    | .ok settings => settings
    | .error _ => {}

/-- Plans the structure that the arguments name; answers also how to show it. -/
def makePlan (arguments : StructureArguments) : Session m (Plan × OutputFormat) := do
  let settings ← doing (currentSettings sys around)
  let text ← readStructure sys around arguments.input
  let options := arguments.planOptions settings around.directory around.home
  match ← doing (Planner.plan sys.backend FrontMatter.read? options text).run with
  | .ok plan => pure (plan, arguments.outputFormat settings)
  | .error e => throw (.planning e)

/-- Shows the plan for a structure. -/
def runPlan (globals : Globals) (arguments : StructureArguments) : Session m Unit := do
  let (plan, format) ← makePlan sys around arguments
  say (Render.plan plan format (!globals.noColor))
  if !globals.quiet && format != .json then
    for (op, warning) in plan.warnings do
      warn s!"{op.target.text}: {warning}"

/-- Shows a report. A quiet run shows none, unless in a format for other programs. -/
def showReport (globals : Globals) (format : OutputFormat) (report : Report) : Session m Unit := do
  if format = .json then say (Render.report report format)
  else if !globals.quiet then
    say (Render.report report format)
    for warning in report.warnings do
      warn warning.text
    let style : TextStyle := if report.hadWarnings then .yellow else .green
    say (style.paint s!"{report.log.length} operations, {report.warnings.length} warnings")

/-- The status of a run that is not to have warnings and had some. -/
def warnedStatus : Nat := 2

/-- Makes a structure. -/
def runApply (globals : Globals) (arguments : StructureArguments) (strict : Bool) :
    Session m Nat := do
  if globals.dryRun then
    if !globals.quiet then say (TextStyle.yellow.paint "DRY RUN: nothing will be written")
    runPlan sys around globals arguments
    return 0
  let (plan, format) ← makePlan sys around arguments
  let report ← doing (Execution.executePlan sys.backend plan)
  showReport globals format report
  return if strict && report.hadWarnings then warnedStatus else 0

/-! ### Files of the program's own -/

/-- Writes a settings file to start from. -/
def runInit (globals : Globals) (dir : Path) (force : Bool) : Session m Unit := do
  let file := dir.join (Path.ofText Settings.usualFileName)
  if !force then
    if ← doing (sys.isThere file) then throw (.settingsFileExists file)
  calling .writeSettings (sys.write file Settings.sample.toUTF8)
  if !globals.quiet then say s!"Created config file at {file.text}"

/-- Writes the completions for a shell into a directory, which is created; answers their file. -/
def writeCompletion (shell : Shell) (dir : Path) : Session m Path := do
  calling (.makeCompletionDir dir) (sys.createDirs dir)
  let file := dir.join (Path.ofText (Completion.fileName shell))
  calling .writeCompletion (sys.write file (Completion.script shell).toUTF8)
  return file

/-- Shows the completions for a shell, or writes them to a file. -/
def runCompletions (globals : Globals) (shell : Shell) (dir : Option Path) (stdout : Bool) :
    Session m Unit := do
  if stdout then
    modify fun t ↦ { t with out := t.out ++ Completion.script shell }
  else
    match dir with
    | none => throw .noCompletionDir
    | some dir =>
      let file ← writeCompletion sys shell dir
      if !globals.quiet then sayError s!"Wrote completion to {file.text}"

/-! ### Commands -/

/-- Runs a command; answers its status. -/
def Invocation.run (invocation : Invocation) : Session m Nat := do
  match invocation.command with
  | .plan arguments =>
    runPlan sys around invocation.globals arguments
    return 0
  | .apply arguments strict => runApply sys around invocation.globals arguments strict
  | .init dir force =>
    runInit sys invocation.globals dir force
    return 0
  | .completions shell dir stdout =>
    runCompletions sys invocation.globals shell dir stdout
    return 0

end Scaffold.CommandLine
