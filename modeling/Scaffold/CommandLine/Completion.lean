import Scaffold.CommandLine.Command

/-!
# Completions

Scripts that teach a shell the commands, the options and the values of the program. Every script is
made from what the command line accepts, so it names all of that and nothing else.
-/

namespace Scaffold.CommandLine.Completion

/-- What can be completed behind some words. -/
structure Stage where
  /-- The command that has been given, if one has. -/
  command : Option String
  options : List OptionSpec
  /-- The words that can stand here, with what they are for. -/
  words : List (String × String)
  /-- Whether a file can stand here. -/
  files : Bool
deriving Repr

/-- The name of a stage. -/
def Stage.name (stage : Stage) : String :=
  stage.command.elim programName fun c ↦ s!"{programName}__{c}"

/-- The words that name the commands. -/
def commandWords : List (String × String) := commandSpecs.map fun spec ↦ (spec.name, spec.about)

/-- The stage behind a command. -/
def Stage.ofCommand (spec : CommandSpec) : Stage :=
  { command := some spec.name
    options := spec.level.options
    words := spec.operand.kind.choices.map (·, spec.operand.about)
    files := spec.operand.kind = .path }

/-- All stages. -/
def stages : List Stage :=
  { command := none
    options := topLevel.options
    words := commandWords ++ [(helpCommand, helpCommandAbout)]
    files := false } ::
  commandSpecs.map .ofCommand ++
  [{ command := some helpCommand, options := [], words := commandWords, files := false }]

/-- The kind of the value of an option. -/
def valueKind? (spec : OptionSpec) : Option ValueKind :=
  match spec.action with
  | .value kind _ => some kind
  | _ => none

/-- An option as it is written on a command line. -/
def flags (spec : OptionSpec) : List String :=
  spec.short.toList.map (fun c ↦ String.ofList ['-', c]) ++ ["--" ++ spec.long]

/-- Lines of a text. -/
def textOfLines (lines : List String) : String := String.join (lines.map (· ++ "\n"))

/-! ### Scripts -/

/-- The branch for the value of an option in a script for `bash`. -/
def bashValue (spec : OptionSpec) : List String :=
  match valueKind? spec with
  | none => []
  | some kind =>
    let found :=
      if kind.choices.isEmpty then "compgen -f \"$cur\""
      else "compgen -W \"" ++ " ".intercalate kind.choices ++ "\" -- \"$cur\""
    ["                " ++ "|".intercalate (flags spec) ++ ")",
      "                    COMPREPLY=($(" ++ found ++ "))",
      "                    return 0",
      "                    ;;"]

/-- The branch for a stage in a script for `bash`. -/
def bashStage (stage : Stage) : List String :=
  let words := stage.options.flatMap flags ++ stage.words.map (·.1)
  ["        " ++ stage.name ++ ")",
    "            opts=\"" ++ " ".intercalate words ++ "\"",
    "            case \"$prev\" in"] ++
  stage.options.flatMap bashValue ++
  ["            esac",
    "            COMPREPLY=($(compgen -W \"$opts\" -- \"$cur\"))"] ++
  (if stage.files then ["            COMPREPLY+=($(compgen -f \"$cur\"))"] else []) ++
  ["            return 0", "            ;;"]

/-- The script for `bash`. -/
def bash : String :=
  textOfLines (
    ["_" ++ programName ++ "() \x7b",
      "    local word cur prev opts cmd",
      "    COMPREPLY=()",
      "    cur=\"$2\"",
      "    prev=\"$3\"",
      "    cmd=\"" ++ programName ++ "\"",
      "    for word in \"$\x7bCOMP_WORDS[@]:1:COMP_CWORD-1\x7d\"; do",
      "        case \"$cmd,$word\" in"] ++
    stages.filterMap (fun stage ↦ stage.command.map fun c ↦
      s!"            {programName},{c}) cmd=\"{stage.name}\" ;;") ++
    ["        esac", "    done", "    case \"$cmd\" in"] ++
    stages.flatMap bashStage ++
    ["    esac",
      "\x7d",
      s!"complete -F _{programName} -o nosort -o bashdefault -o default {programName}"])

/-- A description inside single quotes and brackets. -/
def zshAbout (about : String) : String :=
  String.ofList (about.toList.flatMap fun c ↦
    if ['[', ']', ':', '\\'].contains c then ['\\', c] else [c])

/-- What completes a value in a script for `zsh`. -/
def zshValue (kind : ValueKind) : String :=
  if kind = .path then "_files"
  else if kind.choices.isEmpty then ""
  else "(" ++ " ".intercalate kind.choices ++ ")"

/-- The arguments of a stage in a script for `zsh`. -/
def zshStage (stage : Stage) : List String :=
  let option (spec : OptionSpec) : List String := (flags spec).map fun flag ↦
    let value := (valueKind? spec).elim "" fun kind ↦ ":value:" ++ zshValue kind
    s!"'{flag}[{zshAbout spec.about}]{value}' \\"
  let words := stage.words.map fun (word, about) ↦ s!"{word}\\:\"{zshAbout about}\""
  stage.options.flatMap option ++
  (if stage.files then ["'::file:_files' \\"]
    else ["'::word:((" ++ " ".intercalate words ++ "))' \\"]) ++
  ["&& ret=0"]

/-- The script for `zsh`. -/
def zsh : String :=
  textOfLines (
    ["#compdef " ++ programName,
      "",
      "_" ++ programName ++ "() \x7b",
      "    local ret=1 word cmd=" ++ programName,
      "    for word in $words[2,CURRENT-1]; do",
      "        case $cmd,$word in"] ++
    stages.filterMap (fun stage ↦ stage.command.map fun c ↦
      s!"            ({programName},{c}) cmd={stage.name} ;;") ++
    ["        esac", "    done", "    case $cmd in"] ++
    stages.flatMap (fun stage ↦
      ["(" ++ stage.name ++ ")", "_arguments -s -S : \\"] ++ zshStage stage ++ [";;"]) ++
    ["    esac",
      "    return ret",
      "\x7d",
      "",
      s!"compdef _{programName} {programName}"])

/-- A text inside single quotes, in which a quote is written as `quote` says. -/
def quoted (quote s : String) : String :=
  "'" ++ String.join (s.toList.map fun c ↦ if c.toNat = 39 then quote else c.toString) ++ "'"

/-- The lines of a stage in a script for `fish`. -/
def fishStage (stage : Stage) : List String :=
  let condition := match stage.command with
    | none => "__fish_use_subcommand"
    | some c => s!"__fish_seen_subcommand_from {c}"
  let start := s!"complete -c {programName} -n \"{condition}\""
  let option (spec : OptionSpec) : String :=
    let short := spec.short.elim "" fun c ↦ " -s " ++ c.toString
    let value := match valueKind? spec with
      | none => ""
      | some .path => " -r -F"
      | some kind => " -r -f -a " ++ quoted "\\'" (" ".intercalate kind.choices)
    start ++ short ++ " -l " ++ spec.long ++ " -d " ++ quoted "\\'" spec.about ++ value
  let word (w : String × String) : String :=
    start ++ " -f -a \"" ++ w.1 ++ "\" -d " ++ quoted "\\'" w.2
  stage.options.map option ++ stage.words.map word

/-- The script for `fish`. -/
def fish : String := textOfLines (stages.flatMap fishStage)

/-- What can stand at a stage: the options and the words, each with what it is for. -/
def Stage.candidates (stage : Stage) : List (String × String) :=
  stage.options.flatMap (fun spec ↦ (flags spec).map (·, spec.about)) ++ stage.words

/-- The script for PowerShell. -/
def powerShell : String :=
  let result (w : String × String) : String :=
    let word := quoted "''" w.1
    let about := quoted "''" w.2
    s!"            [CompletionResult]::new({word}, {word}, " ++
      s!"[CompletionResultType]::ParameterValue, {about})"
  let stage (s : Stage) : List String :=
    let key := s.command.elim programName fun c ↦ s!"{programName};{c}"
    ["        " ++ quoted "''" key ++ " \x7b"] ++ s.candidates.map result ++
      ["            break", "        \x7d"]
  textOfLines (
    ["using namespace System.Management.Automation",
      "using namespace System.Management.Automation.Language",
      "",
      s!"Register-ArgumentCompleter -Native -CommandName '{programName}' -ScriptBlock \x7b",
      "    param($wordToComplete, $commandAst, $cursorPosition)",
      "    $words = @($commandAst.CommandElements | ForEach-Object \x7b $_.ToString() \x7d)",
      s!"    $command = '{programName}'",
      "    foreach ($word in $words[1..$words.Length]) \x7b",
      "        if ($word -ne $wordToComplete -and $word -notlike '-*') \x7b",
      "            $command = $command + ';' + $word",
      "            break",
      "        \x7d",
      "    \x7d",
      "    $completions = @(switch ($command) \x7b"] ++
    stages.flatMap stage ++
    ["    \x7d)",
      "    $completions.Where\x7b $_.CompletionText -like \"$wordToComplete*\" \x7d |",
      "        Sort-Object -Property ListItemText",
      "\x7d"])

/-- The script for `elvish`. -/
def elvish : String :=
  let candidate (w : String × String) : String :=
    "            cand " ++ w.1 ++ " " ++ quoted "''" w.2
  let stage (s : Stage) : List String :=
    let key := s.command.elim programName fun c ↦ s!"{programName};{c}"
    ["        &" ++ quoted "''" key ++ "= \x7b"] ++ s.candidates.map candidate ++ ["        \x7d"]
  textOfLines (
    ["use builtin;",
      "use str;",
      "",
      s!"set edit:completion:arg-completer[{programName}] = \x7b|@words|",
      "    fn cand \x7b|text desc|",
      "        edit:complex-candidate $text &display=$text' '$desc",
      "    \x7d",
      s!"    var command = '{programName}'",
      "    for word $words[1..-1] \x7b",
      "        if (not (str:has-prefix $word '-')) \x7b",
      "            set command = $command';'$word",
      "            break",
      "        \x7d",
      "    \x7d",
      "    var completions = ["] ++
    stages.flatMap stage ++
    ["    ]", "    $completions[$command]", "\x7d"])

/-- The script for a shell. -/
def script : Shell → String
  | .bash => bash
  | .zsh => zsh
  | .fish => fish
  | .powerShell => powerShell
  | .elvish => elvish

/-- The name of the file for the script of a shell. -/
def fileName : Shell → String
  | .bash => programName ++ ".bash"
  | .zsh => "_" ++ programName
  | .fish => programName ++ ".fish"
  | .powerShell => "_" ++ programName ++ ".ps1"
  | .elvish => programName ++ ".elv"

end Scaffold.CommandLine.Completion
