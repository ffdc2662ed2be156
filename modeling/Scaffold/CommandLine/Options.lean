import Scaffold.CommandLine.Command
import Scaffold.Plan.Basic
import Scaffold.Settings

/-!
# Options

What the command line says comes before what the settings say. Rename rules are the exception: those
of the settings apply first, then those of the command line, scope by scope.
-/

namespace Scaffold.CommandLine

/-- A path as seen from a directory. -/
def absolutePath (directory p : Path) : Path := if p.isAbsolute then p else directory.join p

namespace StructureArguments

/-- Where the structure is made: where the command line says, else the settings, else here. -/
def rootPath (arguments : StructureArguments) (settings : Settings) : Path :=
  (arguments.root <|> settings.root).getD (Path.ofText ".")

/-- How the result is shown. -/
def outputFormat (arguments : StructureArguments) (settings : Settings) : OutputFormat :=
  arguments.format.getD settings.format

/-- The options of planning, seen from the current directory. -/
def planOptions (arguments : StructureArguments) (settings : Settings) (directory : Path)
    (home : String) : PlanOptions :=
  { root := absolutePath directory (arguments.rootPath settings)
    rules := settings.rules ++ arguments.rules
    recursive := settings.recursive && !arguments.noRecursive
    home }

end StructureArguments

end Scaffold.CommandLine
