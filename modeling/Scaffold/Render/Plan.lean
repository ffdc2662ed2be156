import Scaffold.Execution
import Scaffold.Render.Color
import Scaffold.Render.Format
import Scaffold.Render.Json
import Scaffold.Render.Table
import Scaffold.Render.Tree

/-!
# Plans and reports as text

A plan is shown as a tree below the root of the structure, as a table or as JSON; a report as a
table or as JSON.
-/

namespace Scaffold

namespace Render

/-! ### Trees -/

/-- The extension of a file name: what follows its last dot, if something is in front of it. -/
def extension? (name : String) : Option String := do
  let file ← (Path.ofText name).fileName?
  let chars := file.text.toList.reverse
  let ext := chars.takeWhile (· != '.')
  match chars.drop ext.length with
  | _ :: _ :: _ => some (String.ofList ext.reverse)
  | _ => none

/-- The name of a file, painted by its extension. -/
def colorByExtension (paint : TextStyle → String → String) (name : String) : String :=
  match extension? name with
  | some "rs" => paint .yellow name
  | some "py" => paint .green name
  | some "js" | some "jsx" | some "ts" | some "tsx" => paint .cyan name
  | some "go" => paint .magenta name
  | some "c" | some "cpp" | some "cc" | some "cxx" | some "h" | some "hpp" => paint .red name
  | some "md" | some "txt" | some "readme" => paint .white name
  | some "toml" | some "yaml" | some "yml" | some "json" => paint .brightBlue name
  | _ => name

/-- The name of an entry; that of a directory ends in a slash. -/
def nameLabel (paint : TextStyle → String → String) (op : Operation) (color : Bool) : String :=
  match op.isDirectory, color with
  | true, true => paint .blue op.name ++ "/"
  | true, false => op.name ++ "/"
  | false, true => colorByExtension paint op.name
  | false, false => op.name

/-- The source of a transfer, behind the name. -/
def sourceNote (paint : TextStyle → String → String) (op : Operation) (color : Bool) : String :=
  match op.source with
  | some source =>
    let note := s!"<- {source.text} ({op.kind.label})"
    if color then " " ++ paint .dimmed note else " " ++ note
  | none => ""

/-- The warning of an operation, at the end. -/
def warningNote (paint : TextStyle → String → String) (op : Operation) (color : Bool) : String :=
  match op.warning with
  | some warning =>
    let note := s!"! {warning}"
    if color then " " ++ paint .yellow note else " " ++ note
  | none => ""

/-- What stands for an operation in a tree. -/
def nodeLabel (paint : TextStyle → String → String) (op : Operation) (color : Bool) : String :=
  nameLabel paint op color ++ sourceNote paint op color ++ warningNote paint op color

/-- The root of the structure, above the tree. -/
def rootLabel (paint : TextStyle → String → String) (plan : Plan) (color : Bool) : String :=
  if color then paint .bold plan.options.root.text else plan.options.root.text

/-- The trees for operations with a common parent and all that is below them, at most `depth` levels
deep. -/
def labelForest (paint : TextStyle → String → String) (plan : Plan) (color : Bool) :
    (depth : Nat) → List Nat → LabelForest
  | 0, _ => .nil
  | depth + 1, positions =>
    positions.foldr (fun i next ↦
      match plan.operations[i]? with
      | none => next
      | some op =>
        .tree (nodeLabel paint op color)
          (labelForest paint plan color depth (plan.children i)) next) .nil

/-- The tree of a plan, with labels that are painted by `paint` and put into a text by `print`. A
parent stands before its children, so no branch has more levels than there are operations. -/
def treeBy (paint : TextStyle → String → String) (print : String → LabelForest → String)
    (plan : Plan) (color : Bool) : String :=
  print (rootLabel paint plan color)
    (labelForest paint plan color plan.operations.length plan.roots)

/-- The tree of a plan, for a terminal. -/
def tree (plan : Plan) (color : Bool) : String :=
  treeBy TextStyle.paint LabelForest.print plan color

/-! ### Tables -/

/-- The text of a path that may be missing. -/
def pathText (p : Option Path) : String := (p.map Path.text).getD ""

/-- The row of an operation. -/
def operationRow (op : Operation) : List String :=
  [op.kind.label,
    String.ofList (List.replicate (2 * op.depth) ' ') ++ op.target.text,
    pathText op.source,
    if op.isDirectory then "yes" else "no",
    toString op.depth,
    op.warning.getD ""]

/-- The table of a plan. -/
def planTable (plan : Plan) : String :=
  Table.render ["Type", "Target", "Source", "Dir", "Depth", "Warning"]
    (plan.operations.map operationRow)

/-- The row of a log entry. -/
def logRow (e : LogEntry) : List String :=
  [e.outcome.label, e.kind.label, e.path.text, pathText e.source]

/-- The table of a report. -/
def reportTable (report : Report) : String :=
  Table.render ["Result", "Type", "Path", "Source"] (report.log.map logRow)

/-! ### JSON -/

/-- A path as JSON. -/
def pathJson (p : Path) : Json := .string p.text

/-- An operation as JSON. -/
def operationJson (op : Operation) : Json :=
  .object ([("type", .string op.kind.label), ("targetPath", pathJson op.target)] ++
    Json.optional "sourcePath" pathJson op.source ++
    [("isDirectory", .bool op.isDirectory), ("depth", .nat op.depth), ("name", .string op.name)] ++
    Json.optional "warning" Json.string op.warning ++
    Json.optional "parent" Json.nat op.parent)

/-- A list of rename rules as JSON. -/
def rulesJson (rules : List RenameRule) : Json :=
  .array (rules.map fun rule ↦
    .object [("search", .string rule.search), ("replace", .string rule.replace)])

/-- The rename rules of all scopes as JSON. -/
def scopesJson (rules : RenameRules) : Json :=
  .object [("all", rulesJson rules.all), ("files", rulesJson rules.files),
    ("folders", rulesJson rules.folders)]

/-- The options of a plan as JSON. -/
def optionsJson (options : PlanOptions) : Json :=
  .object [("rootDir", pathJson options.root), ("replacements", scopesJson options.rules),
    ("recursive", .bool options.recursive)]

/-- Front matter as JSON. -/
def frontMatterJson (f : FrontMatter) : Json :=
  .object [("fileReplacements", rulesJson f.fileRules),
    ("folderReplacements", rulesJson f.folderRules)]

/-- A plan as JSON. -/
def planJson (plan : Plan) : Json :=
  .object ([("operations", .array (plan.operations.map operationJson)),
    ("options", optionsJson plan.options)] ++
    Json.optional "frontmatter" frontMatterJson plan.frontMatter)

/-- The word for an outcome in JSON. -/
def outcomeWord : Outcome → String
  | .succeeded => "succeeded"
  | .fellBack => "fell-back"
  | .failed => "failed"
  | .skipped => "skipped"

/-- A log entry as JSON. -/
def logEntryJson (e : LogEntry) : Json :=
  .object ([("type", .string e.kind.label), ("path", pathJson e.path)] ++
    Json.optional "source" pathJson e.source ++
    [("isDirectory", .bool e.isDirectory), ("outcome", .string (outcomeWord e.outcome))])

/-- A report as JSON. -/
def reportJson (report : Report) : Json :=
  .object [("operations", .array (report.operations.map operationJson)),
    ("operationLog", .array (report.log.map logEntryJson)),
    ("warnings", .array (report.warnings.map fun w ↦
      .object [("path", pathJson w.path), ("message", .string w.message)])),
    ("hadWarnings", .bool report.hadWarnings)]

/-! ### Formats -/

/-- A plan in a format. Only a tree has colours. -/
def plan (p : Plan) (format : OutputFormat) (color : Bool) : String :=
  match format with
  | .tree => tree p color
  | .table => planTable p
  | .json => (planJson p).pretty

/-- A report in a format. There is no tree of a report; it is shown as a table. -/
def report (r : Report) (format : OutputFormat) : String :=
  match format with
  | .json => (reportJson r).pretty
  | .tree | .table => reportTable r

end Render

end Scaffold
