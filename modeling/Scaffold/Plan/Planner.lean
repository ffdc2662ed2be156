import Scaffold.EntryText
import Scaffold.Line.Basic
import Scaffold.Plan.Basic
import Scaffold.Storage.Backend
import Scaffold.Text.Split

/-!
# Planning

Lines become operations one by one. The depth of a line says which of the directories that are open
above it is its parent: the line closes those at its own depth and below, and a line deeper than
every open directory belongs to the deepest. A line for a directory opens it.

The source of a transfer is looked up while planning. A missing one becomes a warning, and a
directory that is carried along is listed all the way down. The store is only asked, never changed.
-/

namespace Scaffold.Planner

variable {m : Type → Type} [Monad m]

/-! ### What is inside a source -/

/-- The warning that a directory could not be listed. -/
def listingWarning (source : Path) (e : StorageError) : String :=
  s!"could not list {source.text} ({e.code}): {e.message}"

/-- The operation for an entry found in the directory `source`, which is carried to `target`. -/
def includedOperation (rules : RenameRules) (parent : Nat) (source target : Path) (depth : Nat)
    (entry : DirEntry) : Operation :=
  let isDirectory := entry.kind == .directory
  let name := rules.apply entry.name.text isDirectory
  { kind := .included
    target := target.join (Path.ofText name)
    source := some (source.child entry.name)
    isDirectory, depth, name
    warning := none
    parent := some parent }

/-- A directory that a walk comes to: its path, the place to which it is carried, and the position
and the depth that its entries have in the plan. -/
structure Visit where
  parent : Nat
  source : Path
  target : Path
  depth : Nat

/-- The operations for what is inside a directory, and `again` those for what is inside the
directories in it; with a warning for the directory if it cannot be listed. -/
def includedStep (list : Path → m (Except StorageError (List DirEntry))) (rules : RenameRules)
    (again : Visit → m (Option String × List Operation)) (visit : Visit) :
    m (Option String × List Operation) := do
  match ← list visit.source with
  | .error e => pure (some (listingWarning visit.source e), [])
  | .ok entries =>
    let found ← entries.foldlM (fun found entry ↦ do
      let op := includedOperation rules visit.parent visit.source visit.target visit.depth entry
      if op.isDirectory then
        let (warning, below) ← again
          ⟨visit.parent + 1 + found.length, visit.source.child entry.name, op.target,
            visit.depth + 1⟩
        pure (found ++ { op with warning } :: below)
      else
        pure (found ++ [op])) []
    pure (none, found)

/-- What stands for the answer of a walk that has none. -/
def endless (visit : Visit) : Option String × List Operation :=
  (some (listingWarning visit.source (Calls.endless visit.source)), [])

variable [Recursive m]

/-- The operations for what is inside a directory, however deep the directories in it lie in each
other. -/
def included (b : Backend m) (rules : RenameRules) : Visit → m (Option String × List Operation) :=
  Recursive.follow endless (includedStep (fun p ↦ OptionT.lift (b.list p).run) rules)

/-- Looks up the source of the transfer at position `index`: answers a warning for it, and the
operations for what is inside, if that is to be carried along entry by entry. -/
def inspectSource (b : Backend m) (options : PlanOptions) (index : Nat) (op : Operation)
    (source : Path) : m (Option String × List Operation) := do
  if !(← b.exists_ source) then
    pure (some s!"source path does not exist: {source.text}", [])
  else if !(op.isDirectory && options.recursive) then
    pure (none, [])
  else
    match ← (b.stat source).run with
    | .error e => pure (some s!"could not inspect source ({e.code}): {e.message}", [])
    | .ok found =>
      match found.kind with
      | .file => pure (none, [])
      | .directory =>
        included b options.rules ⟨index, source, op.target, op.depth + 1⟩

/-! ### Lines -/

/-- A directory that lines may stand in, with the position of its operation. -/
structure OpenDir where
  path : Path
  index : Nat
deriving DecidableEq

/-- How far planning has come. -/
structure Progress where
  operations : Array Operation := #[]
  /-- The open directories, outermost first. The root of the structure is always open. -/
  openDirs : List OpenDir := []
  /-- The style of the first line that was indented. -/
  style : Option IndentStyle := none

/-- Checks an indentation against the style of the structure, and answers that style as it is
after the line. -/
def checkIndent (style : Option IndentStyle) (line : Line) :
    Except PlanError (Option IndentStyle) :=
  let settle (seen : IndentStyle) : Except PlanError (Option IndentStyle) :=
    match style with
    | none => .ok (some seen)
    | some expected =>
      if expected = seen then .ok style else .error (.mixedIndentation line.number expected)
  match line.indent with
  | .none => .ok style
  | .tabs _ => settle .tabs
  | .spaces _ => settle .spaces
  | .mixed _ _ =>
    match style with
    | some expected => .error (.mixedIndentation line.number expected)
    | none => .error (.mixedIndentLine line.number)

/-- The operation for a line whose parent is the innermost of `openDirs`. -/
def lineOperation (options : PlanOptions) (openDirs : List OpenDir) (kind : LineKind) :
    Operation :=
  let (kind, source, written) := match kind with
    | .create name => (OperationKind.create, none, name)
    | .copy source target =>
      (.copy, some source, target.getD (EntryText.sourceBasename source))
    | .move source target =>
      (.move, some source, target.getD (EntryText.sourceBasename source))
  let isDirectory := EntryText.isDirectoryName written
  let name := options.rules.apply (EntryText.unescape written) isDirectory
  let around := (openDirs.getLast?.map OpenDir.path).getD options.root
  { kind
    target := around.join (Path.ofText name)
    source := source.map fun s ↦ EntryText.resolveSource options.home s options.root
    isDirectory
    depth := openDirs.length
    name
    warning := none
    parent := openDirs.getLast?.map OpenDir.index }

/-- Plans one line whose indentation has been checked. -/
def planLine (b : Backend m) (options : PlanOptions) (progress : Progress) (line : Line) :
    m Progress := do
  let openDirs := progress.openDirs.take line.depth
  let op := lineOperation options openDirs line.kind
  let index := progress.operations.size
  let (warning, inside) ← match op.source with
    | none => pure (none, [])
    | some source => inspectSource b options index op source
  pure
    { progress with
      operations := progress.operations.push { op with warning } ++ inside
      openDirs := if op.isDirectory then openDirs ++ [⟨op.target, index⟩] else openDirs }

/-- Plans lines up to the first whose indentation is refused. -/
def planLines (b : Backend m) (options : PlanOptions) (lines : List Line) :
    ExceptT PlanError m Progress :=
  lines.foldlM (fun progress line ↦
    match checkIndent progress.style line with
    | .error e => throw e
    | .ok style => ExceptT.lift (planLine b options { progress with style } line)) {}

/-- The lines of a text that are not blank, numbered from one. -/
def parseLines (lines : List String) : List Line :=
  lines.zipIdx.filterMap fun (raw, i) ↦ Line.parse? (i + 1) raw

/-! ### Whole structures -/

/-- A text without the byte order marks at its start, and with one spelling of line ends. -/
def normalize (text : String) : String :=
  String.ofList (Text.unifyLineEnds (text.toList.dropWhile (· == '\uFEFF')))

/-- Plans the structure that a text describes. -/
def plan (b : Backend m) (readBlock : String → Option FrontMatter) (options : PlanOptions)
    (text : String) : ExceptT PlanError m Plan := do
  let (frontMatter, body) := FrontMatter.extractWith readBlock (normalize text)
  let options := { options with rules := FrontMatter.merge options.rules frontMatter }
  match Expansion.expandText body with
  | .error e => throw (.overBudget e)
  | .ok lines =>
    let progress ← planLines b options (parseLines lines)
    return { operations := progress.operations.toList, options, frontMatter }

end Scaffold.Planner
