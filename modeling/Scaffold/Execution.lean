import Scaffold.Plan.Planner

/-!
# Execution of plans

Operations run in the order of the plan, one at a time, and each leaves one entry in the log. A
transfer that cannot be made leaves an empty file or directory at its target instead, and a
warning; nothing stops the run.

A directory whose contents are planned as included operations is transferred by those. When it is
moved, its source is removed behind the last of them, and only if all of them succeeded; when it
falls back, they are skipped and its target stays empty.
-/

namespace Scaffold

/-- How an operation ended. -/
inductive Outcome where
  | succeeded
  /-- An empty entry stands in place of the real one. -/
  | fellBack
  /-- There is not even an empty entry. -/
  | failed
  /-- The transfer around an included operation fell back. -/
  | skipped
deriving DecidableEq, Repr

/-- The word for an outcome in a table. -/
def Outcome.label : Outcome → String
  | succeeded => "ok"
  | fellBack => "fallback"
  | failed => "failed"
  | skipped => "skipped"

/-- What was done for one operation. -/
structure LogEntry where
  kind : OperationKind
  path : Path
  source : Option Path
  isDirectory : Bool
  outcome : Outcome
deriving DecidableEq

/-- The log entry of an operation. -/
def Operation.logged (op : Operation) (outcome : Outcome) : LogEntry :=
  ⟨op.kind, op.target, op.source, op.isDirectory, outcome⟩

/-- A problem that did not stop the run. -/
structure Warning where
  path : Path
  message : String
deriving DecidableEq

/-- A warning in words. -/
def Warning.text (w : Warning) : String := s!"{w.path.text}: {w.message}"

/-- What a run produced. -/
structure Report where
  operations : List Operation
  log : List LogEntry
  /-- The warnings of the plan, and behind them those of the run. -/
  warnings : List Warning
deriving DecidableEq

/-- Whether there were any warnings. -/
def Report.hadWarnings (report : Report) : Bool := !report.warnings.isEmpty

namespace Execution

/-- A moved directory whose source is removed behind the included operation at position `last`. -/
structure PendingMove where
  last : Nat
  source : Path
  /-- Whether every included operation so far has succeeded. -/
  intact : Bool
deriving DecidableEq

/-- How far a run has come. -/
structure Run where
  log : Array LogEntry := #[]
  warnings : Array Warning := #[]
  pending : List PendingMove := []
  /-- Included operations up to this position belong to a transfer that fell back. -/
  skipThrough : Option Nat := none

namespace Run

/-- Adds a warning. -/
def warn (run : Run) (path : Path) (message : String) : Run :=
  { run with warnings := run.warnings.push ⟨path, message⟩ }

/-- Adds the log entry of an operation. -/
def record (run : Run) (op : Operation) (outcome : Outcome) : Run :=
  { run with log := run.log.push (op.logged outcome) }

/-- Whether the operation at a position belongs to a transfer that fell back. -/
def skips (run : Run) (index : Nat) (op : Operation) : Bool :=
  op.kind == .included && run.skipThrough.any (index ≤ ·)

/-- Skips up to a position, or further if that was settled before. -/
def skippingThrough (run : Run) (last : Nat) : Run :=
  { run with skipThrough := some ((run.skipThrough.map (max · last)).getD last) }

/-- Notes that the included operation at a position did not succeed. -/
def spoil (run : Run) (index : Nat) : Run :=
  { run with
    pending := run.pending.map fun p ↦ if index ≤ p.last then { p with intact := false } else p }

end Run

variable {m : Type → Type} [Monad m] (b : Backend m)

/-! ### Empty entries -/

/-- Creates the directory in which a path lies. -/
def ensureParent (p : Path) : Attempt m Unit :=
  match p.parent? with
  | some parent => if parent.isEmpty then pure () else b.ensureDir parent
  | none => pure ()

/-- Makes an empty entry at the target of an operation: a directory unless there is one, or a file
in place of the one there. -/
def makeEmpty (op : Operation) : Attempt m Unit := do
  if op.isDirectory then
    b.ensureDir op.target
  else
    ensureParent b op.target
    b.write op.target ByteArray.empty

/-- The kind of entry that an operation makes. -/
def entryLabel (op : Operation) : String := (EntryKind.ofIsDirectory op.isDirectory).label

/-- Makes an empty entry because the operation could not be done. -/
def fallBack (op : Operation) (reason : String) (run : Run) : m Run := do
  match ← (makeEmpty b op).run with
  | .ok () =>
    pure ((run.warn op.target s!"{reason}; created empty {entryLabel op}").record op .fellBack)
  | .error e =>
    pure ((run.warn op.target
      s!"{reason}; failed to create fallback {entryLabel op} ({e.code}): {e.message}").record
        op .failed)

/-! ### The kinds of operations -/

/-- Creates an empty entry. -/
def create (op : Operation) (run : Run) : m Run := do
  match ← (makeEmpty b op).run with
  | .ok () => pure (run.record op .succeeded)
  | .error e =>
    pure ((run.warn op.target
      s!"failed to create {entryLabel op} ({e.code}): {e.message}").record op .failed)

/-- Transfers a source that is there. A directory is only created when its contents follow as
included operations, the last of them at position `last?`; a move of it is then pending. -/
def tryTransfer (last? : Option Nat) (op : Operation) (source : Path) :
    Attempt m (Option PendingMove) := do
  match (← b.stat source).kind with
  | .file =>
    ensureParent b op.target
    b.copyFile source op.target
    if op.kind = .move then b.unlink source
    pure none
  | .directory =>
    if op.target.startsWith source then
      throw (.failed op.target "destination is inside the source directory")
    match last? with
    | some last =>
      b.ensureDir op.target
      pure (if op.kind = .move then some ⟨last, source, true⟩ else none)
    | none =>
      if op.kind = .move then b.moveFolder source op.target else b.copyFolder source op.target
      pure none

/-- Why a transfer was not made; nothing when it was. -/
def transferReason (last? : Option Nat) (op : Operation) (source : Path) :
    m (Except String (Option PendingMove)) := do
  if ← b.exists_ source then
    match ← (tryTransfer b last? op source).run with
    | .ok pending => pure (.ok pending)
    | .error e => pure (.error s!"{op.kind.label} failed ({e.code}): {e.message}")
  else
    pure (.error s!"source not found: {source.text}")

/-- Copies or moves an entry, or falls back. -/
def transfer (plan : Plan) (index : Nat) (op : Operation) (source : Path) (run : Run) : m Run := do
  let last? := plan.includedEnd? index
  match ← transferReason b last? op source with
  | .ok pending =>
    pure ({ run with pending := run.pending ++ pending.toList }.record op .succeeded)
  | .error reason =>
    match last? with
    | some last =>
      fallBack b op s!"{reason}; skipped {last - index} included entries" (run.skippingThrough last)
    | none => fallBack b op reason run

/-- Copies an included entry whose source is still there. -/
def tryInclude (op : Operation) (source : Path) : Attempt m Unit := do
  if ← b.exists_ source then
    if op.isDirectory then
      b.ensureDir op.target
    else
      ensureParent b op.target
      b.copyFile source op.target
  else
    throw (.notFound source)

/-- Why an included entry could not be copied. -/
def includeReason (source : Path) (e : StorageError) : String :=
  match e with
  | .notFound p =>
    if p ≈ source then s!"source not found: {source.text}"
    else s!"copy failed ({e.code}): {e.message}"
  | _ => s!"copy failed ({e.code}): {e.message}"

/-- Copies an included entry, or falls back; then no move around it is completed. -/
def include_ (index : Nat) (op : Operation) (source : Path) (run : Run) : m Run := do
  match ← (tryInclude b op source).run with
  | .ok () => pure (run.record op .succeeded)
  | .error e => fallBack b op (includeReason source e) (run.spoil index)

/-! ### The run -/

/-- Does the operation at a position. -/
def step (plan : Plan) (index : Nat) (op : Operation) (run : Run) : m Run :=
  if run.skips index op then
    pure (run.record op .skipped)
  else
    match op.kind, op.source with
    | .create, _ | _, none => create b op run
    | .copy, some source | .move, some source => transfer b plan index op source run
    | .included, some source => include_ b index op source run

/-- Removes the source of a moved directory, if all of its contents were moved. -/
def settle (run : Run) (p : PendingMove) : m Run := do
  if p.intact then
    match ← (b.rm p.source true).run with
    | .ok () => pure run
    | .error e =>
      pure (run.warn p.source s!"failed to remove moved source ({e.code}): {e.message}")
  else
    pure (run.warn p.source "source kept because some entries could not be moved")

/-- Completes the moves whose last included operation is at a position. -/
def settleMoves (index : Nat) (run : Run) : m Run :=
  let (done, rest) := run.pending.partition (·.last == index)
  done.foldlM (settle b) { run with pending := rest }

/-- The beginning of a run: the warnings of the plan. -/
def start (plan : Plan) : Run :=
  plan.warnings.foldl (fun run (op, warning) ↦ run.warn op.target warning) {}

/-- Does an operation and completes the moves that end with it. -/
def advance (plan : Plan) (run : Run) : Operation × Nat → m Run
  | (op, index) => do settleMoves b index (← step b plan index op run)

/-- The report on a finished run. -/
def Run.report (run : Run) (plan : Plan) : Report :=
  ⟨plan.operations, run.log.toList, run.warnings.toList⟩

/-- Executes a plan. -/
def executePlan (plan : Plan) : m Report := do
  let run ← plan.operations.zipIdx.foldlM (advance b plan) (start plan)
  pure (run.report plan)

/-- Plans and executes the structure that a text describes. -/
def execute [Recursive m] (readBlock : String → Option FrontMatter) (options : PlanOptions)
    (text : String) : ExceptT PlanError m Report := do
  let plan ← Planner.plan b readBlock options text
  ExceptT.lift (executePlan b plan)

end Execution

end Scaffold
