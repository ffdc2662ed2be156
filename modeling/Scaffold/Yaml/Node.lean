import Scaffold.Yaml.Token

/-!
# YAML documents

Tokens are read into a tree of scalars, sequences and mappings. An alias stands for the node with
its anchor; which one that is, is looked up when the tree is used, so a node may be named inside
itself.
-/

namespace Scaffold.Yaml

/-- A node of a document. -/
inductive Node where
  | scalar (tag : Option String) (plain : Bool) (text : String)
  | sequence (items : List Node)
  | mapping (entries : List (Node × Node))
  /-- The node that was given the number. -/
  | alias (number : Nat)

/-- A document: its root, and the nodes that aliases stand for. -/
structure Document where
  root : Option Node
  anchored : List (Nat × Node)

/-- The scalar that stands where nothing is written. -/
def Node.nothing : Node := .scalar none true ""

/-- How far reading has come. -/
structure Reading where
  tokens : List Token
  /-- The numbers that anchors have been given. -/
  names : List (String × Nat) := []
  anchored : List (Nat × Node) := []
  /-- The handles that tags may use. -/
  handles : List String := []

/-- A reader of tokens. -/
abbrev Reader := StateT Reading Option

namespace Reader

/-- The next token. -/
def peek : Reader Token := do
  match (← get).tokens with
  | t :: _ => pure t
  | [] => failure

/-- Passes over a token. -/
def skip : Reader Unit := modify fun r ↦ { r with tokens := r.tokens.drop 1 }

/-- The tag that a handle and what follows it stand for. -/
def resolveTag (handle suffix : String) : Reader String := do
  if handle.isEmpty then pure suffix
  else if (← get).handles.contains handle then pure (handle ++ suffix)
  else if handle == "!!" then pure ("tag:yaml.org,2002:" ++ suffix)
  else if handle == "!" then pure ("!" ++ suffix)
  else failure

/-- The anchor and the tag in front of a node, in any order, each at most once. -/
def properties : Reader (Option String × Option String) := do
  match ← peek with
  | .anchor name => do
    skip
    match ← peek with
    | .tag handle suffix => do
      skip
      pure (some name, some (← resolveTag handle suffix))
    | _ => pure (some name, none)
  | .tag handle suffix => do
    skip
    match ← peek with
    | .anchor name => do
      skip
      pure (some name, some (← resolveTag handle suffix))
    | _ => pure (none, some (← resolveTag handle suffix))
  | _ => pure (none, none)

/-- Gives an anchor a number. -/
def nameAnchor (name : Option String) : Reader (Option Nat) := do
  match name with
  | none => pure none
  | some name =>
    let r ← get
    let number := r.names.length
    set { r with names := (name, number) :: r.names.filter (·.1 != name) }
    pure (some number)

/-- Keeps a node under the number of its anchor. -/
def keep (number : Option Nat) (node : Node) : Reader Node := do
  if let some n := number then
    modify fun r ↦ { r with anchored := (n, node) :: r.anchored.filter (·.1 != n) }
  pure node

mutual

/-- Reads a node. Only where `block` holds may it be a block, and where `indentless` holds too, a
sequence of dashes that is not indented. -/
def node (fuel : Nat) (block indentless : Bool) : Reader Node :=
  match fuel with
  | 0 => failure
  | fuel + 1 => do
    if let .alias name ← peek then
      skip
      match (← get).names.lookup name with
      | some number => return .alias number
      | none => failure
    let (anchor, tag) ← properties
    let number ← nameAnchor anchor
    match ← peek with
    | .blockEntry =>
      if indentless then keep number (.sequence (← indentlessItems fuel))
      else if anchor.isSome || tag.isSome then keep number (.scalar tag true "")
      else failure
    | .scalar plain text => do
      skip
      keep number (.scalar tag plain text)
    | .flowSequenceStart => do
      skip
      keep number (.sequence (← flowItems fuel true))
    | .flowMappingStart => do
      skip
      keep number (.mapping (← flowEntries fuel true))
    | .blockSequenceStart =>
      if block then do
        skip
        keep number (.sequence (← blockItems fuel))
      else if anchor.isSome || tag.isSome then keep number (.scalar tag true "")
      else failure
    | .blockMappingStart =>
      if block then do
        skip
        keep number (.mapping (← blockEntries fuel))
      else if anchor.isSome || tag.isSome then keep number (.scalar tag true "")
      else failure
    | _ =>
      if anchor.isSome || tag.isSome then keep number (.scalar tag true "") else failure

/-- Reads a node unless one of the given tokens comes first. -/
def nodeUnless (fuel : Nat) (block indentless : Bool) (stops : List Token) : Reader Node :=
  match fuel with
  | 0 => failure
  | fuel + 1 => do
    if stops.contains (← peek) then pure .nothing else node fuel block indentless

/-- The items of a block sequence. -/
def blockItems (fuel : Nat) : Reader (List Node) :=
  match fuel with
  | 0 => failure
  | fuel + 1 => do
    match ← peek with
    | .blockEntry => do
      skip
      let item ← nodeUnless fuel true false [.blockEntry, .blockEnd]
      return item :: (← blockItems fuel)
    | .blockEnd => do
      skip
      pure []
    | _ => failure

/-- The items of a sequence that is not indented. -/
def indentlessItems (fuel : Nat) : Reader (List Node) :=
  match fuel with
  | 0 => failure
  | fuel + 1 => do
    match ← peek with
    | .blockEntry => do
      skip
      let item ← nodeUnless fuel true false [.blockEntry, .key, .value, .blockEnd]
      return item :: (← indentlessItems fuel)
    | _ => pure []

/-- The entries of a block mapping. -/
def blockEntries (fuel : Nat) : Reader (List (Node × Node)) :=
  match fuel with
  | 0 => failure
  | fuel + 1 => do
    match ← peek with
    | .key => do
      skip
      let key ← nodeUnless fuel true true [.key, .value, .blockEnd]
      let value ← match ← peek with
        | .value => do
          skip
          nodeUnless fuel true true [.key, .value, .blockEnd]
        | _ => pure .nothing
      return (key, value) :: (← blockEntries fuel)
    | .blockEnd => do
      skip
      pure []
    | _ => failure

/-- The items of a sequence in brackets. -/
def flowItems (fuel : Nat) (first : Bool) : Reader (List Node) :=
  match fuel with
  | 0 => failure
  | fuel + 1 => do
    if (← peek) == .flowSequenceEnd then
      skip
      return []
    if !first then
      if (← peek) != .flowEntry then failure
      skip
    match ← peek with
    | .flowSequenceEnd => do
      skip
      pure []
    | .key => do
      skip
      let key ← nodeUnless fuel false false [.value, .flowEntry, .flowSequenceEnd]
      let value ← match ← peek with
        | .value => do
          skip
          nodeUnless fuel false false [.flowEntry, .flowSequenceEnd]
        | _ => pure .nothing
      return .mapping [(key, value)] :: (← flowItems fuel false)
    | _ =>
      let item ← node fuel false false
      return item :: (← flowItems fuel false)

/-- The entries of a mapping in braces. -/
def flowEntries (fuel : Nat) (first : Bool) : Reader (List (Node × Node)) :=
  match fuel with
  | 0 => failure
  | fuel + 1 => do
    if (← peek) == .flowMappingEnd then
      skip
      return []
    if !first then
      if (← peek) != .flowEntry then failure
      skip
    match ← peek with
    | .flowMappingEnd => do
      skip
      pure []
    | .key => do
      skip
      let key ← nodeUnless fuel false false [.value, .flowEntry, .flowMappingEnd]
      let value ← match ← peek with
        | .value => do
          skip
          nodeUnless fuel false false [.flowEntry, .flowMappingEnd]
        | _ => pure .nothing
      return (key, value) :: (← flowEntries fuel false)
    | _ =>
      let key ← node fuel false false
      return (key, .nothing) :: (← flowEntries fuel false)

end

/-! ### Documents -/

/-- Reads the directives in front of a document: a version at most once, and handles for tags. -/
def directives : Nat → Bool → Reader Unit
  | 0, _ => failure
  | fuel + 1, versioned => do
    match ← peek with
    | .versionDirective major minor => do
      if versioned || major != 1 || !(minor == 1 || minor == 2) then failure
      skip
      directives fuel true
    | .tagDirective handle => do
      let r ← get
      if r.handles.contains handle then failure
      set { r with tokens := r.tokens.drop 1, handles := handle :: r.handles }
      directives fuel versioned
    | _ => pure ()

/-- Whether a token ends a document or starts the next. -/
def separates : Token → Bool
  | .versionDirective _ _ | .tagDirective _ | .documentStart | .documentEnd | .streamEnd => true
  | _ => false

/-- Passes over the marks at the end of documents. -/
def skipEnds : Nat → Reader Unit
  | 0 => failure
  | fuel + 1 => do
    if (← peek) == .documentEnd then
      skip
      skipEnds fuel

/-- Reads a stream that holds one document at most. -/
def stream (fuel : Nat) : Reader (Option Node) := do
  if (← peek) == .streamEnd then return none
  if separates (← peek) then
    directives fuel false
    if (← peek) != .documentStart then failure
    skip
  let root ← if separates (← peek) then pure .nothing else node fuel true false
  skipEnds fuel
  if (← peek) == .streamEnd then return some root else failure

end Reader

/-- The document that a text holds; one without content has no root. Nothing when the text cannot
be read or holds several documents. -/
def document? (text : String) : Option Document := do
  let tokens ← tokens? text
  let (root, r) ← (Reader.stream (4 * tokens.length + 8)).run { tokens }
  return { root, anchored := r.anchored }

end Scaffold.Yaml
