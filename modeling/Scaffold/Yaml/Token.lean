import Scaffold.Yaml.Scalar

/-!
# YAML tokens

The scanner turns text into tokens. Indentation and the colons behind keys become tokens of their
own: where a line is indented more a block is opened, where it is indented less blocks are closed,
and when a colon follows what may be a key, a token for the key is put in front of it afterwards.
-/

namespace Scaffold.Yaml

/-- A token. -/
inductive Token where
  | streamEnd
  | versionDirective (major minor : Nat)
  | tagDirective (handle : String)
  | documentStart | documentEnd
  | blockSequenceStart | blockMappingStart | blockEnd
  | flowSequenceStart | flowSequenceEnd
  | flowMappingStart | flowMappingEnd
  | blockEntry | flowEntry
  | key | value
  | alias (name : String)
  | anchor (name : String)
  | tag (handle suffix : String)
  /-- A scalar, and whether it is plain. -/
  | scalar (plain : Bool) (text : String)
deriving DecidableEq, Repr

/-- A token that may turn out to be a key, by its number and its place. -/
structure PossibleKey where
  /-- Whether it must turn out to be one. -/
  required : Bool
  token : Nat
  line : Nat
  index : Nat
  column : Nat

/-- How far scanning has come. -/
structure Scanner where
  cursor : Cursor
  tokens : Array Token := #[]
  /-- The column that the content of the current block needs; zero outside every block. -/
  floor : Nat := 0
  /-- The same for the blocks around it. -/
  outerFloors : List Nat := []
  /-- The possible keys around the brackets that are open, innermost first. -/
  outerKeys : List (Option PossibleKey) := []
  possibleKey : Option PossibleKey := none
  /-- Whether a key may start here. -/
  keyAllowed : Bool := true

namespace Scanner

/-- Whether brackets are open. -/
def inFlow (s : Scanner) : Bool := !s.outerKeys.isEmpty

/-- Adds a token. -/
def push (s : Scanner) (t : Token) : Scanner := { s with tokens := s.tokens.push t }

/-- Adds a token in front of the one with the given number. -/
def insertAt (s : Scanner) (n : Nat) (t : Token) : Scanner :=
  { s with tokens := (s.tokens.extract 0 n).push t ++ s.tokens.extract n s.tokens.size }

/-! ### Possible keys -/

/-- Whether a possible key is on an earlier line or too far back. -/
def isStale (s : Scanner) (k : PossibleKey) : Bool :=
  k.line < s.cursor.line || k.index + 1024 < s.cursor.index

/-- Gives up a possible key; refused when it must be a key. -/
def dropKey (s : Scanner) : Option Scanner :=
  if s.possibleKey.any (·.required) then none else some { s with possibleKey := none }

/-- Gives up the possible keys that are stale. -/
def dropStaleKeys (s : Scanner) : Option Scanner :=
  let stale (k : Option PossibleKey) : Bool := k.any s.isStale
  let keep (k : Option PossibleKey) : Option PossibleKey := if stale k then none else k
  if (s.possibleKey :: s.outerKeys).any fun k ↦ stale k && k.any (·.required) then none
  else some { s with possibleKey := keep s.possibleKey, outerKeys := s.outerKeys.map keep }

/-- Notes that the next token may be a key. -/
def saveKey (s : Scanner) : Option Scanner :=
  if s.keyAllowed then do
    let s ← s.dropKey
    let c := s.cursor
    let required := !s.inFlow && s.floor == c.column + 1
    return { s with possibleKey := some ⟨required, s.tokens.size, c.line, c.index, c.column⟩ }
  else
    some s

/-! ### Blocks -/

/-- Opens a block at a column, unless one that deep is open; its token goes in front of the token
with the given number. -/
def openBlock (s : Scanner) (column number : Nat) (t : Token) : Scanner :=
  if s.inFlow || column < s.floor then s
  else { s.insertAt number t with floor := column + 1, outerFloors := s.floor :: s.outerFloors }

/-- Closes the blocks whose content needs more than the given column. -/
def closeBlocks (column : Nat) (s : Scanner) : Scanner :=
  if s.inFlow then s
  else
    let (floor, outer, n) := closing s.floor s.outerFloors 0
    { s with
      floor
      outerFloors := outer
      tokens := s.tokens ++ Array.replicate n Token.blockEnd }
where
  /-- The innermost block that stays open, those around it, and how many are closed. -/
  closing (floor : Nat) (outer : List Nat) (n : Nat) : Nat × List Nat × Nat :=
    match outer with
    | [] => (floor, [], n)
    | next :: rest => if column + 1 < floor then closing next rest (n + 1) else (floor, outer, n)

/-! ### White space and comments -/

/-- Moves to the next token. In a block, a line end makes room for a key. -/
def skipToToken (s : Scanner) : Option Scanner :=
  s.cursor.loop (fun (s : Scanner) ↦
    let c := s.cursor
    match c.peek? with
    | none => .done s
    | some x =>
      if (x == '\uFEFF' && c.column == 0) || x == ' ' ||
          (x == '\t' && (s.inFlow || !s.keyAllowed)) then
        .more { s with cursor := c.advance 1 }
      else if x == '#' then .more { s with cursor := c.endOfLine }
      else if isBreak x then
        .more { s with cursor := c.nextLine, keyAllowed := s.keyAllowed || !s.inFlow }
      else .done s) s

/-! ### Tokens with a text -/

/-- A name behind `&` or `*`. -/
def name? (c : Cursor) : Option (Cursor × String) :=
  let word := c.rest.takeWhile isWordChar
  let after := c.advance word.length
  if word.isEmpty || !(after.atWordEnd || after.isAt "?:,]\x7d%@`".toList) then none
  else some (after, String.ofList word)

/-- The characters that may stand in a tag. Brackets and commas may only do so between angle
brackets or in directives. -/
def isTagChar (anywhere : Bool) (c : Char) : Bool :=
  isWordChar c || ";/?:@&=+$.!~*'()%".toList.contains c ||
    (anywhere && ",[]".toList.contains c)

/-- The handle of a tag: a word between exclamation marks, or a single exclamation mark. -/
def tagHandle? (c : Cursor) : Option (Cursor × String) :=
  if c.isAt ['!'] then
    let word := (c.rest.drop 1).takeWhile isWordChar
    let after := c.advance (word.length + 1)
    if after.isAt ['!'] then some (after.advance 1, "!" ++ String.ofList word ++ "!")
    else some (after, "!" ++ String.ofList word)
  else none

/-- A tag: its handle and what follows it. -/
def tag? (inFlow : Bool) (c : Cursor) : Option (Cursor × Token) := do
  let (c, handle, suffix) ←
    if (c.rest.drop 1).head? == some '<' then
      let c := c.advance 2
      let uri := c.rest.takeWhile (isTagChar true)
      let after := c.advance uri.length
      if uri.isEmpty || !after.isAt ['>'] then none
      else some (after.advance 1, "", String.ofList uri)
    else do
      let (after, handle) ← tagHandle? c
      if 2 ≤ handle.length && handle.toList.getLast? == some '!' then
        let uri := after.rest.takeWhile (isTagChar false)
        if uri.isEmpty then none
        else some (after.advance uri.length, handle, String.ofList uri)
      else
        let uri := after.rest.takeWhile (isTagChar false)
        let suffix := String.ofList ((handle.toList.drop 1) ++ uri)
        let after := after.advance uri.length
        if suffix.isEmpty then some (after, "", "!") else some (after, "!", suffix)
  if c.atWordEnd || (inFlow && c.isAt [',']) then return (c, .tag handle suffix) else none

/-- The number at a cursor. -/
def versionNumber? (c : Cursor) : Option (Cursor × Nat) :=
  let digits := c.rest.takeWhile Char.isDigit
  if digits.isEmpty || 9 < digits.length then none
  else some (c.advance digits.length, digits.foldl (fun n d ↦ 10 * n + (d.toNat - 48)) 0)

/-- A directive, up to the end of its line. -/
def directive? (c : Cursor) : Option (Cursor × Token) := do
  let c := c.advance 1
  let word := c.rest.takeWhile isWordChar
  let c := c.advance word.length
  if word.isEmpty || !c.atWordEnd then none
  let c := c.skipSpaces
  let (c, t) ← match String.ofList word with
    | "YAML" => do
      let (c, major) ← versionNumber? c
      if !c.isAt ['.'] then none
      let (c, minor) ← versionNumber? (c.advance 1)
      some (c, Token.versionDirective major minor)
    | "TAG" => do
      let (c, handle) ← tagHandle? c
      if !(handle == "!" || handle.toList.getLast? == some '!') then none
      if !(c.peek?.any isSpace) then none
      let c := c.skipSpaces
      let uri := c.rest.takeWhile (isTagChar true)
      if uri.isEmpty then none
      let c := c.advance uri.length
      if !c.atWordEnd then none
      some (c, Token.tagDirective handle)
    | _ => none
  let c := c.skipSpaces
  let c := if c.isAt ['#'] then c.endOfLine else c
  if c.atLineEnd then return (c, t) else none

/-! ### The next token -/

/-- Adds a token of `n` characters. -/
def take (s : Scanner) (n : Nat) (t : Token) : Scanner :=
  { s.push t with cursor := s.cursor.advance n }

/-- Adds the token of a scalar, an anchor or the like, which may be a key. -/
def takeKeyable (s : Scanner) (read : Scanner → Option (Cursor × Token)) : Option Scanner := do
  let s ← s.saveKey
  let s := { s with keyAllowed := false }
  let (cursor, t) ← read s
  return { s.push t with cursor }

/-- Adds a token that starts a line of its own. -/
def takeAtMargin (s : Scanner) (read : Cursor → Option (Cursor × Token)) : Option Scanner := do
  let s ← (closing s).dropKey
  let (cursor, t) ← read s.cursor
  return { s.push t with cursor, keyAllowed := false }
where
  /-- Closes every block. -/
  closing (s : Scanner) : Scanner :=
    if s.inFlow then s
    else { s with
      tokens := s.tokens ++ Array.replicate s.outerFloors.length Token.blockEnd
      floor := 0
      outerFloors := [] }

/-- Opens brackets. -/
def openFlow (s : Scanner) (t : Token) : Option Scanner := do
  let s ← s.saveKey
  return { s.take 1 t with
    outerKeys := s.possibleKey :: s.outerKeys, possibleKey := none, keyAllowed := true }

/-- Closes brackets. -/
def closeFlow (s : Scanner) (t : Token) : Option Scanner := do
  let s ← s.dropKey
  let s := { s.take 1 t with keyAllowed := false }
  match s.outerKeys with
  | [] => return s
  | k :: rest => return { s with possibleKey := k, outerKeys := rest }

/-- Adds the token of a dash or question mark, which opens a block where there is none. -/
def takeIndicator (s : Scanner) (block t : Token) (keyAfter : Bool) : Option Scanner := do
  if !s.inFlow && !s.keyAllowed then none
  let s := s.openBlock s.cursor.column s.tokens.size block
  let s ← s.dropKey
  return { s.take 1 t with keyAllowed := keyAfter }

/-- Adds the token of a colon. What was possibly a key is one now. -/
def takeValue (s : Scanner) : Option Scanner :=
  match s.possibleKey with
  | some k =>
    let s := (s.insertAt k.token .key).openBlock k.column k.token .blockMappingStart
    some { s.take 1 .value with possibleKey := none, keyAllowed := false }
  | none => do
    if !s.inFlow && !s.keyAllowed then none
    let s := s.openBlock s.cursor.column s.tokens.size .blockMappingStart
    return { s.take 1 .value with keyAllowed := !s.inFlow }

/-- Whether a plain scalar may start here. -/
def startsPlain (s : Scanner) : Bool :=
  match s.cursor.rest with
  | [] => false
  | c :: rest =>
    !(isSpace c || isBreak c || "-?:,[]\x7b\x7d#&*!|>'\"%@`".toList.contains c) ||
      (c == '-' && !rest.head?.any isSpace) ||
      (!s.inFlow && (c == '?' || c == ':') && !endsWord rest)

/-- Adds the next token; the answer tells whether it was the last. -/
def next? (s : Scanner) : Option (Scanner × Bool) := do
  let s ← s.skipToToken
  let s ← s.dropStaleKeys
  let s := s.closeBlocks s.cursor.column
  let c := s.cursor
  let after := endsWord (c.rest.drop 1)
  let go (s : Option Scanner) : Option (Scanner × Bool) := s.map (·, false)
  match c.peek? with
  | none =>
    let s ← s.takeAtMargin fun c ↦ some (c, .streamEnd)
    return (s, true)
  | some x =>
    if c.column == 0 && x == '%' then go (s.takeAtMargin directive?)
    else if c.atMarker "---" then go (s.takeAtMargin fun c ↦ some (c.advance 3, .documentStart))
    else if c.atMarker "..." then go (s.takeAtMargin fun c ↦ some (c.advance 3, .documentEnd))
    else if x == '[' then go (s.openFlow .flowSequenceStart)
    else if x == '{' then go (s.openFlow .flowMappingStart)
    else if x == ']' then go (s.closeFlow .flowSequenceEnd)
    else if x == '}' then go (s.closeFlow .flowMappingEnd)
    else if x == ',' then
      go (s.dropKey.map fun s ↦ { s.take 1 .flowEntry with keyAllowed := true })
    else if x == '-' && after then go (s.takeIndicator .blockSequenceStart .blockEntry true)
    else if x == '?' && (s.inFlow || after) then
      go (s.takeIndicator .blockMappingStart .key (!s.inFlow))
    else if x == ':' && (s.inFlow || after) then go s.takeValue
    else if x == '*' then go (s.takeKeyable fun s ↦ (name? (s.cursor.advance 1)).map
      fun (c, name) ↦ (c, .alias name))
    else if x == '&' then go (s.takeKeyable fun s ↦ (name? (s.cursor.advance 1)).map
      fun (c, name) ↦ (c, .anchor name))
    else if x == '!' then go (s.takeKeyable fun s ↦ tag? s.inFlow s.cursor)
    else if (x == '|' || x == '>') && !s.inFlow then do
      let s ← s.dropKey
      let (cursor, text) ← blockScalar? (x == '|') s.floor (c.advance 1)
      return ({ s.push (.scalar false text) with cursor, keyAllowed := true }, false)
    else if x == '\'' || x == '"' then
      go (s.takeKeyable fun s ↦ (quotedScalar? (x == '\'') (s.cursor.advance 1)).map
        fun (c, text) ↦ (c, .scalar false text))
    else if s.startsPlain then do
      let s ← s.saveKey
      let (cursor, text, broken) ← plainScalar? s.inFlow s.floor c
      return ({ s.push (.scalar true text) with cursor, keyAllowed := broken }, false)
    else none

end Scanner

/-- The tokens of a text, up to its end; nothing when it cannot be scanned. -/
def tokens? (text : String) : Option (List Token) :=
  let chars := match text.toList with
    | '\uFEFF' :: rest => rest
    | chars => chars
  if !chars.all isPrintable then none
  else
    let start : Scanner := { cursor := { rest := chars } }
    start.cursor.loop (fun (s : Scanner) ↦
      match s.next? with
      | none => .fail
      | some (s, true) => .done s.tokens.toList
      | some (s, false) => .more s) start

end Scaffold.Yaml
