import Scaffold.Yaml.Cursor

/-!
# Scalars in YAML text

Plain, quoted and block scalars. Between two words of a plain or quoted scalar there is a gap: its
spaces are kept when it is on one line; otherwise its first line break becomes a space, or nothing
when more breaks follow, which are kept.
-/

namespace Scaffold.Yaml

/-! ### Gaps -/

/-- White space between two words. The lists are in reverse. -/
structure Gap where
  spaces : List Char := []
  breaks : List Char := []
  /-- Whether a line has ended in the gap. -/
  broken : Bool := false
  /-- Whether that line end was escaped, so that it does not count as a break. -/
  escaped : Bool := false

namespace Gap

/-- What a gap adds to the scalar. -/
def text (g : Gap) : List Char :=
  if !g.broken then g.spaces.reverse
  else if g.escaped then g.breaks.reverse
  else match g.breaks.reverse with
    | ['\n'] => [' ']
    | '\n' :: more => more
    | breaks => breaks

/-- Reads a gap. In a block, tabs must not stand where a line is indented by less than `floor`. -/
def read (floor : Nat) (c : Cursor) (g : Gap) : Option (Cursor × Gap) :=
  c.loop (fun (c, g) ↦
    match c.peek? with
    | some x =>
      if isSpace x then
        if g.broken then
          if x == '\t' && c.column < floor then .fail else .more (c.advance 1, g)
        else .more (c.advance 1, { g with spaces := x :: g.spaces })
      else if isBreak x then
        .more (c.nextLine, { g with breaks := c.breakChar :: g.breaks, broken := true })
      else .done (c, g)
    | none => .done (c, g)) (c, g)

end Gap

/-! ### Plain scalars -/

/-- The characters that end a plain scalar inside brackets. -/
def flowIndicators : List Char := [',', '[', ']', '{', '}']

/-- A word of a plain scalar. -/
def plainWord? (inFlow : Bool) : List Char → Option (List Char)
  | [] => some []
  | c :: rest =>
    if isSpace c || isBreak c then some []
    else if inFlow && c == ':' && rest.head?.any (('?' :: flowIndicators).contains ·) then none
    else if (c == ':' && endsWord rest) || (inFlow && flowIndicators.contains c) then some []
    else (plainWord? inFlow rest).map (c :: ·)

/-- A plain scalar: its text, and whether it ended behind a line break. Lines indented by less than
`floor` end it, outside brackets. -/
def plainScalar? (inFlow : Bool) (floor : Nat) (c : Cursor) : Option (Cursor × String × Bool) :=
  c.loop (fun ((c, text, g) : Cursor × List Char × Gap) ↦
    let finished : Step (Cursor × List Char × Gap) (Cursor × String × Bool) :=
      .done (c, String.ofList text, g.broken)
    if c.atDocumentMarker || c.isAt ['#'] then finished
    else match plainWord? inFlow c.rest with
      | none => .fail
      | some [] => finished
      | some word =>
        let c := c.advance word.length
        let text := text ++ g.text ++ word
        match Gap.read floor c {} with
        | none => .fail
        | some (after, g) =>
          if after.index == c.index then .done (c, String.ofList text, false)
          else if !inFlow && after.column < floor then .done (after, String.ofList text, g.broken)
          else .more (after, text, g)) (c, [], {})

/-! ### Quoted scalars -/

/-- The value of hexadecimal digits. -/
def hexValue? (digits : List Char) : Option Nat :=
  digits.foldlM (fun n c ↦
    if c.isDigit then some (16 * n + (c.toNat - 48))
    else if 'a' ≤ c && c ≤ 'f' then some (16 * n + (c.toNat - 87))
    else if 'A' ≤ c && c ≤ 'F' then some (16 * n + (c.toNat - 55))
    else none) 0

/-- The character with the given code, if there is one. -/
def charOfCode? (n : Nat) : Option Char :=
  if h : n.isValidChar then some (Char.ofNatAux n h) else none

/-- The character that an escape stands for, and its length without the backslash. -/
def escape? : List Char → Option (Char × Nat)
  | '0' :: _ => some ('\x00', 1)
  | 'a' :: _ => some ('\x07', 1)
  | 'b' :: _ => some ('\x08', 1)
  | 't' :: _ | '\t' :: _ => some ('\t', 1)
  | 'n' :: _ => some ('\n', 1)
  | 'v' :: _ => some ('\x0b', 1)
  | 'f' :: _ => some ('\x0c', 1)
  | 'r' :: _ => some ('\r', 1)
  | 'e' :: _ => some ('\x1b', 1)
  | ' ' :: _ => some (' ', 1)
  | '"' :: _ => some ('"', 1)
  | '/' :: _ => some ('/', 1)
  | '\\' :: _ => some ('\\', 1)
  | 'N' :: _ => some ('\u0085', 1)
  | '_' :: _ => some ('\u00a0', 1)
  | 'L' :: _ => some ('\u2028', 1)
  | 'P' :: _ => some ('\u2029', 1)
  | 'x' :: rest => coded 2 rest
  | 'u' :: rest => coded 4 rest
  | 'U' :: rest => coded 8 rest
  | _ => none
where
  /-- An escape by `n` digits. -/
  coded (n : Nat) (rest : List Char) : Option (Char × Nat) :=
    if rest.length < n then none
    else do return (← charOfCode? (← hexValue? (rest.take n)), n + 1)

/-- A word of a quoted scalar, in reverse, behind `text`; it also ends behind an escaped line
break, which is then told. -/
def quotedWord? (single : Bool) (c : Cursor) (text : List Char) :
    Option (Cursor × List Char × Bool) :=
  c.loop (fun ((c, text) : Cursor × List Char) ↦
    match c.rest with
    | [] => .done (c, text, false)
    | x :: rest =>
      if isSpace x || isBreak x then .done (c, text, false)
      else if single && x == '\'' then
        if rest.head? == some '\'' then .more (c.advance 2, '\'' :: text)
        else .done (c, text, false)
      else if !single && x == '"' then .done (c, text, false)
      else if !single && x == '\\' then
        if rest.head?.any isBreak then .done ((c.advance 1).nextLine, text, true)
        else match escape? rest with
          | some (y, n) => .more (c.advance (n + 1), y :: text)
          | none => .fail
      else .more (c.advance 1, x :: text)) (c, text)

/-- A quoted scalar; the cursor stands behind the opening quote. -/
def quotedScalar? (single : Bool) (c : Cursor) : Option (Cursor × String) :=
  c.loop (fun ((c, text) : Cursor × List Char) ↦
    if c.atDocumentMarker || c.rest.isEmpty then .fail
    else match quotedWord? single c text with
      | none => .fail
      | some (c, text, broken) =>
        if c.isAt [if single then '\'' else '"'] then
          .done (c.advance 1, String.ofList text.reverse)
        else match Gap.read 0 c { broken, escaped := broken } with
          | none => .fail
          | some (c, g) => .more (c, g.text.reverse ++ text)) (c, [])

/-! ### Block scalars -/

/-- What becomes of the line breaks at the end of a block scalar. -/
inductive Chomping where
  | strip | clip | keep
deriving DecidableEq

/-- The marks behind the sign of a block scalar: how to chomp, and how far it is indented. -/
def blockHeader? (c : Cursor) : Option (Cursor × Chomping × Option Nat) :=
  let sign? (c : Cursor) : Option Chomping := match c.peek? with
    | some '+' => some .keep
    | some '-' => some .strip
    | _ => none
  let digit? (c : Cursor) : Option Nat := match c.peek? with
    | some x => if x.isDigit then some (x.toNat - 48) else none
    | none => none
  let checked (c : Cursor) (chomping : Chomping) (digit : Option Nat) :
      Option (Cursor × Chomping × Option Nat) :=
    if digit = some 0 then none else some (c, chomping, digit)
  match sign? c with
  | some chomping =>
    let c := c.advance 1
    match digit? c with
    | some n => checked (c.advance 1) chomping (some n)
    | none => checked c chomping none
  | none =>
    match digit? c with
    | some n =>
      let c := c.advance 1
      match sign? c with
      | some chomping => checked (c.advance 1) chomping (some n)
      | none => checked c .clip (some n)
    | none => some (c, .clip, none)

/-- Reads blank lines and the indentation of the line after them. Without a known indentation the
widest of these lines sets it. The breaks are in reverse. -/
def blockBreaks? (floor : Nat) (indent : Option Nat) (c : Cursor) :
    Option (Cursor × Nat × List Char) :=
  c.loop (fun ((c, widest, breaks) : Cursor × Nat × List Char) ↦
    let within := indent.all (c.column < ·)
    if within && c.isAt [' '] then .more (c.advance 1, widest, breaks)
    else
      let widest := max widest c.column
      if within && c.isAt ['\t'] then .fail
      else if c.atBreak then .more (c.nextLine, widest, c.breakChar :: breaks)
      else .done (c, indent.getD (max (max widest floor) 1), breaks)) (c, 0, [])

/-- How far the lines of a block scalar have been read. The lists are in reverse. -/
structure BlockLines where
  cursor : Cursor
  text : List Char := []
  /-- The break at the end of the last line. -/
  lastBreak : List Char := []
  /-- The breaks of the blank lines behind it. -/
  blankBreaks : List Char
  /-- Whether the last line started with white space, so that it is not folded. -/
  spaced : Bool := false

/-- A block scalar; the cursor stands behind its sign. Content must be indented by `floor`. -/
def blockScalar? (literal : Bool) (floor : Nat) (c : Cursor) : Option (Cursor × String) := do
  let (c, chomping, increment) ← blockHeader? c
  let c := c.skipSpaces
  let c := if c.isAt ['#'] then c.endOfLine else c
  if !c.atLineEnd then none
  let c := if c.atBreak then c.nextLine else c
  let given := increment.map fun n ↦ floor - 1 + n
  let (c, indent, breaks) ← blockBreaks? floor given c
  c.loop (fun (b : BlockLines) ↦
    let c := b.cursor
    if c.column == indent && !c.rest.isEmpty then
      let spaced := c.peek?.any isSpace
      let folds := !literal && b.lastBreak == ['\n'] && !b.spaced && !spaced
      let joint := if folds then (if b.blankBreaks.isEmpty then [' '] else []) else b.lastBreak
      let line := c.rest.takeWhile fun x ↦ !isBreak x
      let text := line.reverse ++ (b.blankBreaks ++ (joint ++ b.text))
      let c := c.endOfLine
      let (c, lastBreak) := if c.atBreak then (c.nextLine, [c.breakChar]) else (c, [])
      match blockBreaks? floor (some indent) c with
      | none => .fail
      | some (cursor, _, blankBreaks) => .more { cursor, text, lastBreak, blankBreaks, spaced }
    else
      let ending := match chomping with
        | .strip => []
        | .clip => b.lastBreak
        | .keep => b.blankBreaks ++ b.lastBreak
      .done (c, String.ofList (ending ++ b.text).reverse))
    { cursor := c, blankBreaks := breaks }

end Scaffold.Yaml
