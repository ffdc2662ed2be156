import Scaffold.Setting.Basic
import Scaffold.Text.Scan

/-!
# Scalars in TOML

Strings in quotes, and without quotes numbers, truth values, dates and times. Digits may be grouped
by single underscores.
-/

namespace Scaffold.Toml

/-! ### Characters -/

/-- The characters that separate what stands on one line. -/
def isBlank (c : Char) : Bool := c == ' ' || c == '\t'

/-- Control characters other than the tab. They stand for nothing. -/
def isControl (c : Char) : Bool := (c < ' ' && c != '\t') || c == '\x7f'

/-- The characters of keys without quotes. -/
def isKeyChar (c : Char) : Bool := c.isAlphanum || c == '-' || c == '_'

/-- The characters of scalars without quotes. -/
def isBareChar (c : Char) : Bool := isKeyChar c || c == '+' || c == '.' || c == ':'

/-- Takes a line end, if one comes next. -/
def tryLineEnd : Scan Bool := do
  if ← Scan.tryTake "\n" then pure true else Scan.tryTake "\r\n"

/-- Passes over blanks. -/
def skipBlanks : Scan Unit := do
  let _ ← Scan.takeWhile isBlank

/-- Passes over a comment, if one comes next. -/
def skipComment : Scan Unit := do
  if ← Scan.tryTake "#" then
    let _ ← Scan.takeWhile (!isControl ·)

/-- Passes over blanks, comments and line ends. -/
def skipLines : Nat → Scan Unit
  | 0 => pure ()
  | fuel + 1 => do
    skipBlanks
    skipComment
    if ← tryLineEnd then skipLines fuel

/-- Passes over blanks, comments and line ends, as many as there are. -/
def skipAllLines : Scan Unit := do skipLines ((← get).length + 1)

/-! ### Strings -/

/-- Reads what stands behind a backslash, other than a line end. -/
def scanEscape : Scan Char := do
  match ← Scan.any with
  | '"' => pure '"'
  | '\\' => pure '\\'
  | 'b' => pure '\x08'
  | 'e' => pure '\x1b'
  | 'f' => pure '\x0c'
  | 'n' => pure '\n'
  | 'r' => pure '\r'
  | 't' => pure '\t'
  | 'x' => do Scan.charOfCode (← Scan.hexNumber 2)
  | 'u' => do Scan.charOfCode (← Scan.hexNumber 4)
  | 'U' => do Scan.charOfCode (← Scan.hexNumber 8)
  | _ => failure

/-- How a string is written. -/
structure Quoting where
  quote : Char
  /-- Whether a backslash starts an escape. -/
  escapes : Bool
  /-- Whether the quotes are tripled, and line ends allowed between them. -/
  tripled : Bool

/-- The quotes at the end of a string. -/
def Quoting.ending (q : Quoting) : String :=
  String.ofList (List.replicate (if q.tripled then 3 else 1) q.quote)

/-- Passes over the blanks behind a backslash, a line end, and all blanks and line ends behind
that. -/
def skipFoldedLine : Scan Unit := do
  skipBlanks
  if !(← tryLineEnd) then failure
  go ((← get).length + 1)
where
  /-- Passes over blanks and line ends. -/
  go : Nat → Scan Unit
    | 0 => pure ()
    | fuel + 1 => do
      skipBlanks
      if ← tryLineEnd then go fuel

/-- Whether a backslash that has been taken folds lines. -/
def foldsLine : Scan Bool := do
  match (← get).dropWhile isBlank with
  | '\n' :: _ | '\r' :: _ => pure true
  | _ => pure false

/-- Reads the characters of a string and its ending. Up to two quotes may stand in front of a
tripled ending. -/
def scanChars (q : Quoting) : Nat → Scan (List Char)
  | 0 => failure
  | fuel + 1 => do
    let extra ← Scan.sees (q.quote.toString ++ q.ending)
    let lineEnd ← if q.tripled then tryLineEnd else pure false
    if lineEnd then
      return '\n' :: (← scanChars q fuel)
    else if q.tripled && extra then
      Scan.skip 1
      return q.quote :: (← scanChars q fuel)
    else if ← Scan.tryTake q.ending then
      pure []
    else
      let c ← Scan.any
      let folds ← foldsLine
      if isControl c then failure
      else if c == '\\' && q.escapes then
        if q.tripled && folds then
          skipFoldedLine
          scanChars q fuel
        else
          let e ← scanEscape
          return e :: (← scanChars q fuel)
      else
        return c :: (← scanChars q fuel)

/-- Reads a string whose opening quotes have been taken. The line end right behind tripled quotes
does not count. -/
def scanBody (q : Quoting) : Scan String := do
  if q.tripled then
    let _ ← tryLineEnd
  return String.ofList (← scanChars q ((← get).length + 1))

/-- Reads a string in single quotes or in double ones, not tripled; nothing if none comes next. -/
def scanPlainString? : Scan (Option String) := do
  if ← Scan.tryTake "\"" then return some (← scanBody ⟨'"', true, false⟩)
  else if ← Scan.tryTake "'" then return some (← scanBody ⟨'\'', false, false⟩)
  else return none

/-- Reads a string; nothing if none comes next. -/
def scanString? : Scan (Option String) := do
  if ← Scan.tryTake "\"\"\"" then return some (← scanBody ⟨'"', true, true⟩)
  else if ← Scan.tryTake "'''" then return some (← scanBody ⟨'\'', false, true⟩)
  else scanPlainString?

/-! ### Numbers -/

/-- Digits without the underscores between them; nothing if there is an underscore elsewhere, or no
digit. -/
def ungroup? (p : Char → Bool) : List Char → Option (List Char)
  | [] => none
  | [c] => if p c then some [c] else none
  | c :: '_' :: rest => if p c then (ungroup? p rest).map (c :: ·) else none
  | c :: rest => if p c then (ungroup? p rest).map (c :: ·) else none

/-- The digits of a decimal integer, which has no leading zero. -/
def wholeDigits? (s : List Char) : Option (List Char) :=
  (ungroup? Char.isDigit s).filter fun digits ↦ digits.length = 1 || digits.head? != some '0'

/-- Splits a sign off. -/
def splitSign : List Char → List Char × List Char
  | '+' :: rest => (['+'], rest)
  | '-' :: rest => (['-'], rest)
  | rest => ([], rest)

/-- The integer of a base that digits say. -/
def based? (base : Nat) (s : List Char) : Option Int := do
  let digits ← ungroup? (fun c ↦ (Scan.hexDigit? c).any (· < base)) s
  let value := digits.foldl (fun n c ↦ base * n + (Scan.hexDigit? c).getD 0) 0
  if Decimal.fitsWord value then some value else none

/-- The integer that a scalar says. -/
def int? : List Char → Option Int
  | '0' :: 'x' :: rest => based? 16 rest
  | '0' :: 'o' :: rest => based? 8 rest
  | '0' :: 'b' :: rest => based? 2 rest
  | s =>
    let (sign, digits) := splitSign s
    (wholeDigits? digits).bind fun digits ↦ Decimal.word? (sign ++ digits)

/-- The number with a fraction or an exponent that a scalar says; it must not be out of range. -/
def real? (s : List Char) : Option Float := do
  let (sign, unsigned) := splitSign s
  if ["inf".toList, "nan".toList].contains unsigned then Decimal.float? s
  else
    let mantissa := unsigned.takeWhile fun c ↦ c != 'e' && c != 'E'
    let whole := mantissa.takeWhile (· != '.')
    let part := mantissa.drop whole.length
    let exponent := unsigned.drop mantissa.length
    if part.isEmpty && exponent.isEmpty then none
    let whole ← wholeDigits? whole
    let part ← match part with
      | [] => some []
      | _ :: digits => (ungroup? Char.isDigit digits).map ('.' :: ·)
    let exponent ← match exponent with
      | [] => some []
      | mark :: rest =>
        let (sign, digits) := splitSign rest
        (ungroup? Char.isDigit digits).map (mark :: sign ++ ·)
    let x ← Decimal.float? (sign ++ whole ++ part ++ exponent)
    if x.isInf then none else some x

/-! ### Dates and times -/

/-- Reads a number of exactly `n` digits, between bounds. -/
def scanField (n least greatest : Nat) : Scan Nat := do
  let digits ← Scan.takeUpTo n Char.isDigit
  let value := Decimal.digitsValue digits
  if digits.length < n || value < least || greatest < value then failure
  pure value

/-- The number of days of a month. -/
def daysIn (year month : Nat) : Nat :=
  let leap := year % 4 = 0 && (year % 100 != 0 || year % 400 = 0)
  if month = 2 then (if leap then 29 else 28)
  else if [4, 6, 9, 11].contains month then 30
  else 31

/-- A number with leading zeros. -/
def padded (width n : Nat) : String :=
  let digits := Nat.toDigits 10 n
  String.ofList (List.replicate (width - digits.length) '0' ++ digits)

/-- Reads a date, and answers it as it is written back. -/
def scanDate : Scan String := do
  let year ← scanField 4 0 9999
  Scan.take "-"
  let month ← scanField 2 1 12
  Scan.take "-"
  let day ← scanField 2 1 (daysIn year month)
  return s!"{padded 4 year}-{padded 2 month}-{padded 2 day}"

/-- The places of a fraction of a second that count. -/
def fractionPlaces : Nat := 9

/-- Digits without the zeros at their end. -/
def dropZeros (digits : List Char) : List Char := (digits.reverse.dropWhile (· == '0')).reverse

/-- Reads a time of day. Seconds may be left out. -/
def scanTime : Scan String := do
  let hour ← scanField 2 0 23
  Scan.take ":"
  let minute ← scanField 2 0 59
  let start := s!"{padded 2 hour}:{padded 2 minute}"
  if !(← Scan.tryTake ":") then return start
  let second ← scanField 2 0 60
  let start := s!"{start}:{padded 2 second}"
  if !(← Scan.tryTake ".") then return start
  let digits ← Scan.takeWhile Char.isDigit
  if digits.isEmpty then failure
  let fraction := dropZeros (digits.take fractionPlaces)
  return if fraction.isEmpty then start else s!"{start}.{String.ofList fraction}"

/-- Reads the distance from universal time, if there is one. -/
def scanOffset : Scan String := do
  match ← Scan.peek? with
  | some 'Z' | some 'z' => do
    Scan.skip 1
    pure "Z"
  | some '+' | some '-' => do
    let sign ← Scan.any
    let hour ← scanField 2 0 23
    Scan.take ":"
    let minute ← scanField 2 0 59
    let sign := if hour = 0 && minute = 0 then '+' else sign
    return s!"{sign}{padded 2 hour}:{padded 2 minute}"
  | _ => pure ""

/-- Reads a date, a time of day, or both with a `T` or a blank between them. -/
def scanMoment : Scan String := do
  if ((← get).drop 2).head? == some ':' then scanTime
  else
    let date ← scanDate
    match ← Scan.peek? with
    | some 'T' | some 't' | some ' ' => do
      Scan.skip 1
      let time ← scanTime
      let offset ← scanOffset
      return s!"{date}T{time}{offset}"
    | _ => pure date

/-! ### Scalars -/

/-- Whether a text has the shape of a date. -/
def looksLikeDate (s : List Char) : Bool := scanDate.run? s |>.isSome

/-- Takes a scalar without quotes; a date may go on behind a blank. -/
def scanBare : Scan (List Char) := do
  let first ← Scan.takeWhile isBareChar
  match ← get with
  | ' ' :: c :: _ =>
    if looksLikeDate first && c.isDigit then
      Scan.skip 1
      return first ++ ' ' :: (← Scan.takeWhile isBareChar)
    else
      pure first
  | _ => pure first

/-- What a scalar without quotes says. -/
def bare? (s : List Char) : Option Setting :=
  if s = "true".toList then some (.bool true)
  else if s = "false".toList then some (.bool false)
  else (int? s).map .int <|> (real? s).map .real <|> (scanMoment.run? s).map .text

/-- Reads a scalar. -/
def scanScalar : Scan Setting := do
  match ← scanString? with
  | some s => pure (.text s)
  | none =>
    match bare? (← scanBare) with
    | some value => pure value
    | none => failure

end Scaffold.Toml
