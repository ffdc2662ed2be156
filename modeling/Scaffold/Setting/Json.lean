import Scaffold.Setting.Basic
import Scaffold.Text.Scan

/-!
# Settings in JSON

Numbers are integers if they are written as such and fit 64 bits, and floating-point numbers
otherwise. Of several members of one name the last counts.
-/

namespace Scaffold.Setting.Json

/-- Passes over white space. -/
def skipBlanks : Scan Unit := do
  let _ ← Scan.takeWhile [' ', '\t', '\n', '\r'].contains

/-! ### Strings -/

/-- Reads four digits behind `\u`, and for the first half of a pair of surrogates the second. -/
def scanCode : Scan Char := do
  let code ← Scan.hexNumber 4
  if 0xD800 ≤ code && code < 0xDC00 then
    Scan.take "\\u"
    let low ← Scan.hexNumber 4
    if 0xDC00 ≤ low && low < 0xE000 then
      Scan.charOfCode (0x10000 + (code - 0xD800) * 0x400 + (low - 0xDC00))
    else
      failure
  else
    Scan.charOfCode code

/-- Reads what stands behind a backslash. -/
def scanEscape : Scan Char := do
  match ← Scan.any with
  | '"' => pure '"'
  | '\\' => pure '\\'
  | '/' => pure '/'
  | 'b' => pure '\x08'
  | 'f' => pure '\x0c'
  | 'n' => pure '\n'
  | 'r' => pure '\r'
  | 't' => pure '\t'
  | 'u' => scanCode
  | _ => failure

/-- Reads a string behind its opening quote; there are at most `fuel` characters. -/
def scanChars : Nat → Scan (List Char)
  | 0 => failure
  | fuel + 1 => do
    match ← Scan.any with
    | '"' => pure []
    | '\\' => do
      let c ← scanEscape
      return c :: (← scanChars fuel)
    | c => if c < ' ' then failure else return c :: (← scanChars fuel)

/-- Reads a string. -/
def scanString : Scan String := do
  Scan.take "\""
  return String.ofList (← scanChars ((← get).length + 1))

/-! ### Numbers -/

/-- The coefficients that are read exactly; further digits of longer ones are left out. -/
def maxCoefficient : Nat := UInt64.size - 1

/-- Reads digits into a coefficient, until one does not fit; answers how many were read. -/
def gather : Nat → List Char → Nat × Nat
  | n, [] => (n, 0)
  | n, c :: rest =>
    let n' := 10 * n + (c.toNat - '0'.toNat)
    if maxCoefficient < n' then (n, 0)
    else
      let (value, count) := gather n' rest
      (value, count + 1)

/-- The greatest power of ten that is a floating-point number. -/
def maxPower : Nat := 308

/-- The number `coefficient · 10 ^ exponent`, rounded after each of at most `steps` divisions;
nothing when it is out of range. -/
def scaled (steps : Nat) (x : Float) (exponent : Int) : Option Float :=
  let power (n : Nat) : Float := Float.ofScientific 1 false n
  if exponent.natAbs ≤ maxPower then
    if exponent < 0 then some (x / power exponent.natAbs)
    else
      let y := x * power exponent.toNat
      if y.isInf then none else some y
  else if x == 0.0 then some x
  else if 0 < exponent then none
  else match steps with
    | 0 => some 0.0
    | steps + 1 => scaled steps (x / power maxPower) (exponent + maxPower)

/-- The divisions after which every coefficient has become zero. -/
def maxSteps : Nat := 4

/-- Reads a number that is not written as an integer. -/
def real? (negative : Bool) (whole part : List Char) (exponent : Int) : Option Setting := do
  let (n, count) := gather 0 whole
  let (n, exponent) :=
    if count < whole.length then (n, exponent + (whole.length - count : Nat))
    else
      let (n, count) := gather n part
      (n, exponent - count)
  let x ← scaled maxSteps (Float.ofNat n) exponent
  return .real (if negative then -x else x)

/-- The exponent of a number, which is zero if none is written. -/
def scanExponent : Scan (Option Int) := do
  let mark ← Scan.takeUpTo 1 fun c ↦ c == 'e' || c == 'E'
  if mark.isEmpty then return none
  let sign ← Scan.takeUpTo 1 fun c ↦ c == '-' || c == '+'
  let digits ← Scan.takeWhile Char.isDigit
  match Decimal.int? (sign ++ digits) with
  | some n => pure (some n)
  | none => failure

/-- Reads a number. -/
def scanNumber : Scan Setting := do
  let negative ← Scan.tryTake "-"
  let whole ← Scan.takeWhile Char.isDigit
  if whole.isEmpty || (whole.head? == some '0' && 1 < whole.length) then failure
  let pointed ← Scan.tryTake "."
  let part ← if pointed then Scan.takeWhile Char.isDigit else pure []
  if pointed && part.isEmpty then failure
  let exponent ← scanExponent
  let value := (Decimal.digitsValue whole : Int)
  let n := if negative then -value else value
  if !pointed && exponent.isNone && Decimal.fitsWord n && !(negative && value == 0) then
    pure (.int n)
  else
    match real? negative whole part (exponent.getD 0) with
    | some x => pure x
    | none => failure

/-! ### Values -/

/-- How deep lists and tables may be nested. -/
def maxDepth : Nat := 127

mutual

/-- Reads a value, in which lists and tables may be nested `depth` deep. -/
def scanValue (fuel depth : Nat) : Scan Setting :=
  match fuel with
  | 0 => failure
  | fuel + 1 => do
    skipBlanks
    match ← Scan.peek? with
    | some '\x7b' =>
      Scan.skip 1
      if depth = 0 then failure
      return .table (← scanMembers fuel (depth - 1) [])
    | some '[' =>
      Scan.skip 1
      if depth = 0 then failure
      return .list (← scanItems fuel (depth - 1) true)
    | some '"' => return .text (← scanString)
    | some 't' => do
      Scan.take "true"
      pure (.bool true)
    | some 'f' => do
      Scan.take "false"
      pure (.bool false)
    | some 'n' => do
      Scan.take "null"
      pure .nothing
    | _ => scanNumber

/-- Reads the items of a list; a comma comes in front of each but the first. -/
def scanItems (fuel depth : Nat) (first : Bool) : Scan (List Setting) :=
  match fuel with
  | 0 => failure
  | fuel + 1 => do
    skipBlanks
    if ← Scan.tryTake "]" then return []
    if !first then Scan.take ","
    let item ← scanValue fuel depth
    return item :: (← scanItems fuel depth false)

/-- Reads the members of a table behind those that have been read. -/
def scanMembers (fuel depth : Nat) (before : List (String × Setting)) :
    Scan (List (String × Setting)) :=
  match fuel with
  | 0 => failure
  | fuel + 1 => do
    skipBlanks
    if ← Scan.tryTake "\x7d" then return before
    if !before.isEmpty then Scan.take ","
    skipBlanks
    let name ← scanString
    skipBlanks
    Scan.take ":"
    let value ← scanValue fuel depth
    scanMembers fuel depth (setEntry name value before)

end

/-- Reads a whole text. -/
def read? (text : String) : Option Setting :=
  let whole : Scan Setting := do
    let value ← scanValue (2 * text.length + 2) maxDepth
    skipBlanks
    pure value
  whole.run? text.toList

end Scaffold.Setting.Json
