import Scaffold.Text.Digit

/-!
# Decimal numbers

A decimal number is an integer times a power of ten. It is read from text, and rounded to the
nearest floating-point number.
-/

namespace Scaffold

/-- The number `± coefficient · 10 ^ exponent`. -/
structure Decimal where
  negative : Bool
  coefficient : Nat
  exponent : Int
deriving DecidableEq, Repr

namespace Decimal

/-- The value of a run of digits. -/
def digitsValue (digits : List Char) : Nat := (Text.decimalValue? digits).getD 0

/-- The greatest finite floating-point numbers have this many digits before the point. -/
def maxMagnitude : Int := 309

/-- The smallest positive floating-point numbers have fewer than this many zeros behind the
point. -/
def minMagnitude : Int := -324

/-- The nearest floating-point number. What is far out of range is not computed. -/
def toFloat (d : Decimal) : Float :=
  let magnitude : Int := (Nat.toDigits 10 d.coefficient).length + d.exponent
  let x :=
    if d.coefficient = 0 then 0.0
    else if maxMagnitude < magnitude then 1.0 / 0.0
    else if magnitude < minMagnitude then 0.0
    else if d.exponent < 0 then Float.ofScientific d.coefficient true d.exponent.natAbs
    else Float.ofScientific d.coefficient false d.exponent.toNat
  if d.negative then -x else x

/-- Splits off a sign. -/
def sign : List Char → Bool × List Char
  | '-' :: rest => (true, rest)
  | '+' :: rest => (false, rest)
  | rest => (false, rest)

/-- The number that an exponent says, which is a mark, a sign and digits; none stands for zero. -/
def exponent? : List Char → Option Int
  | [] => some 0
  | mark :: rest =>
    let (negative, digits) := sign rest
    if mark.toLower = 'e' then
      (Text.decimalValue? digits).map fun n ↦ if negative then -(n : Int) else n
    else
      none

/-- Reads a decimal number: digits around an optional point, on at least one side of it, and an
optional exponent. -/
def read? (s : List Char) : Option Decimal := do
  let (negative, s) := sign s
  let whole := s.takeWhile Char.isDigit
  let s := s.drop whole.length
  let (part, s) := match s with
    | '.' :: rest => (rest.takeWhile Char.isDigit, rest.dropWhile Char.isDigit)
    | _ => ([], s)
  if whole.isEmpty && part.isEmpty then none
  let exponent ← exponent? s
  return ⟨negative, digitsValue (whole ++ part), exponent - part.length⟩

/-- Reads a floating-point number: a decimal number, or in letters of any case one of the words for
the infinities and for what is not a number. -/
def float? (s : List Char) : Option Float :=
  let (negative, unsigned) := sign s
  let word := String.ofList (unsigned.map Char.toLower)
  let signed (x : Float) : Float := if negative then -x else x
  if word = "inf" || word = "infinity" then some (signed (1.0 / 0.0))
  else if word = "nan" then some (0.0 / 0.0)
  else (read? s).map toFloat

/-- Reads an integer: a sign and digits. -/
def int? (s : List Char) : Option Int :=
  let (negative, digits) := sign s
  (Text.decimalValue? digits).map fun n ↦ if negative then -(n : Int) else n

/-- The integers of 64 bits. -/
def fitsWord (n : Int) : Bool := -0x8000000000000000 ≤ n && n < 0x8000000000000000

/-- Reads an integer of 64 bits. -/
def word? (s : List Char) : Option Int := (int? s).filter fitsWord

end Decimal

end Scaffold
