import Scaffold.Decimal.Basic

/-!
# The shortest text of a floating-point number

A floating-point number is written with the fewest digits that read back as it, and of those with
the nearest. It is never written with an exponent.
-/

namespace Scaffold.Decimal

/-- The numbers that round to `mantissa · 2 ^ exponent`: everything between the halves to its
neighbours, each end included if `closed` holds. The ends and the number itself are multiples of
`2 ^ (exponent - 2)`. -/
structure Rounding where
  mantissa : Nat
  exponent : Int
  low : Nat
  high : Nat
  closed : Bool

/-- The numbers that round to a finite positive number, from its bits without the sign. -/
def Rounding.ofBits (bits : Nat) : Rounding :=
  let biased := bits / Nat.pow 2 52
  let fraction := bits % Nat.pow 2 52
  let mantissa := if biased = 0 then fraction else fraction + Nat.pow 2 52
  let exponent : Int := (max biased 1 : Nat) - 1075
  let nearBelow := fraction = 0 && 1 < biased
  { mantissa, exponent
    low := 4 * mantissa - if nearBelow then 1 else 2
    high := 4 * mantissa + 2
    closed := mantissa % 2 = 0 }

/-- The numerator and the denominator of `base ^ exponent`. -/
def ratio (base : Nat) (exponent : Int) : Nat × Nat :=
  if exponent < 0 then (1, Nat.pow base exponent.natAbs) else (Nat.pow base exponent.toNat, 1)

/-- The exponent of the greatest power of ten that is at most `num / den`. -/
def magnitude (num den : Nat) : Int :=
  if den ≤ num then (Nat.toDigits 10 (num / den)).length - 1
  else
    let zeros := (Nat.toDigits 10 (den / num)).length - 1
    if den ≤ num * Nat.pow 10 zeros then -zeros else -(zeros + 1)

/-- The nearest point of the grid of the multiples of `10 ^ exponent` that rounds to the number, if
any does; of two equally near the greater. -/
def Rounding.onGrid? (r : Rounding) (exponent : Int) : Option Nat :=
  let (num₂, den₂) := ratio 2 (r.exponent - 2)
  let (num₁₀, den₁₀) := ratio 10 exponent
  -- All numbers are compared as multiples of one unit.
  let scale (n : Nat) := n * num₂ * den₁₀
  let unit := num₁₀ * den₂
  let value := scale (4 * r.mantissa)
  let below := value / unit
  let inside (n : Nat) : Bool :=
    let point := n * unit
    if r.closed then scale r.low ≤ point && point ≤ scale r.high
    else scale r.low < point && point < scale r.high
  let aboveNearer := (below + 1) * unit - value ≤ value - below * unit
  match inside below, inside (below + 1) with
  | true, true => some (if aboveNearer then below + 1 else below)
  | true, false => some below
  | false, true => some (below + 1)
  | false, false => none

/-- The decimal number with the fewest digits that rounds to the number. Seventeen digits always
suffice; the first grid is for a power of ten just above the number. -/
def Rounding.shortest (r : Rounding) : Decimal :=
  let (num, den) := ratio 2 r.exponent
  let top := magnitude (r.mantissa * num) den
  let exponents := (List.range 18).map fun (n : Nat) ↦ top + 1 - n
  (exponents.findSome? fun e ↦ (r.onGrid? e).map fun n ↦ ⟨false, n, e⟩).getD ⟨false, 0, 0⟩

/-- Digits with a point so many places before their end; a point at their end is not written. -/
def placePoint (digits : List Char) (exponent : Int) : List Char :=
  if 0 ≤ exponent then digits ++ List.replicate exponent.toNat '0'
  else
    let places := exponent.natAbs
    let padded := List.replicate (places + 1 - digits.length) '0' ++ digits
    padded.take (padded.length - places) ++ '.' :: padded.drop (padded.length - places)

/-- The text of a floating-point number. -/
def floatText (x : Float) : String :=
  let bits := x.toBits.toNat
  let sign := if Nat.pow 2 63 ≤ bits then "-" else ""
  let bits := bits % Nat.pow 2 63
  if x.isNaN then "NaN"
  else if x.isInf then sign ++ "inf"
  else if bits = 0 then sign ++ "0"
  else
    let d := (Rounding.ofBits bits).shortest
    sign ++ String.ofList (placePoint (Nat.toDigits 10 d.coefficient) d.exponent)

end Scaffold.Decimal
