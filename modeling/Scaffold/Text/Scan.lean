/-!
# Reading from the front

A reader takes characters from the front of a text, or refuses it. Readers of formats are composed
of the few below.
-/

namespace Scaffold

/-- A reader of characters. Its state is what is still to be read. -/
abbrev Scan : Type → Type := StateT (List Char) Option

namespace Scan

/-- The next character, which is not taken; nothing at the end. -/
def peek? : Scan (Option Char) := do return (← get).head?

/-- Passes over a number of characters. -/
def skip (n : Nat) : Scan Unit := modify (·.drop n)

/-- Whether the given characters come next. -/
def sees (s : String) : Scan Bool := do return s.toList.isPrefixOf (← get)

/-- Takes the given characters, if they come next. -/
def tryTake (s : String) : Scan Bool := do
  if ← sees s then
    skip s.length
    pure true
  else
    pure false

/-- Takes the given characters, which must come next. -/
def take (s : String) : Scan Unit := do
  if !(← tryTake s) then failure

/-- Takes the next character, which there must be. -/
def any : Scan Char := do
  match ← get with
  | [] => failure
  | c :: rest =>
    set rest
    pure c

/-- Takes as many characters of a class as come next. -/
def takeWhile (p : Char → Bool) : Scan (List Char) := do
  let s ← get
  set (s.dropWhile p)
  pure (s.takeWhile p)

/-- Takes at most a number of characters of a class. -/
def takeUpTo (n : Nat) (p : Char → Bool) : Scan (List Char) := do
  let s ← get
  let taken := (s.take n).takeWhile p
  set (s.drop taken.length)
  pure taken

/-- What a reader makes of a whole text. -/
def run? {α : Type} (r : Scan α) (s : List Char) : Option α :=
  match StateT.run r s with
  | some (a, []) => some a
  | _ => none

/-- The value of a digit of the numbers to base sixteen. -/
def hexDigit? (c : Char) : Option Nat :=
  if c.isDigit then some (c.toNat - '0'.toNat)
  else if 'a' ≤ c && c ≤ 'f' then some (c.toNat - 'a'.toNat + 10)
  else if 'A' ≤ c && c ≤ 'F' then some (c.toNat - 'A'.toNat + 10)
  else none

/-- Takes exactly `n` digits of a number to base sixteen. -/
def hexNumber (n : Nat) : Scan Nat := do
  let digits ← takeUpTo n (hexDigit? · |>.isSome)
  if digits.length < n then failure
  pure (digits.foldl (fun value c ↦ 16 * value + (hexDigit? c).getD 0) 0)

/-- The character with a code point; surrogates stand for no character. -/
def charOfCode (code : Nat) : Scan Char :=
  if code.isValidChar then pure (Char.ofNat code) else failure

end Scan

end Scaffold
