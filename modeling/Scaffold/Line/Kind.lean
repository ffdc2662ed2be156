import Scaffold.Text.Blank

/-!
# What a line asks for

A line in round brackets moves what it names, one in square brackets copies it, and any other line
creates an entry. A target may follow the brackets behind `>`.

Several closing brackets may stand on a line, so it can have several readings; the one with the
longest source wins. When nothing but blanks is left of that source the line is not of this form at
all, also if a shorter source would do.
-/

namespace Scaffold

/-- What one line asks for. -/
inductive LineKind where
  | create (name : String)
  | copy (source : String) (target : Option String)
  | move (source : String) (target : Option String)
deriving DecidableEq, Repr

namespace LineKind

/-- Reads what follows the `>` of a transfer: blanks and then at least one character, none of
which is a line feed. The answer is the text behind the last line feed. -/
def targetText? (s : List Char) : Option (List Char) :=
  let line := (s.reverse.takeWhile (· ≠ '\n')).reverse
  let above := s.take (s.length - line.length)
  if above.all Text.isBlank && !line.isEmpty then some line else none

/-- Reads what follows the closing bracket of a transfer: blanks, and perhaps `>` and a target.
The inner answer is `none` when there is no target. -/
def afterBracket? (s : List Char) : Option (Option (List Char)) :=
  match s.dropWhile Text.isBlank with
  | [] => some none
  | '>' :: rest => (targetText? rest).map some
  | _ :: _ => none

/-- Reads a transfer behind its opening bracket. The source ends at the last closing bracket on
the line that leaves a readable rest, and has at least one character; `seen` holds those already
read, in reverse. -/
def sourceThenRest? (close : Char) : List Char → List Char → Option (List Char × Option (List Char))
  | _, [] => none
  | seen, c :: rest =>
    let longer := if c = '\n' then none else sourceThenRest? close (c :: seen) rest
    match longer with
    | some found => some found
    | none =>
      if c = close && !seen.isEmpty then
        (afterBracket? rest).map fun target ↦ (seen.reverse, target)
      else none

/-- The target that a text names: none when it is blank. -/
def nonBlank (s : List Char) : Option String :=
  let trimmed := Text.trimChars s
  if trimmed.isEmpty then none else some (String.ofList trimmed)

/-- Reads a transfer between the brackets `opening` and `closing`: its source and target. -/
def transfer? (opening closing : Char) (s : String) : Option (String × Option String) :=
  match s.toList with
  | [] => none
  | c :: rest =>
    if c = opening then
      match sourceThenRest? closing [] rest with
      | none => none
      | some (source, target) => (nonBlank source).map fun name ↦ (name, target.bind nonBlank)
    else none

/-- What a trimmed line asks for. -/
def classify (s : String) : LineKind :=
  match transfer? '(' ')' s with
  | some (source, target) => move source target
  | none =>
    match transfer? '[' ']' s with
    | some (source, target) => copy source target
    | none => create s

end LineKind

end Scaffold
