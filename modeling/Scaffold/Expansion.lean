import Scaffold.Line.Indent
import Scaffold.Text.Blank
import Scaffold.Text.Digit
import Scaffold.Text.Split

/-!
# Expansion of repeated lines

A token `$*N` in a line repeats the line, and the block of deeper lines under it, `N` times; in the
copies the token is the number of the copy. The tokens of one line must agree, otherwise they are
ordinary text. A block is expanded by itself before it is repeated, so that inner repetitions start
over in each copy.

Every line written is paid for out of a budget. An expansion that cannot pay is refused as a
whole, before anything of its size has been built.
-/

namespace Scaffold.Expansion

/-- The number of copies of one line that are written at most. -/
def maxCopies : Nat := 1000

/-- The number of lines that a structure may have after expansion. -/
def maxLines : Nat := 100000

/-- The count that stands for any number too large to be read. -/
def hugeCount : Nat := UInt64.size - 1

/-- The refusal of an expansion to more than `limit` lines. -/
structure OverBudget where
  limit : Nat
deriving DecidableEq, Repr

/-- The text of the refusal. -/
def OverBudget.message (e : OverBudget) : String :=
  s!"repeaters expand to more than {e.limit} lines"

/-! ### Tokens -/

/-- A stretch of a line: a character, or the digits of a token. -/
inductive Chunk where
  | plain (c : Char)
  | token (digits : List Char)
deriving DecidableEq, Repr

/-- Cuts a line into chunks; the first `skip` characters belong to a token already found. -/
def chunksSkipping : Nat → List Char → List Chunk
  | _, [] => []
  | skip + 1, _ :: rest => chunksSkipping skip rest
  | 0, c :: rest =>
    let digits := match c, rest with
      | '$', '*' :: more => more.takeWhile Text.isDigit
      | _, _ => []
    if digits.isEmpty then .plain c :: chunksSkipping 0 rest
    else .token digits :: chunksSkipping (digits.length + 1) rest

/-- The chunks of a line. -/
def chunks (line : String) : List Chunk := chunksSkipping 0 line.toList

/-- The number that the digits of a token denote. Digits of other scripts denote no number, and
like numbers beyond 64 bits they count as `hugeCount`. -/
def countOf (digits : List Char) : Nat :=
  match Text.decimalValue? digits with
  | some n => min n hugeCount
  | none => hugeCount

/-- The counts of the tokens of a line, in order. -/
def counts (line : String) : List Nat :=
  (chunks line).filterMap fun
    | .plain _ => none
    | .token digits => some (countOf digits)

/-- How often a line is repeated: the count on which all its tokens agree. -/
def repeatCount? (line : String) : Option Nat :=
  match counts line with
  | [] => none
  | first :: others => if others.all (· == first) then some first else none

/-- The line with the text of `n` in place of its tokens. -/
def numbered (line : String) (n : Nat) : String :=
  String.ofList ((chunks line).flatMap fun
    | .plain c => [c]
    | .token _ => (toString n).toList)

/-! ### Blocks -/

/-- Whether a line can stand in the block of a line of the given depth. -/
def belongsUnder (depth : Nat) (line : String) : Bool :=
  Text.allBlank line || depth < depthOf line

/-- The lines of the block of a line of the given depth, when `rest` follows it: up to the next
line that is not deeper, without the blank lines in front of that one. -/
def block (depth : Nat) (rest : List String) : List String :=
  Text.dropEndWhile Text.allBlank (rest.takeWhile (belongsUnder depth))

/-- What follows the block. -/
def afterBlock (depth : Nat) (rest : List String) : List String :=
  rest.drop (block depth rest).length

/-- Nothing is added at the end. -/
theorem length_dropEndWhile_le {α : Type} (p : α → Bool) (s : List α) :
    (Text.dropEndWhile p s).length ≤ s.length := by
  induction s with
  | nil => simp
  | cons c s ih =>
    rw [Text.dropEndWhile_cons]
    split
    · simp
    · exact Nat.succ_le_succ ih

/-- A block has no more lines than there are. -/
theorem length_block_le (depth : Nat) (rest : List String) :
    (block depth rest).length ≤ rest.length :=
  Nat.le_trans (length_dropEndWhile_le _ _) (List.takeWhile_sublist _).length_le

/-- What follows a block has no more lines than there are. -/
theorem length_afterBlock_le (depth : Nat) (rest : List String) :
    (afterBlock depth rest).length ≤ rest.length := by
  simp [afterBlock]

/-! ### Writing within a budget -/

/-- The numbered copies of a line, each with its expanded block. -/
def copies (line : String) (n : Nat) (expanded : List String) : List String :=
  (List.range n).flatMap fun i ↦ numbered line (i + 1) :: expanded

/-- Expands lines that may become at most `room` lines; answers them together with their number,
or nothing when they are more. -/
def expandWithin (room : Nat) : List String → Option (List String × Nat)
  | [] => some ([], 0)
  | line :: rest =>
    match repeatCount? line with
    | none =>
      if room = 0 then none
      else do
        let (out, cost) ← expandWithin (room - 1) rest
        return (line :: out, cost + 1)
    | some count => do
      let n := min count maxCopies
      let (expanded, each) ←
        if n = 0 then some ([], 0) else expandWithin room (block (depthOf line) rest)
      let cost := n * (each + 1)
      if room < cost then none
      else do
        let (out, more) ← expandWithin (room - cost) (afterBlock (depthOf line) rest)
        return (copies line n expanded ++ out, cost + more)
termination_by lines => lines.length
decreasing_by
  · simp
  · simpa [Nat.lt_succ_iff] using length_afterBlock_le _ _
  · simpa [Nat.lt_succ_iff] using length_block_le _ _

/-- Expands lines into at most `limit` lines. -/
def expandLines (lines : List String) (limit : Nat) : Except OverBudget (List String) :=
  match expandWithin limit lines with
  | some (out, _) => .ok out
  | none => .error ⟨limit⟩

/-- Expands the lines of a text. -/
def expandText (text : String) : Except OverBudget (List String) :=
  expandLines (Text.lines text) maxLines

end Scaffold.Expansion
