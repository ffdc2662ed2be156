import Scaffold.Rename
import Scaffold.Text.Blank

/-!
# Front matter

A structure may start with a block of rename rules between two lines of three dashes. The first
such line may follow blank lines, and the block ends at the first line of dashes after it. A block
that cannot be read is no block: the whole text then is the structure.

How the text of a block is read is a parameter here, because where the block ends does not depend
on it.
-/

namespace Scaffold

/-- The rename rules of a structure. -/
structure FrontMatter where
  fileRules : List RenameRule := []
  folderRules : List RenameRule := []
deriving DecidableEq, Repr

namespace FrontMatter

/-- The rules by scope. Front matter has none for all names. -/
def rules (f : FrontMatter) : RenameRules := ⟨[], f.fileRules, f.folderRules⟩

/-- The rules of the caller, and behind them those of the front matter. -/
def merge (caller : RenameRules) (f : Option FrontMatter) : RenameRules :=
  match f with
  | some f => caller ++ f.rules
  | none => caller

/-- What follows a line end, when the text starts with one. -/
def afterLineEnd? : List Char → Option (List Char)
  | '\r' :: '\n' :: rest => some rest
  | '\n' :: rest => some rest
  | _ => none

/-- What follows three dashes and the spaces and tabs after them. -/
def afterDashes? : List Char → Option (List Char)
  | '-' :: '-' :: '-' :: rest => some (rest.dropWhile fun c ↦ c == ' ' || c == '\t')
  | _ => none

/-- What follows the line that opens a block, blanks in front of it apart. -/
def afterOpening? (s : List Char) : Option (List Char) :=
  (afterDashes? (s.dropWhile Text.isBlank)).bind afterLineEnd?

/-- What follows the line that closes a block; the text may end with it. -/
def afterClosing? (s : List Char) : Option (List Char) :=
  match afterDashes? s with
  | some [] => some []
  | some rest => afterLineEnd? rest
  | none => none

/-- Splits a text at the first line end with a closing line behind it: the text in front of the
line end, and what follows the closing line. -/
def untilClosing? : List Char → Option (List Char × List Char)
  | [] => none
  | c :: rest =>
    match (afterLineEnd? (c :: rest)).bind afterClosing? with
    | some after => some ([], after)
    | none => (untilClosing? rest).map fun (block, after) ↦ (c :: block, after)

/-- The text of the block at the start of a text, and what follows it. A closing line right behind
the opening one ends a block only when no later line does. -/
def block? (s : List Char) : Option (List Char × List Char) := do
  let inside ← afterOpening? s
  match untilClosing? inside with
  | some found => return found
  | none => return ([], ← afterClosing? inside)

/-- Splits a text into its front matter, read by `read?`, and the structure. -/
def extractWith (read? : String → Option FrontMatter) (text : String) :
    Option FrontMatter × String :=
  match block? text.toList with
  | none => (none, text)
  | some (block, rest) =>
    match read? (String.ofList block) with
    | some f => (some f, String.ofList rest)
    | none => (none, text)

end FrontMatter

end Scaffold
