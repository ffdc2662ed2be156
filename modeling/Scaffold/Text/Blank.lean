/-!
# Blank characters

The characters that count as white space when a line is trimmed or read, and the trimming
built on them. The class is the property `White_Space` of the Unicode character database,
which is wider than the four characters of `Char.isWhitespace` and narrower than "invisible":
the zero-width space and the byte order mark are not in it.
-/

namespace Scaffold.Text

/-- The property `White_Space`: six controls, the space, two Latin-1 characters and the
spaces and separators of the general punctuation and CJK blocks. -/
def isBlank (c : Char) : Bool :=
  let n := c.toNat
  (0x09 ≤ n && n ≤ 0x0D) || n == 0x20 || n == 0x85 || n == 0xA0 || n == 0x1680 ||
    (0x2000 ≤ n && n ≤ 0x200A) || n == 0x2028 || n == 0x2029 || n == 0x202F ||
    n == 0x205F || n == 0x3000

/-! ### Trimming, on lists of characters -/

/-- Drops the elements at the end of a list that satisfy `p`. -/
def dropEndWhile {α : Type} (p : α → Bool) (s : List α) : List α :=
  s.foldr (fun c rest ↦ if p c && rest.isEmpty then [] else c :: rest) []

/-- Drops the blanks at both ends. -/
def trimChars (s : List Char) : List Char :=
  dropEndWhile isBlank (s.dropWhile isBlank)

/-! ### Trimming, on strings -/

/-- Drops the blanks at both ends of a text. -/
def trim (s : String) : String :=
  String.ofList (trimChars s.toList)

/-- A text with nothing but blanks in it. -/
def allBlank (s : String) : Bool :=
  s.toList.all isBlank

@[simp]
theorem dropEndWhile_nil {α : Type} (p : α → Bool) : dropEndWhile p [] = [] := rfl

/-- An element in front is dropped only if everything behind it is. -/
theorem dropEndWhile_cons {α : Type} (p : α → Bool) (c : α) (s : List α) :
    dropEndWhile p (c :: s) =
      if p c && (dropEndWhile p s).isEmpty then [] else c :: dropEndWhile p s := rfl

/-- White space of ASCII is white space. -/
theorem isBlank_of_isWhitespace {c : Char} (h : c.isWhitespace = true) : isBlank c = true := by
  simp only [Char.isWhitespace, Bool.or_eq_true, decide_eq_true_eq] at h
  rcases h with ((rfl | rfl) | rfl) | rfl <;> decide

end Scaffold.Text
