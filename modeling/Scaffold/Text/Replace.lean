/-!
# Replacing a text inside a text

Occurrences are found from left to right and do not overlap; what replaces one is not searched
again. A text in which the pattern does not occur is unchanged.
-/

namespace Scaffold.Text

/-- Replaces the occurrences of `pat` in a list of characters, the first `skip` of which belong
to an occurrence already replaced. -/
def replaceSkipping (pat sub : List Char) : Nat → List Char → List Char
  | _, [] => []
  | skip + 1, _ :: rest => replaceSkipping pat sub skip rest
  | 0, c :: rest =>
    if pat.isPrefixOf (c :: rest) then sub ++ replaceSkipping pat sub (pat.length - 1) rest
    else c :: replaceSkipping pat sub 0 rest

/-- Replaces the occurrences of a non-empty pattern. The empty pattern occurs nowhere. -/
def replaceChars (pat sub s : List Char) : List Char :=
  if pat.isEmpty then s else replaceSkipping pat sub 0 s

/-- Replaces the occurrences of `pat` in `s` by `sub`. -/
def replace (s pat sub : String) : String :=
  String.ofList (replaceChars pat.toList sub.toList s.toList)

end Scaffold.Text
