import Scaffold.Path.Basic
import Scaffold.Text.Blank
import Scaffold.Text.Replace

/-!
# Entries as they are written

A line says whether its entry is a file or a directory only by the look of the name: a name with an
extension is a file. A backslash in front of a dot keeps the dot from starting an extension, so
every name can be written as a directory. The sources of transfers are written relative to the root
of the structure or to the home directory.
-/

namespace Scaffold.EntryText

/-- The stand-in for a dot that a backslash protects. -/
def protectedDot : Char := '\x00'

/-- The last segment of a name, slashes at the end apart. -/
def lastSegment (s : List Char) : List Char :=
  (((Text.dropEndWhile (· == '/') s).reverse).takeWhile (· != '/')).reverse

/-- Whether a name has an extension: a dot that is not protected, behind a character of the last
segment that is not itself such a dot. -/
def hasExtension (name : String) : Bool :=
  let shown := Text.replaceChars ['\\', '.'] [protectedDot] name.toList
  ((lastSegment shown).dropWhile (· == '.')).contains '.'

/-- A name without an extension is that of a directory. -/
def isDirectoryName (name : String) : Bool := !hasExtension name

/-- The name without the backslashes that protect its dots. -/
def unescape (name : String) : String := Text.replace name "\\." "."

/-- The last segment of the source of a transfer, which names its target when the line does not. -/
def sourceBasename (source : String) : String := String.ofList (lastSegment source.toList)

/-- A text with `home` in place of a tilde that stands alone or in front of a slash. -/
def expandTilde (home : String) (s : String) : String :=
  match s.toList with
  | '~' :: rest =>
    if rest.isEmpty || rest.head? == some '/' then home ++ String.ofList rest else s
  | _ => s

/-- The path of the source of a transfer. -/
def resolveSource (home : String) (source : String) (root : Path) : Path :=
  root.join (Path.ofText (expandTilde home (unescape source)))

end Scaffold.EntryText
