import Scaffold.Text.Lossy
import Scaffold.Text.Split

/-!
# Paths

A path is what it names, a sequence of parts, together with how it was spelled. Two spellings of
one sequence (`/r//x`, `/r/./x/`) are different paths that name the same entry, so whatever looks
entries up compares `Path.parts`, and whatever prints a path shows `Path.text`.

The spelling is kept as decoration: each part remembers the characters skipped in front of it, and
the path those skipped at its end. The parts of a parent, of a join and of a remainder are then
read off the parts of the arguments, without reading any text a second time.

A text spells only names that are texts. Other names stand in paths all the same, and are shown with
replacements, so the text of a path need not lead back to it.
-/

namespace Scaffold

/-- Bytes are compared one by one. -/
instance (priority := 2000) decidableEqBytes : DecidableEq ByteArray := ByteArray.instDecidableEq

/-! ### Parts -/

/-- Whether a text names an entry of a directory: it is not empty, has no slash, and is neither
of the two names that every directory has. -/
def isEntryName (s : String) : Bool :=
  !s.isEmpty && !s.toList.contains '/' && s != "." && s != ".."

/-- The name of an entry of a directory. A name is a sequence of bytes, and these need not be the
encoding of a text. -/
inductive EntryName where
  /-- A name that is a text. -/
  | spelled (text : String) (valid : isEntryName text = true)
  /-- A name that is none, as its bytes. -/
  | raw (bytes : ByteArray) (broken : bytes.validateUTF8 = false)
    (valid : isEntryName (Text.lossy bytes) = true)
deriving DecidableEq

namespace EntryName

/-- The name as a text, with replacements for bytes that are none. -/
def text : EntryName → String
  | spelled text _ => text
  | raw bytes _ _ => Text.lossy bytes

/-- The bytes of a name. -/
def toByteArray : EntryName → ByteArray
  | spelled text _ => text.toUTF8
  | raw bytes _ _ => bytes

/-- The bytes of a name, one by one. -/
def bytes (name : EntryName) : List UInt8 := name.toByteArray.data.toList

/-- The number of bytes of a name. -/
def size (name : EntryName) : Nat := name.toByteArray.size

/-- Whether a name is a text. -/
def isText : EntryName → Bool
  | spelled _ _ => true
  | raw _ _ _ => false

theorem valid : (name : EntryName) → isEntryName name.text = true
  | spelled _ h => h
  | raw _ _ h => h

/-- The name that is the text of a name. -/
def listed (name : EntryName) : EntryName := spelled name.text name.valid

/-- A name is known by its bytes. -/
theorem toByteArray_inj {a b : EntryName} (h : a.toByteArray = b.toByteArray) : a = b := by
  -- the bytes of a text are never broken
  have hvalid (text : String) : text.toByteArray.validateUTF8 = true :=
    ByteArray.validateUTF8_eq_true_iff.mpr text.isValidUTF8
  cases a with
  | spelled text _ =>
    cases b with
    | spelled text' _ => simpa [toByteArray, String.toByteArray_inj] using h
    | raw bytes broken _ =>
      obtain rfl : text.toByteArray = bytes := h
      simp [hvalid text] at broken
  | raw bytes broken _ =>
    cases b with
    | spelled text _ =>
      obtain rfl : bytes = text.toByteArray := h
      simp [hvalid text] at broken
    | raw bytes' _ _ => simpa [toByteArray] using h

theorem bytes_inj {a b : EntryName} (h : a.bytes = b.bytes) : a = b :=
  toByteArray_inj (ByteArray.ext (Array.toList_inj.mp h))

end EntryName

/-- One step of a path. -/
inductive Part where
  /-- The root directory, where an absolute path starts. -/
  | root
  /-- The directory itself, kept only where a relative path starts with it. -/
  | here
  /-- The parent directory, which is not resolved. -/
  | up
  /-- A named entry. -/
  | entry (name : EntryName)
deriving DecidableEq

namespace Part

/-- How a part is written. -/
def text : Part → String
  | root => "/"
  | here => "."
  | up => ".."
  | entry name => name.text

/-- The bytes of a part. -/
def toByteArray : Part → ByteArray
  | entry name => name.toByteArray
  | part => part.text.toUTF8

/-- The part that a segment between two slashes stands for. An empty segment and a single dot
stand for none. -/
def ofSegment? (s : String) : Option Part :=
  if h : isEntryName s = true then some (entry (.spelled s h))
  else if s = ".." then some up
  else none

/-- The four kinds of parts, in the order in which they sort. -/
def rank : Part → Nat
  | root => 0
  | here => 1
  | up => 2
  | entry _ => 3

/-- The bytes of a part, one by one. -/
def bytes (part : Part) : List UInt8 := part.toByteArray.data.toList

/-- Whether a part is a text. -/
def isText : Part → Bool
  | entry name => name.isText
  | _ => true

/-- The number of bytes of a part. -/
def size (part : Part) : Nat := part.toByteArray.size

/-- Parts sort by kind, and names by their bytes. -/
instance : Ord Part := ⟨compareLex (compareOn rank) (compareOn bytes)⟩

instance : Std.TransOrd Part :=
  inferInstanceAs (Std.TransCmp (compareLex (compareOn rank) (compareOn bytes)))

instance : Std.LawfulEqOrd Part where
  eq_of_compare {a b} h := by
    have h' : ((compare a.rank b.rank).then (compare a.bytes b.bytes)) = .eq := h
    rw [Ordering.then_eq_eq] at h'
    have hr : a.rank = b.rank := Std.LawfulEqOrd.eq_of_compare h'.1
    have ht : a.bytes = b.bytes := Std.LawfulEqOrd.eq_of_compare h'.2
    cases a <;> cases b <;> simp [rank] at hr ⊢
    exact EntryName.bytes_inj ht

end Part

/-! ### Spelled paths -/

/-- A part and the separators skipped in front of it. -/
structure Piece where
  gap : String
  part : Part
deriving DecidableEq

/-- How a piece is written. -/
def Piece.text (piece : Piece) : String := piece.gap ++ piece.part.text

/-- The number of bytes of a piece. -/
def Piece.size (piece : Piece) : Nat := piece.gap.utf8ByteSize + piece.part.size

/-- A path as it was spelled: its pieces, and the separators skipped at its end. -/
structure Path where
  pieces : List Piece
  tail : String
deriving DecidableEq

namespace Path

/-- The path as it was spelled. -/
def text (p : Path) : String := String.join (p.pieces.map Piece.text) ++ p.tail

/-- The number of bytes of a path. -/
def size (p : Path) : Nat :=
  p.pieces.foldr (fun piece rest ↦ piece.size + rest) p.tail.utf8ByteSize

/-- What the path names. -/
def parts (p : Path) : List Part := p.pieces.map Piece.part

/-- Reads the segments behind a place where `gap` has been skipped. -/
def readSegments : String → List String → List Piece × String
  | gap, [] => ([], gap)
  | gap, seg :: segs =>
    let slash := if segs.isEmpty then "" else "/"
    match Part.ofSegment? seg with
    | some part =>
      let (pieces, tail) := readSegments slash segs
      (⟨gap, part⟩ :: pieces, tail)
    | none => readSegments (gap ++ seg ++ slash) segs

/-- Reads a path. A first slash is the root; a first segment that is a single dot is kept, and
every other one is skipped, as are repeated slashes. -/
def ofText (s : String) : Path :=
  match s.toList with
  | '/' :: rest =>
    let (pieces, tail) := readSegments "" ((Text.splitOn '/' rest).map String.ofList)
    ⟨⟨"", .root⟩ :: pieces, tail⟩
  | chars =>
    match (Text.splitOn '/' chars).map String.ofList with
    | "." :: segs =>
      let (pieces, tail) := readSegments (if segs.isEmpty then "" else "/") segs
      ⟨⟨"", .here⟩ :: pieces, tail⟩
    | segs =>
      let (pieces, tail) := readSegments "" segs
      ⟨pieces, tail⟩

/-- The path of one entry name. -/
def ofName (name : EntryName) : Path := ⟨[⟨"", .entry name⟩], ""⟩

/-- The root directory. -/
def root : Path := ⟨[⟨"", .root⟩], ""⟩

/-! ### What two paths share -/

/-- Two paths are the same when they name the same thing. -/
instance : HasEquiv Path := ⟨fun p q ↦ p.parts = q.parts⟩

instance (p q : Path) : Decidable (p ≈ q) := inferInstanceAs (Decidable (p.parts = q.parts))

/-- Paths sort part by part, so what is below a directory follows it immediately. -/
def order (p q : Path) : Ordering := compare p.parts q.parts

/-- A path that starts at the root. -/
def isAbsolute (p : Path) : Bool := p.parts.head? == some .root

/-- The root directory, in any spelling. -/
def isRoot (p : Path) : Bool := p.parts == [.root]

/-- The path with no parts and no text. -/
def isEmpty (p : Path) : Bool := p.pieces.isEmpty && p.tail.isEmpty

/-- Whether `p` is `base` or lies below it. -/
def startsWith (p base : Path) : Bool := base.parts.isPrefixOf p.parts

/-! ### Building and taking apart -/

/-- The path without its last part; the root and the empty path have none. -/
def parent? (p : Path) : Option Path :=
  if p.parts = [] ∨ p.parts = [.root] then none else some ⟨p.pieces.dropLast, ""⟩

/-- The ancestors of a path, nearest first, without the path itself. Those of an absolute path end
at the root, those of a relative one at the empty path. -/
def ancestors (p : Path) : List Path :=
  let first := if p.isAbsolute then 1 else 0
  ((List.range p.pieces.length).filter (first ≤ ·)).reverse.map fun k ↦ ⟨p.pieces.take k, ""⟩

/-- The name of the last part, if that is a name. -/
def fileName? (p : Path) : Option EntryName :=
  match p.parts.getLast? with
  | some (.entry name) => some name
  | _ => none

/-- Whether the spelling ends in a slash. -/
def endsInSlash (p : Path) : Bool :=
  if p.tail.isEmpty then p.parts.getLast? == some .root else p.tail.toList.getLast? == some '/'

/-- Continues a path by pieces, the first of which is moved behind `gap`. -/
def extend (p : Path) (gap : String) : List Piece → String → Path
  | [], tail => ⟨p.pieces, gap ++ tail⟩
  | piece :: pieces, tail => ⟨p.pieces ++ ⟨gap ++ piece.gap, piece.part⟩ :: pieces, tail⟩

/-- The path `q` seen from the directory `p`. An absolute `q` is itself; a single dot in front
of a relative one is skipped, because it is no longer at the start. -/
def join (p q : Path) : Path :=
  if q.isAbsolute || p.isEmpty then q
  else
    let gap := p.tail ++ (if p.endsInSlash then "" else "/")
    match q.pieces with
    | ⟨dots, .here⟩ :: pieces => p.extend (gap ++ dots ++ ".") pieces q.tail
    | pieces => p.extend gap pieces q.tail

/-- The entry called `name` of the directory `p`. -/
def child (p : Path) (name : EntryName) : Path := p.join (ofName name)

/-- What is left of a path behind its first `n` parts, as a relative path. -/
def remainder (p : Path) (n : Nat) : Path :=
  match p.pieces.drop n with
  | [] => ⟨[], ""⟩
  | piece :: pieces => ⟨⟨"", piece.part⟩ :: pieces, ""⟩

/-- The place of `p`, which is at or below `source`, when `source` is moved to `target`. -/
def relocate (p source target : Path) : Path :=
  let rest := p.remainder source.parts.length
  if rest.pieces.isEmpty then target else target.join rest

end Path

end Scaffold
