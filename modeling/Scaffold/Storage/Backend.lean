import Scaffold.Recursion
import Scaffold.Storage.Error

/-!
# Stores of files and directories

A store is used through ten primitive calls. Everything larger is composed of them here once, so
that it means the same for every store; only the transfer of whole folders may also be done by a
store in a way of its own.

The calls run in a monad `m`. A store held in a value of type `σ` has `m = StateM σ`, and then each
call is a function on that value; nothing in this library looks behind the calls.
-/

namespace Scaffold

/-- A call that can fail. -/
abbrev Attempt (m : Type → Type) (α : Type) : Type := ExceptT StorageError m α

/-- The two kinds of entries. -/
inductive EntryKind where
  | file
  | directory
deriving DecidableEq, Repr

namespace EntryKind

/-- The kind of an entry that is or is not a directory. -/
def ofIsDirectory (isDirectory : Bool) : EntryKind := if isDirectory then directory else file

/-- The word for a kind. -/
def label : EntryKind → String
  | file => "file"
  | directory => "directory"

end EntryKind

/-- What a store knows of an entry: its kind and the number of its bytes. -/
structure Metadata where
  kind : EntryKind
  size : Nat
deriving DecidableEq, Repr

/-- An entry of a listing. -/
structure DirEntry where
  name : EntryName
  kind : EntryKind
deriving DecidableEq

namespace DirEntry

/-- An entry as it is listed, which is by a name that is a text. -/
def listed (e : DirEntry) : DirEntry := ⟨e.name.listed, e.kind⟩

/-- Puts an entry in front of the first one whose name is not smaller. -/
def insertByName (e : DirEntry) : List DirEntry → List DirEntry
  | [] => [e]
  | x :: xs =>
    if (compare e.name.bytes x.name.bytes).isLE then e :: x :: xs else x :: insertByName e xs

/-- Sorts entries by name. Those of one name stay in the order in which they are. -/
def sortByName (entries : List DirEntry) : List DirEntry := entries.foldr insertByName []

end DirEntry

/-- The primitive calls on a store. -/
structure Calls (m : Type → Type) where
  /-- Whether there is anything at the path. -/
  exists_ : Path → m Bool
  /-- Creates a directory; with `true`, also those above it, and then one that is there already
  is no error. -/
  mkdir : Path → Bool → Attempt m Unit
  /-- Creates or overwrites a file. -/
  write : Path → ByteArray → Attempt m Unit
  read : Path → Attempt m ByteArray
  stat : Path → Attempt m Metadata
  /-- The entries of a directory as they are listed, sorted by name. -/
  list : Path → Attempt m (List DirEntry)
  /-- Removes an entry; with `true`, also a directory that is not empty. -/
  rm : Path → Bool → Attempt m Unit
  /-- Removes a file. -/
  unlink : Path → Attempt m Unit
  rename : Path → Path → Attempt m Unit
  /-- Copies the bytes of a file. -/
  copyFile : Path → Path → Attempt m Unit

/-- A store: its primitive calls, and how it transfers whole folders. -/
structure Backend (m : Type → Type) extends Calls m where
  /-- Copies the contents of a directory into another one. -/
  copyFolder : Path → Path → Attempt m Unit
  /-- Moves a directory. -/
  moveFolder : Path → Path → Attempt m Unit

namespace Calls

variable {m n : Type → Type}

/-- The calls in another monad. -/
def map (lift : {α : Type} → m α → n α) (c : Calls m) : Calls n where
  exists_ p := lift (c.exists_ p)
  mkdir p recursive := .mk (lift (c.mkdir p recursive).run)
  write p bytes := .mk (lift (c.write p bytes).run)
  read p := .mk (lift (c.read p).run)
  stat p := .mk (lift (c.stat p).run)
  list p := .mk (lift (c.list p).run)
  rm p recursive := .mk (lift (c.rm p recursive).run)
  unlink p := .mk (lift (c.unlink p).run)
  rename source target := .mk (lift (c.rename source target).run)
  copyFile source target := .mk (lift (c.copyFile source target).run)

variable [Monad m] (c : Calls m)

/-- Whether there is an entry of the given kind at the path. -/
def existsAs (p : Path) (kind : EntryKind) : m Bool := do
  match ← (c.stat p).run with
  | .ok found => pure (found.kind == kind)
  | .error _ => pure false

/-- Creates a directory and those above it, unless it is there already. -/
def ensureDir (p : Path) : Attempt m Unit := do
  if ← c.existsAs p .directory then pure () else c.mkdir p true

/-- Makes a directory and removes what is in it. -/
def emptyDir (p : Path) : Attempt m Unit := do
  if ← c.exists_ p then
    for entry in ← c.list p do
      c.rm (p.child entry.name) true
  else
    c.mkdir p true

/-! ### Whole folders -/

/-- Copies the contents of the directory `source` into the directory `target`, which is created, and
those of the directories in it by `again`. An entry that exists in both is overwritten. -/
def copyFolderStep (again : Path → Path → Attempt m Unit) (source target : Path) :
    Attempt m Unit := do
  c.ensureDir target
  for entry in ← c.list source do
    match entry.kind with
    | .directory => again (source.child entry.name) (target.child entry.name)
    | .file => c.copyFile (source.child entry.name) (target.child entry.name)

/-- What stands for the answer of a walk through directories that has none. -/
def endless (p : Path) : StorageError := .failed p "directories are nested without end"

/-- The step of the recursion that copies folders, on pairs of paths. -/
def copyFolderPair (again : Path × Path → OptionT m (Except StorageError Unit))
    (paths : Path × Path) : OptionT m (Except StorageError Unit) :=
  ((c.map OptionT.lift).copyFolderStep (fun source target ↦ .mk (again (source, target)))
    paths.1 paths.2).run

variable [Recursive m]

/-- Copies the contents of the directory `source` into the directory `target`, however deep the
directories lie in each other. -/
def copyFolder (source target : Path) : Attempt m Unit :=
  .mk (Recursive.follow (fun paths ↦ .error (endless paths.1)) c.copyFolderPair (source, target))

/-- Moves a directory: copies it, then removes the source. -/
def moveFolder (source target : Path) : Attempt m Unit := do
  c.copyFolder source target
  c.rm source true

/-- The store that transfers whole folders by its primitive calls. -/
def backend : Backend m := { c with copyFolder := c.copyFolder, moveFolder := c.moveFolder }

end Calls

namespace Backend

variable {m : Type → Type} [Monad m] (b : Backend m)

/-- Copies an entry of either kind. The directory of a copied file is created. -/
def copy (source target : Path) : Attempt m Unit := do
  match (← b.stat source).kind with
  | .directory => b.copyFolder source target
  | .file =>
    if let some parent := target.parent? then b.ensureDir parent
    b.copyFile source target

/-- Moves an entry of either kind: copies it, then removes the source. -/
def moveEntry (source target : Path) : Attempt m Unit := do
  match (← b.stat source).kind with
  | .directory => b.moveFolder source target
  | .file =>
    b.copy source target
    b.unlink source

end Backend

end Scaffold
