import Scaffold.Storage.Backend

/-!
# Calls of the operating system

A disk is used through nine calls, each of which either succeeds or fails with an error of the
operating system. What takes several calls, such as creating a directory together with those above
it, is composed of them here.
-/

namespace Scaffold

/-- Why a call of the operating system failed. -/
inductive OsError where
  | errno (e : Errno)
  /-- The call was not made, because its arguments cannot be passed on. -/
  | refused (reason : String)
deriving DecidableEq

namespace OsError

/-- The error in words. -/
def text : OsError → String
  | errno e => e.text
  | refused reason => reason

/-- The error as a storage error about a path. -/
def at_ (e : OsError) (p : Path) : StorageError :=
  match e with
  | errno e => .ofErrno p e
  | refused reason => .failed p reason

end OsError

/-- The types of files. -/
inductive FileType where
  | file | directory | link
deriving DecidableEq, Repr

/-- What the operating system tells about a file. -/
structure FileStatus where
  type : FileType
  size : Nat
deriving DecidableEq, Repr

/-- A call of the operating system. -/
abbrev OsCall (m : Type → Type) (α : Type) : Type := ExceptT OsError m α

/-- The calls on a disk. -/
structure System (m : Type → Type) where
  /-- The status of a file; a link is followed. -/
  stat : Path → OsCall m FileStatus
  /-- The status of a file; a link is not followed. -/
  lstat : Path → OsCall m FileStatus
  mkdir : Path → OsCall m Unit
  /-- Removes an empty directory. -/
  rmdir : Path → OsCall m Unit
  /-- Removes a file or a link. -/
  unlink : Path → OsCall m Unit
  rename : Path → Path → OsCall m Unit
  /-- The entries of a directory, in any order; links are not followed. -/
  list : Path → OsCall m (List (EntryName × FileType))
  read : Path → OsCall m ByteArray
  /-- Creates a file or replaces its bytes. -/
  write : Path → ByteArray → OsCall m Unit

namespace System

variable {m : Type → Type} [Monad m] (sys : System m)

/-- Whether a call succeeds. -/
def succeeds {α : Type} (call : OsCall m α) : m Bool := do
  match ← call.run with
  | .ok _ => pure true
  | .error _ => pure false

/-- Whether there is something at a path, links followed. -/
def isThere (p : Path) : m Bool := succeeds (sys.stat p)

/-- Whether there is a file of the given type at a path, links followed. -/
def isType (type : FileType) (p : Path) : m Bool := do
  match ← (sys.stat p).run with
  | .ok found => pure (found.type == type)
  | .error _ => pure false

/-- Whether there is a directory at a path, links followed. -/
def isDir (p : Path) : m Bool := sys.isType .directory p

/-- Creates a directory; one that is there already is no error. What is to be done when the
directory above is missing is the second argument. -/
def mkdirOr (p : Path) (missing : OsCall m Unit) : OsCall m Unit := do
  let result ← ExceptT.lift (sys.mkdir p).run
  match result with
  | .ok () => pure ()
  | .error e =>
    if e = .errno .noEntry then missing
    else if ← sys.isDir p then pure ()
    else throw e

/-- Creates a directory and those above it, whose paths are given nearest first. -/
def createDirsFrom : Path → List Path → OsCall m Unit
  | p, [] =>
    if p.isEmpty then pure () else sys.mkdirOr p (throw (.refused "failed to create whole tree"))
  | p, parent :: above =>
    if p.isEmpty then pure ()
    else sys.mkdirOr p do
      createDirsFrom parent above
      sys.mkdirOr p (do if ← sys.isDir p then pure () else throw (.errno .noEntry))

/-- Creates a directory and those above it. -/
def createDirs (p : Path) : OsCall m Unit := sys.createDirsFrom p p.ancestors

/-- The greatest depth to which directories are walked. A path has fewer parts than that. -/
def maxDepth : Nat := 4096

/-- Removes a directory with all that is in it, at most `depth` directories deep. -/
def removeTreeWithin : Nat → Path → OsCall m Unit
  | 0, _ => throw (.errno .nameTooLong)
  | depth + 1, p => do
    for (name, type) in ← sys.list p do
      match type with
      | .directory => removeTreeWithin depth (p.child name)
      | _ => sys.unlink (p.child name)
    sys.rmdir p

/-- Removes a directory with all that is in it. -/
def removeTree (p : Path) : OsCall m Unit := sys.removeTreeWithin maxDepth p

/-- Copies the bytes of a file. The target is emptied before anything is read, so a file that is
copied onto itself loses its bytes. -/
def copy (source target : Path) : OsCall m Unit := do
  let _ ← sys.read source
  sys.write target ByteArray.empty
  sys.write target (← sys.read source)

end System

end Scaffold
