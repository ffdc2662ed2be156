import Scaffold.Path.Basic
import Scaffold.Storage.Errno

/-!
# Storage errors

Why a call on a store failed. Every cause names the path that it is about, which need not be the
path that was asked for: a missing parent is blamed under its own name.
-/

namespace Scaffold

/-- Why a call on a store failed. -/
inductive StorageError where
  | notFound (path : Path)
  | alreadyExists (path : Path)
  | notADirectory (path : Path)
  | isADirectory (path : Path)
  | permissionDenied (path : Path)
  /-- Any other cause, in words. -/
  | failed (path : Path) (reason : String)
deriving DecidableEq

namespace StorageError

/-- The short code of a cause. -/
def code : StorageError → String
  | notFound _ => "ENOENT"
  | alreadyExists _ => "EEXIST"
  | notADirectory _ => "ENOTDIR"
  | isADirectory _ => "EISDIR"
  | permissionDenied _ => "EACCES"
  | failed _ _ => "EFAIL"

/-- The path that is to blame. -/
def path : StorageError → Path
  | notFound p | alreadyExists p | notADirectory p | isADirectory p | permissionDenied p
  | failed p _ => p

/-- The cause in words. -/
def message : StorageError → String
  | notFound p => s!"no such file or directory: {p.text}"
  | alreadyExists p => s!"already exists: {p.text}"
  | notADirectory p => s!"not a directory: {p.text}"
  | isADirectory p => s!"is a directory: {p.text}"
  | permissionDenied p => s!"permission denied: {p.text}"
  | failed p reason => s!"operation failed on {p.text}: {reason}"

/-- The cause behind an error of the operating system. -/
def ofErrno (p : Path) (e : Errno) : StorageError :=
  if e = .noEntry then notFound p
  else if e = .exists_ then alreadyExists p
  else if e = .notPermitted ∨ e = .accessDenied then permissionDenied p
  else if e = .notDirectory then notADirectory p
  else if e = .isDirectory then isADirectory p
  else failed p e.text

end StorageError

end Scaffold
