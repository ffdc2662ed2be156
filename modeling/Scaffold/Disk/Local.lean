import Scaffold.Disk.System

/-!
# A disk as a store

The primitive calls of a store, made of calls of the operating system. Listings do not follow
links, so a link to a directory is listed as a file and walking a directory ends.
-/

namespace Scaffold.System

variable {m : Type → Type} [Monad m] (sys : System m)

/-- A call of the operating system whose errors are blamed on a path. -/
def blaming {α : Type} (p : Path) (call : OsCall m α) : Attempt m α := do
  match ← call.run with
  | .ok a => pure a
  | .error e => throw (e.at_ p)

/-- Refuses a directory. -/
def refuseDir (p : Path) : Attempt m Unit := do
  if ← sys.isDir p then throw (.isADirectory p)

/-- Creates a directory. -/
def storeMkdir (p : Path) (recursive : Bool) : Attempt m Unit := do
  if recursive then
    if (← sys.isThere p) && !(← sys.isDir p) then throw (.notADirectory p)
    blaming p (sys.createDirs p)
  else
    blaming p (sys.mkdir p)

/-- The entries of a directory as they are listed, sorted by name. -/
def storeList (p : Path) : Attempt m (List DirEntry) := do
  if ← sys.isType .file p then throw (.notADirectory p)
  let found ← blaming p (sys.list p)
  let entries := found.map fun (name, type) ↦
    (⟨name, EntryKind.ofIsDirectory (type == .directory)⟩ : DirEntry)
  pure (DirEntry.sortByName (entries.map DirEntry.listed))

/-- Removes an entry. A directory that cannot be removed is said not to be empty, unless it is
missing or access to it is denied. -/
def storeRm (p : Path) (recursive : Bool) : Attempt m Unit := do
  let found ← blaming p (sys.lstat p)
  if found.type != .directory then
    blaming p (sys.unlink p)
  else if recursive then
    blaming p (sys.removeTree p)
  else
    match ← (sys.rmdir p).run with
    | .ok () => pure ()
    | .error e =>
      match e.at_ p with
      | .notFound q => throw (.notFound q)
      | .permissionDenied q => throw (.permissionDenied q)
      | _ => throw (.failed p "directory not empty")

/-- Copies the bytes of a file. -/
def storeCopyFile (source target : Path) : Attempt m Unit := do
  sys.refuseDir source
  if !(← sys.isThere source) then throw (.notFound source)
  blaming target (sys.copy source target)

/-- The calls on a disk as on a store. -/
def calls : Calls m where
  exists_ p := succeeds (sys.lstat p)
  mkdir p recursive := sys.storeMkdir p recursive
  write p bytes := do
    sys.refuseDir p
    blaming p (sys.write p bytes)
  read p := do
    sys.refuseDir p
    blaming p (sys.read p)
  stat p := do
    let found ← blaming p (sys.stat p)
    pure ⟨EntryKind.ofIsDirectory (found.type == .directory), found.size⟩
  list p := sys.storeList p
  rm p recursive := sys.storeRm p recursive
  unlink p := do
    sys.refuseDir p
    blaming p (sys.unlink p)
  rename source target := blaming source (sys.rename source target)
  copyFile source target := sys.storeCopyFile source target

/-- A disk as a backend. -/
def backend [Recursive m] : Backend m := sys.calls.backend

end Scaffold.System
