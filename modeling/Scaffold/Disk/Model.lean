import Scaffold.Disk.System

/-!
# A disk in memory

A tree of directories, files and symbolic links, with the calls of the operating system as
functions on it. A path is walked hop by hop from the root or from the current directory; links on
the way are followed, a limited number of times, and whether the last hop follows a link depends on
the call. A slash at the end of a path demands a directory. A directory may be locked: it can be
entered, but what is in it cannot be listed.
-/

namespace Scaffold

/-- Where something is on a disk: the names on the way from the root. -/
abbrev Location := List EntryName

/-- What is at a location. -/
inductive DiskNode where
  | dir
  | file (bytes : ByteArray)
  | link (target : Path)
deriving DecidableEq

/-- The type of a node. -/
def DiskNode.type : DiskNode → FileType
  | dir => .directory
  | file _ => .file
  | link _ => .link

/-- A disk. The root is always there and is not stored. -/
structure Disk where
  entries : List (Location × DiskNode)
  current : Location
  /-- The directories that cannot be listed. -/
  locked : List Location := []

namespace Disk

/-! ### Entries -/

/-- Locations in the order in which they are walked. -/
def locationOrder (a b : Location) : Ordering :=
  compare (a.map EntryName.bytes) (b.map EntryName.bytes)

/-- Stores an entry among sorted ones. -/
def insertSorted (loc : Location) (node : DiskNode) :
    List (Location × DiskNode) → List (Location × DiskNode)
  | [] => [(loc, node)]
  | (l, n) :: rest =>
    match locationOrder loc l with
    | .lt => (loc, node) :: (l, n) :: rest
    | .eq => (loc, node) :: rest
    | .gt => (l, n) :: insertSorted loc node rest

/-- What is at a location. -/
def node? (d : Disk) (loc : Location) : Option DiskNode :=
  if loc.isEmpty then some .dir else d.entries.lookup loc

/-- Puts a node at a location. -/
def insert (d : Disk) (loc : Location) (node : DiskNode) : Disk :=
  { d with entries := insertSorted loc node d.entries }

/-- Removes what is at a location. -/
def erase (d : Disk) (loc : Location) : Disk :=
  { d with entries := d.entries.filter (·.1 != loc), locked := d.locked.filter (· != loc) }

/-- The entries strictly below a location. -/
def below (d : Disk) (loc : Location) : List (Location × DiskNode) :=
  d.entries.filter fun e ↦ loc.isPrefixOf e.1 && e.1 != loc

/-- The names in a directory, with their types. -/
def children (d : Disk) (loc : Location) : List (EntryName × FileType) :=
  d.entries.filterMap fun (l, node) ↦
    match l.getLast? with
    | some name => if l.dropLast = loc then some (name, node.type) else none
    | none => none

/-! ### Walking paths -/

/-- The number of bytes that a name may have. -/
def maxNameBytes : Nat := 255

/-- The number of bytes that a path may have, with the one that ends it. -/
def maxPathBytes : Nat := 4096

/-- The number of links that are followed on a walk. -/
def maxLinks : Nat := 40

/-- The hops of a path: its parts, and at a slash or a dot behind them the directory itself. -/
def hops (p : Path) : List Part := p.parts ++ if p.tail.isEmpty then [] else [.here]

/-- Where a walk ends. -/
inductive Place where
  | found (loc : Location) (node : DiskNode)
  /-- Nothing has the name in the directory. -/
  | missing (dir : Location) (name : EntryName)

/-- Walks from a directory. The last hop follows a link only if `follow` holds. -/
def walk (d : Disk) (follow : Bool) (links : Nat) (here : Location) :
    List Part → Except Errno Place
  | [] => .ok (.found here .dir)
  | .root :: rest => walk d follow links [] rest
  | .here :: rest => walk d follow links here rest
  | .up :: rest => walk d follow links here.dropLast rest
  | .entry name :: rest =>
    if maxNameBytes < name.size then .error .nameTooLong
    else
      let loc := here ++ [name]
      match d.node? loc with
      | none => if rest.isEmpty then .ok (.missing here name) else .error .noEntry
      | some .dir => walk d follow links loc rest
      | some (.file bytes) =>
        if rest.isEmpty then .ok (.found loc (.file bytes)) else .error .notDirectory
      | some (.link target) =>
        if rest.isEmpty && !follow then .ok (.found loc (.link target))
        else match links with
          | 0 => .error .tooManyLinks
          | links + 1 =>
            if target.isEmpty then .error .noEntry
            else walk d follow links here (hops target ++ rest)
termination_by parts => (links, parts.length)

/-- Refuses paths that cannot be walked at all. -/
def checkPath (p : Path) : Except OsError Unit :=
  if p.text.toList.contains '\x00' then
    .error (.refused "file name contained an unexpected NUL byte")
  else if p.isEmpty then .error (.errno .noEntry)
  else if maxPathBytes ≤ p.size then .error (.errno .nameTooLong)
  else .ok ()

/-- Walks some hops from the current directory. -/
def walkHops (d : Disk) (follow : Bool) (parts : List Part) : Except OsError Place :=
  (walk d follow maxLinks d.current parts).mapError .errno

/-- What a path leads to. -/
def locate (d : Disk) (p : Path) (follow : Bool) : Except OsError (Location × DiskNode) := do
  checkPath p
  match ← d.walkHops follow (hops p) with
  | .found loc node => return (loc, node)
  | .missing _ _ => throw (.errno .noEntry)

/-- The last hop of a path, for calls that create or remove: a name, with what follows it, or
another part. -/
structure LastHop where
  dir : Location
  /-- The name, if the last hop is one. -/
  part : Part
  /-- Whether there is a slash behind it. -/
  slash : Bool

/-- Walks to the directory in which the last hop of a path lies. -/
def lastHop (d : Disk) (p : Path) : Except OsError LastHop := do
  checkPath p
  let dotted := p.tail.toList.contains '.'
  let part := if dotted then .here else p.parts.getLast?.getD .here
  let around := if dotted then p.parts else p.parts.dropLast
  match ← d.walkHops true around with
  | .found dir .dir => return ⟨dir, part, !p.tail.isEmpty⟩
  | .found _ _ => throw (.errno .notDirectory)
  | .missing _ _ => throw (.errno .noEntry)

/-- What has a name in a directory. -/
def child? (d : Disk) (dir : Location) (name : EntryName) : Except OsError (Option DiskNode) :=
  if maxNameBytes < name.size then .error (.errno .nameTooLong)
  else .ok (d.node? (dir ++ [name]))

/-! ### Calls -/

/-- The status of a node; the size of a directory is not told. -/
def statusOf : DiskNode → FileStatus
  | .dir => ⟨.directory, 0⟩
  | .file bytes => ⟨.file, bytes.size⟩
  | .link target => ⟨.link, target.size⟩

/-- The status of a file. -/
def status (d : Disk) (p : Path) (follow : Bool) : Except OsError FileStatus := do
  return statusOf (← d.locate p follow).2

/-- Creates a directory. -/
def mkdir (d : Disk) (p : Path) : Except OsError Disk := do
  let last ← d.lastHop p
  match last.part with
  | .entry name =>
    match ← d.child? last.dir name with
    | some _ => throw (.errno .exists_)
    | none => return d.insert (last.dir ++ [name]) .dir
  | _ => throw (.errno .exists_)

/-- Removes an empty directory. -/
def rmdir (d : Disk) (p : Path) : Except OsError Disk := do
  let last ← d.lastHop p
  match last.part with
  | .entry name =>
    match ← d.child? last.dir name with
    | none => throw (.errno .noEntry)
    | some .dir =>
      let loc := last.dir ++ [name]
      if (d.below loc).isEmpty then return d.erase loc else throw (.errno .notEmpty)
    | some _ => throw (.errno .notDirectory)
  | .up => throw (.errno .notEmpty)
  | .here => throw (.errno .invalid)
  | .root => throw (.errno .busy)

/-- Removes a file or a link. -/
def unlink (d : Disk) (p : Path) : Except OsError Disk := do
  let last ← d.lastHop p
  match last.part with
  | .entry name =>
    match ← d.child? last.dir name with
    | none => throw (.errno .noEntry)
    | some .dir => throw (.errno .isDirectory)
    | some _ =>
      if last.slash then throw (.errno .notDirectory) else return d.erase (last.dir ++ [name])
  | _ => throw (.errno .isDirectory)

/-- Moves the node at a location and what is below it. -/
def relocate (d : Disk) (source target : Location) (node : DiskNode) : Disk :=
  let below := d.below source
  let cleared := { d with
    entries := d.entries.filter fun e ↦ !source.isPrefixOf e.1 && e.1 != target
    locked := (d.locked.filter (· != target)).map fun loc ↦
      if source.isPrefixOf loc then target ++ loc.drop source.length else loc }
  below.foldl (fun d (loc, node) ↦ d.insert (target ++ loc.drop source.length) node)
    (cleared.insert target node)

/-- Renames a file. What has the new name is replaced, if it is of the same kind and, being a
directory, empty. -/
def rename (d : Disk) (source target : Path) : Except OsError Disk := do
  checkPath source
  checkPath target
  let old ← d.lastHop source
  let new ← d.lastHop target
  match old.part, new.part with
  | .entry oldName, .entry newName =>
    match ← d.child? old.dir oldName with
    | none => throw (.errno .noEntry)
    | some node =>
      let there ← d.child? new.dir newName
      let oldLoc := old.dir ++ [oldName]
      let newLoc := new.dir ++ [newName]
      let isDir := node == .dir
      if !isDir && (old.slash || new.slash) then throw (.errno .notDirectory)
      if oldLoc.isPrefixOf new.dir then throw (.errno .invalid)
      if newLoc.isPrefixOf old.dir then throw (.errno .notEmpty)
      if oldLoc = newLoc then return d
      match there with
      | none => pure ()
      | some .dir =>
        if !isDir then throw (.errno .isDirectory)
        if !(d.below newLoc).isEmpty then throw (.errno .notEmpty)
      | some _ => if isDir then throw (.errno .notDirectory)
      return d.relocate oldLoc newLoc node
  | _, _ => throw (.errno .busy)

/-- The entries of a directory. -/
def list (d : Disk) (p : Path) : Except OsError (List (EntryName × FileType)) := do
  match ← d.locate p true with
  | (loc, .dir) => if loc ∈ d.locked then throw (.errno .accessDenied) else return d.children loc
  | _ => throw (.errno .notDirectory)

/-- The bytes of a file. -/
def read (d : Disk) (p : Path) : Except OsError ByteArray := do
  match ← d.locate p true with
  | (_, .file bytes) => return bytes
  | _ => throw (.errno .isDirectory)

/-- Creates a file or replaces its bytes. A link that leads nowhere creates what it leads to. -/
def write (d : Disk) (p : Path) (bytes : ByteArray) : Except OsError Disk := do
  let last ← d.lastHop p
  match last.part with
  | .entry name =>
    if last.slash then throw (.errno .isDirectory)
    match (walk d true maxLinks last.dir [.entry name]).mapError OsError.errno with
    | .ok (.found _ .dir) => throw (.errno .isDirectory)
    | .ok (.found loc _) => return d.insert loc (.file bytes)
    | .ok (.missing dir name) => return d.insert (dir ++ [name]) (.file bytes)
    | .error e => throw e
  | _ => throw (.errno .isDirectory)

/-- Makes a symbolic link. -/
def makeLink (d : Disk) (p target : Path) : Except OsError Disk := do
  let last ← d.lastHop p
  match last.part with
  | .entry name =>
    match ← d.child? last.dir name with
    | some _ => throw (.errno .exists_)
    | none => return d.insert (last.dir ++ [name]) (.link target)
  | _ => throw (.errno .exists_)

/-! ### As an operating system -/

/-- A call that only reads. -/
def asking {α : Type} (f : Disk → Except OsError α) : OsCall (StateM Disk) α :=
  fun d ↦ (f d, d)

/-- A call that changes the disk. When it fails the disk is as before. -/
def changing (f : Disk → Except OsError Disk) : OsCall (StateM Disk) Unit :=
  fun d ↦ match f d with
    | .ok d' => (.ok (), d')
    | .error e => (.error e, d)

/-- The calls on a disk in memory. -/
def system : System (StateM Disk) where
  stat p := asking (·.status p true)
  lstat p := asking (·.status p false)
  mkdir p := changing (·.mkdir p)
  rmdir p := changing (·.rmdir p)
  unlink p := changing (·.unlink p)
  rename source target := changing (·.rename source target)
  list p := asking (·.list p)
  read p := asking (·.read p)
  write p bytes := changing (·.write p bytes)

end Disk

end Scaffold
