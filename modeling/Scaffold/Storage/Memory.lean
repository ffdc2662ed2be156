import Scaffold.Storage.Backend

/-!
# A store in memory

The entries are kept in the order of their paths, so that what lies below a directory follows it
without a gap. The root is always there and is not stored. Two spellings of a path name one entry,
and an entry that is written again keeps the spelling under which it was first stored.

A store need not be a tree: seeding may put a file where a directory is and leave entries below it.
Each call is a function that answers the changed store, or the cause of the failure.
-/

namespace Scaffold

/-- What is stored at a path. -/
inductive StoredNode where
  | dir
  | file (bytes : ByteArray)
deriving DecidableEq

namespace StoredNode

/-- The kind of an entry. -/
def kind : StoredNode → EntryKind
  | dir => .directory
  | file _ => .file

/-- What is known of an entry; a directory counts no bytes. -/
def metadata : StoredNode → Metadata
  | dir => ⟨.directory, 0⟩
  | file bytes => ⟨.file, bytes.size⟩

end StoredNode

/-- A path and what is stored there. -/
structure StoredEntry where
  path : Path
  node : StoredNode
deriving DecidableEq

/-- Entries in the order of their paths, no two of which name the same thing. -/
def PathSorted (entries : List StoredEntry) : Prop :=
  entries.Pairwise fun a b ↦ a.path.order b.path = .lt

/-- A store of files and directories in memory. -/
structure MemoryStore where
  entries : List StoredEntry
  sorted : PathSorted entries

/-! ### Sorted entries -/

/-- Stores an entry among sorted ones; what is already there under its path is overwritten. -/
def insertEntry (e : StoredEntry) : List StoredEntry → List StoredEntry
  | [] => [e]
  | x :: xs =>
    match e.path.order x.path with
    | .lt => e :: x :: xs
    | .eq => ⟨x.path, e.node⟩ :: xs
    | .gt => x :: insertEntry e xs

namespace Path

/-- Two paths compare the other way round when they are swapped. -/
theorem order_swap (p q : Path) : (p.order q).swap = q.order p := by
  unfold order
  exact Std.OrientedCmp.eq_swap.symm

/-- Paths are equal in the order when they have the same parts. -/
theorem order_eq_iff {p q : Path} : p.order q = .eq ↔ p.parts = q.parts :=
  Std.LawfulEqOrd.compare_eq_iff_eq

/-- The order of paths is transitive. -/
theorem order_lt_trans {p q r : Path} (h : p.order q = .lt) (h' : q.order r = .lt) :
    p.order r = .lt := by
  unfold order at *
  exact Std.TransCmp.lt_trans h h'

/-- One path is behind another when that one is in front of it. -/
theorem order_gt_iff {p q : Path} : p.order q = .gt ↔ q.order p = .lt := by
  rw [← order_swap q p]
  cases q.order p <;> simp

end Path

/-- Inserting brings in no path but that of the new entry. -/
theorem mem_insertEntry {e y : StoredEntry} {xs : List StoredEntry} (h : y ∈ insertEntry e xs) :
    y.path.parts = e.path.parts ∨ y ∈ xs := by
  induction xs with
  | nil => simp_all [insertEntry]
  | cons x xs ih =>
    simp only [insertEntry] at h
    split at h
    · rcases List.mem_cons.mp h with rfl | h
      · exact .inl rfl
      · exact .inr h
    · rename_i heq
      rcases List.mem_cons.mp h with rfl | h
      · exact .inl (Path.order_eq_iff.mp heq).symm
      · exact .inr (List.mem_cons_of_mem _ h)
    · rcases List.mem_cons.mp h with rfl | h
      · exact .inr List.mem_cons_self
      · exact (ih h).imp_right (List.mem_cons_of_mem _)

/-- Entries stay sorted when one is inserted. -/
theorem insertEntry_sorted (e : StoredEntry) {xs : List StoredEntry} (h : PathSorted xs) :
    PathSorted (insertEntry e xs) := by
  induction xs with
  | nil => simp [insertEntry, PathSorted]
  | cons x xs ih =>
    obtain ⟨hx, hxs⟩ := List.pairwise_cons.mp h
    simp only [insertEntry]
    split
    · rename_i hlt
      refine List.pairwise_cons.mpr ⟨fun y hy ↦ ?_, h⟩
      rcases List.mem_cons.mp hy with rfl | hy
      · exact hlt
      · exact Path.order_lt_trans hlt (hx y hy)
    · exact List.pairwise_cons.mpr ⟨hx, hxs⟩
    · rename_i hgt
      refine List.pairwise_cons.mpr ⟨fun y hy ↦ ?_, ih hxs⟩
      rcases mem_insertEntry hy with heq | hy
      · have := Path.order_gt_iff.mp hgt
        rwa [Path.order, ← heq] at this
      · exact hx y hy

namespace MemoryStore

/-- The store with nothing but the root. -/
def empty : MemoryStore := ⟨[], List.Pairwise.nil⟩

/-! ### Looking up -/

/-- What is stored at a path. The root is not stored. -/
def node? (s : MemoryStore) (p : Path) : Option StoredNode :=
  (s.entries.find? fun e ↦ decide (e.path ≈ p)).map StoredEntry.node

/-- The kind of what is at a path. -/
def kindOf? (s : MemoryStore) (p : Path) : Option EntryKind :=
  if p.isRoot then some .directory else (s.node? p).map StoredNode.kind

/-- The stored entries strictly below a path: those that follow it in the order for as long as
they start with it. -/
def descendants (s : MemoryStore) (p : Path) : List StoredEntry :=
  let behind := s.entries.dropWhile fun e ↦ e.path.order p == .lt
  (behind.filter fun e ↦ !decide (e.path ≈ p)).takeWhile fun e ↦ e.path.startsWith p

/-- The greatest number of parts of a stored path. -/
def depth (s : MemoryStore) : Nat :=
  s.entries.foldl (fun n e ↦ max n e.path.parts.length) 0

/-! ### Changing entries -/

/-- Stores a node at a path. -/
def insert (s : MemoryStore) (p : Path) (node : StoredNode) : MemoryStore :=
  ⟨insertEntry ⟨p, node⟩ s.entries, insertEntry_sorted _ s.sorted⟩

/-- Removes what is stored at a path. -/
def erase (s : MemoryStore) (p : Path) : MemoryStore :=
  ⟨s.entries.filter fun e ↦ !decide (e.path ≈ p), s.sorted.filter _⟩

/-- Stores a directory at a path, unless something is there already. -/
def insertDir (s : MemoryStore) (p : Path) : MemoryStore :=
  if p.isRoot || p.isEmpty || (s.node? p).isSome then s else s.insert p .dir

/-- Stores directories at a path and at its ancestors, where nothing is. -/
def insertDirs (s : MemoryStore) (p : Path) : MemoryStore :=
  (p :: p.ancestors).foldl insertDir s

/-! ### Seeding -/

/-- Puts a directory into the store, with those above it. -/
def withDir (s : MemoryStore) (p : Path) : MemoryStore := s.insertDirs p

/-- Puts a file into the store, with the directories above it, whatever is there already. -/
def withFile (s : MemoryStore) (p : Path) (bytes : ByteArray) : MemoryStore :=
  let s := match p.parent? with
    | some parent => s.insertDirs parent
    | none => s
  s.insert p (.file bytes)

/-! ### The primitive calls -/

/-- The result of a call that changes the store. -/
abbrev Update := Except StorageError MemoryStore

/-- Demands that the directory in which `p` lies is there. -/
def requireParent (s : MemoryStore) (p : Path) : Except StorageError Unit :=
  match p.parent? with
  | none => .ok ()
  | some parent =>
    match s.kindOf? parent with
    | some .directory => .ok ()
    | some .file => .error (.notADirectory parent)
    | none => .error (.notFound parent)

/-- Creates a directory; with `recursive` also those above it. -/
def mkdir (s : MemoryStore) (p : Path) (recursive : Bool) : Update :=
  match s.kindOf? p, recursive with
  | some .directory, true => .ok s
  | some .directory, false => .error (.alreadyExists p)
  | some .file, true => .error (.notADirectory p)
  | some .file, false => .error (.alreadyExists p)
  | none, true =>
    match p.ancestors.find? fun q ↦ s.kindOf? q = some .file with
    | some blocking => .error (.notADirectory blocking)
    | none => .ok (s.insertDirs p)
  | none, false => do
    s.requireParent p
    return s.insert p .dir

/-- Creates or overwrites a file. -/
def write (s : MemoryStore) (p : Path) (bytes : ByteArray) : Update :=
  if s.kindOf? p = some .directory then .error (.isADirectory p)
  else do
    s.requireParent p
    return s.insert p (.file bytes)

/-- The bytes of a file. -/
def read (s : MemoryStore) (p : Path) : Except StorageError ByteArray :=
  match s.node? p with
  | some (.file bytes) => .ok bytes
  | some .dir => .error (.isADirectory p)
  | none => if p.isRoot then .error (.isADirectory p) else .error (.notFound p)

/-- What is known of an entry. -/
def stat (s : MemoryStore) (p : Path) : Except StorageError Metadata :=
  if p.isRoot then .ok StoredNode.dir.metadata
  else match s.node? p with
    | some node => .ok node.metadata
    | none => .error (.notFound p)

/-- The entry of the directory `p` that a stored path is. -/
def entryIn? (p : Path) (e : StoredEntry) : Option DirEntry :=
  match e.path.parent? with
  | some parent => if parent ≈ p then e.path.fileName?.map fun name ↦ ⟨name, e.node.kind⟩ else none
  | none => none

/-- What is in a directory, under the names by which it is stored. It is sorted by name because the
store is sorted by path. -/
def contents (s : MemoryStore) (p : Path) : List DirEntry := s.entries.filterMap (entryIn? p)

/-- The entries of a directory as they are listed. A text that stands for a name need not lead back
to what has the name, nor stand where the name does, so the entries are sorted again. -/
def list (s : MemoryStore) (p : Path) : Except StorageError (List DirEntry) :=
  match s.kindOf? p with
  | some .directory => .ok (DirEntry.sortByName ((s.contents p).map DirEntry.listed))
  | some .file => .error (.notADirectory p)
  | none => .error (.notFound p)

/-- Removes an entry; with `recursive` also what is below it. -/
def rm (s : MemoryStore) (p : Path) (recursive : Bool) : Update :=
  match s.kindOf? p with
  | none => .error (.notFound p)
  | some .file => .ok (s.erase p)
  | some .directory =>
    let below := s.descendants p
    if !below.isEmpty && !recursive then .error (.failed p "directory not empty")
    else .ok ((below.foldl (fun s e ↦ s.erase e.path) s).erase p)

/-- Removes a file. -/
def unlink (s : MemoryStore) (p : Path) : Update :=
  match s.kindOf? p with
  | some .file => .ok (s.erase p)
  | some .directory => .error (.isADirectory p)
  | none => .error (.notFound p)

/-- The entry at a path and those below it. -/
def subtree (s : MemoryStore) (p : Path) : List StoredEntry :=
  (s.node? p).toList.map (⟨p, ·⟩) ++ s.descendants p

/-- What is moved with an entry, under the paths to which it goes, unless it cannot be moved. -/
def takenAlong (s : MemoryStore) (source target : Path) :
    Except StorageError (List (Path × StoredNode)) :=
  if s.kindOf? source = none then .error (.notFound source)
  else if target.startsWith source && !decide (target ≈ source) then
    .error (.failed target "cannot move a directory into itself")
  else do
    s.requireParent target
    return (s.subtree source).map fun e ↦ (e.path.relocate source target, e.node)

/-- Stores nodes, one after the other. -/
def insertAll (s : MemoryStore) (nodes : List (Path × StoredNode)) : MemoryStore :=
  nodes.foldl (fun s (p, node) ↦ s.insert p node) s

/-- Removes what is at a path, if anything is, with all that is below it. -/
def clear (s : MemoryStore) (p : Path) : Update :=
  if s.kindOf? p = none then .ok s else s.rm p true

/-- Moves an entry and what is below it; what was at the target is lost. -/
def rename (s : MemoryStore) (source target : Path) : Update := do
  let moved ← s.takenAlong source target
  let s ← s.rm source true
  let s ← s.clear target
  return s.insertAll moved

/-- Copies the bytes of a file. -/
def copyFile (s : MemoryStore) (source target : Path) : Update := do
  s.write target (← s.read source)

/-- The text of a file, if it is one and is text. -/
def readToString (s : MemoryStore) (p : Path) : Option String :=
  match s.node? p with
  | some (.file bytes) => String.fromUTF8? bytes
  | _ => none

/-! ### As a backend -/

/-- A call that only reads. -/
def asking {α : Type} (f : MemoryStore → Except StorageError α) :
    Attempt (StateM MemoryStore) α :=
  fun s ↦ (f s, s)

/-- A call that changes the store. When it fails the store is as before. -/
def changing (f : MemoryStore → Update) : Attempt (StateM MemoryStore) Unit :=
  fun s ↦ match f s with
    | .ok s' => (.ok (), s')
    | .error e => (.error e, s)

/-- Moves an entry and what is below it, in steps each of which changes the store. -/
def renameInPlace (source target : Path) : Attempt (StateM MemoryStore) Unit := do
  let moved ← asking (·.takenAlong source target)
  changing (·.rm source true)
  changing (·.clear target)
  changing fun s ↦ .ok (s.insertAll moved)

/-- The calls on a store in memory. -/
def calls : Calls (StateM MemoryStore) where
  exists_ p := fun s ↦ ((s.kindOf? p).isSome, s)
  mkdir p recursive := changing (·.mkdir p recursive)
  write p bytes := changing (·.write p bytes)
  read p := asking (·.read p)
  stat p := asking (·.stat p)
  list p := asking (·.list p)
  rm p recursive := changing (·.rm p recursive)
  unlink p := changing (·.unlink p)
  rename := renameInPlace
  copyFile source target := changing (·.copyFile source target)

/-- A store in memory as a backend. -/
def backend : Backend (StateM MemoryStore) := calls.backend

end MemoryStore

end Scaffold
