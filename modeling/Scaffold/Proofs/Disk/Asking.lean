import Scaffold.Disk.Local
import Scaffold.Proofs.Disk.Mirror
import Scaffold.Proofs.Stateful
import Scaffold.Proofs.Store.Tree

/-!
# Asking a disk

A disk that mirrors a store answers what the store has stored, wherever it understands the path
(`MemoryStore.onDisk?`): whether something is there and of which type (`Mirrors.runFrom_isThere`,
`Mirrors.runFrom_isType`), the bytes of files (`Mirrors.toOption_read`) and the names in
directories. These the disk has in no order that a caller may rely on, but listings are sorted by
name, and so they are the same unless two entries of different kinds are listed under one name
(`Mirrors.runFrom_list`).

Calls that fail leave the disk as it is (`Disk.Fails`).
-/

namespace Scaffold

namespace Disk

variable {α β ε : Type} {d d' : Disk} {a : α}

/-! ### Runs on a disk -/

/-- The computation fails, and it leaves the disk as it is. -/
def Fails (d : Disk) (x : ExceptT ε (StateM Disk) α) : Prop := ∃ e, runFrom d x.run = (.error e, d)

namespace Fails

variable {x : ExceptT ε (StateM Disk) α}

theorem throw (d : Disk) (e : ε) : Fails d (throw e : ExceptT ε (StateM Disk) α) := ⟨e, rfl⟩

theorem bind (h : Fails d x) (f : α → ExceptT ε (StateM Disk) β) : Fails d (x >>= f) := by
  obtain ⟨e, he⟩ := h
  exact ⟨e, by rw [runFrom_run_bind, he]⟩

/-- What fails behind a computation that has left the disk as it is. -/
theorem behind {f : α → ExceptT ε (StateM Disk) β} (hx : runFrom d x.run = (.ok a, d))
    (hf : Fails d (f a)) : Fails d (x >>= f) := by
  obtain ⟨e, he⟩ := hf
  refine ⟨e, ?_⟩
  rw [runFrom_run_bind, hx]
  exact he

theorem blaming {call : OsCall (StateM Disk) α} (h : Fails d call) (p : Path) :
    Fails d (System.blaming p call) := by
  obtain ⟨e, he⟩ := h
  refine ⟨e.at_ p, ?_⟩
  rw [System.blaming, runFrom_run_bind, runFrom_run_lift, he]
  rfl

end Fails

theorem runFrom_blaming {call : OsCall (StateM Disk) α} (h : runFrom d call.run = (.ok a, d'))
    (p : Path) : runFrom d (System.blaming p call).run = (.ok a, d') := by
  rw [System.blaming, runFrom_run_bind, runFrom_run_lift, h]
  rfl

theorem runFrom_asking {f : Disk → Except OsError α} (h : (f d).toOption = some a) :
    runFrom d (asking f).run = (.ok a, d) := by
  show (f d, d) = _
  rcases hf : f d with e | b
  · rw [hf] at h
    cases h
  · rw [hf] at h
    rw [show b = a from Option.some.inj h]

theorem fails_asking {f : Disk → Except OsError α} (h : (f d).toOption = none) :
    Fails d (asking f) := by
  rcases hf : f d with e | b
  · exact ⟨e, show (f d, d) = _ by rw [hf]⟩
  · rw [hf] at h
    cases h

theorem runFrom_changing {f : Disk → Except OsError Disk} (h : f d = .ok d') :
    runFrom d (changing f).run = (.ok (), d') := by
  show changing f d = _
  rw [changing, h]

theorem runFrom_changing_of_error {f : Disk → Except OsError Disk} {e : OsError}
    (h : f d = .error e) : runFrom d (changing f).run = (.error e, d) := by
  show changing f d = _
  rw [changing, h]

theorem fails_changing {f : Disk → Except OsError Disk} {e : OsError} (h : f d = .error e) :
    Fails d (changing f) :=
  ⟨e, runFrom_changing_of_error h⟩

theorem runFrom_succeeds (f : Disk → Except OsError α) :
    runFrom d (System.succeeds (asking f)) = ((f d).toOption.isSome, d) := by
  have hrun : runFrom d (asking f).run = (f d, d) := rfl
  rw [System.succeeds, runFrom_bind, hrun]
  rcases f d with e | b <;> rfl

end Disk

/-- What a disk with the same tree has at the path. -/
def MemoryStore.onDisk? (s : MemoryStore) (p : Path) : Option StoredNode :=
  if s.Misspells p then none else s.node? p

namespace MemoryStore

variable {s : MemoryStore} {p : Path}

theorem onDisk?_eq_dir_iff (hroot : p.isRoot = false) :
    s.onDisk? p = some .dir ↔ ¬p.HasNul ∧ s.kindOf? p = some .directory := by
  have hkind := kindOf?_of_not_root (s := s) hroot
  rw [onDisk?]
  split
  · rename_i hmisspelled
    refine iff_of_false nofun ?_
    rintro ⟨hnul, hdir⟩
    rcases hmisspelled with hhas | ⟨-, hfile⟩
    · exact hnul hhas
    · rw [hdir] at hfile
      cases hfile
  · rename_i hspelled
    have hnul : ¬p.HasNul := fun hnul ↦ hspelled (.inl hnul)
    rw [hkind]
    rcases s.node? p with - | - | bytes <;> simp [hnul, StoredNode.kind]

/-- What is listed under one name is of one kind. -/
def ListsApart (s : MemoryStore) (p : Path) : Prop :=
  ∀ a ∈ s.contents p, ∀ b ∈ s.contents p, a.name.listed = b.name.listed → a.kind = b.kind

instance (s : MemoryStore) (p : Path) : Decidable (s.ListsApart p) :=
  inferInstanceAs (Decidable (∀ a ∈ s.contents p, ∀ b ∈ s.contents p,
    a.name.listed = b.name.listed → a.kind = b.kind))

/-- No entry is in a directory twice. -/
theorem nodup_contents (s : MemoryStore) (p : Path) : (s.contents p).Nodup :=
  (contents_sorted s p).imp fun {a b} hlt hsame ↦ by
    rw [hsame, Path.order_self] at hlt
    cases hlt

/-- **Entries in any order** are listed as those of the directory that they are in. -/
theorem sortByName_eq_listing {entries listing : List DirEntry} (hlist : s.list p = .ok listing)
    (hapart : s.ListsApart p) (hnodup : entries.Nodup)
    (hmem : ∀ e, e ∈ entries ↔ e ∈ s.contents p) :
    DirEntry.sortByName (entries.map DirEntry.listed) = listing := by
  rw [(list_eq_ok_iff.mp hlist).2]
  have hperm := (List.perm_ext_iff_of_nodup hnodup (s.nodup_contents p)).mpr hmem
  refine DirEntry.sortByName_eq_of_perm (hperm.map DirEntry.listed) fun x hx y hy hname ↦ ?_
  obtain ⟨a, ha, rfl⟩ := List.mem_map.mp hx
  obtain ⟨b, hb, rfl⟩ := List.mem_map.mp hy
  have hkind := hapart a ((hmem a).mp ha) b ((hmem b).mp hb) hname
  exact congrArg₂ DirEntry.mk hname hkind

end MemoryStore

namespace Disk

namespace Mirrors

variable {W p : Path} {loc : Location} {s : MemoryStore} {d : Disk} {init : List EntryName}
  {name : EntryName} (h : Mirrors W loc s d) (hp : W.Leads p init name)
include h hp

/-! ### What is at a path -/

theorem toOption_locate_onDisk (follow : Bool) :
    (d.locate p follow).toOption =
      (s.onDisk? p).map fun n ↦ (loc ++ init ++ [name], .ofStored n) := by
  rw [h.toOption_locate hp, MemoryStore.onDisk?]
  split <;> rfl

/-- What a call makes of what it finds at a path. -/
theorem toOption_locate_bind {α : Type} (follow : Bool)
    (f : Location × DiskNode → Except OsError α) : (d.locate p follow >>= f).toOption =
      (s.onDisk? p).bind fun n ↦ (f (loc ++ init ++ [name], .ofStored n)).toOption := by
  have hlocate := h.toOption_locate_onDisk hp follow
  rcases hfound : d.locate p follow with e | found
  all_goals rw [hfound] at hlocate
  · rw [Option.map_eq_none_iff.mp hlocate.symm]
    rfl
  · obtain ⟨n, hn, rfl⟩ := Option.map_eq_some_iff.mp hlocate.symm
    rw [hn]
    rfl

/-- **The status of a file** tells its kind and its size. -/
theorem toOption_status (follow : Bool) :
    (d.status p follow).toOption = (s.onDisk? p).map fun n ↦ statusOf (.ofStored n) := by
  rw [status, h.toOption_locate_bind hp]
  rcases s.onDisk? p with - | n <;> rfl

theorem runFrom_lstat (n : StoredNode) (hn : s.onDisk? p = some n) :
    runFrom d (system.lstat p).run = (.ok (statusOf (.ofStored n)), d) := by
  refine runFrom_asking (?_ : (d.status p false).toOption = _)
  rw [h.toOption_status hp, hn]
  rfl

theorem runFrom_isThere : runFrom d (system.isThere p) = ((s.onDisk? p).isSome, d) := by
  rw [System.isThere, show system.stat p = asking (·.status p true) from rfl, runFrom_succeeds,
    h.toOption_status hp, Option.isSome_map]

theorem runFrom_isType (type : FileType) : runFrom d (system.isType type p) =
    ((s.onDisk? p).any fun n ↦ (DiskNode.ofStored n).type == type, d) := by
  have hrun : runFrom d (system.stat p).run = (d.status p true, d) := rfl
  rw [System.isType, runFrom_bind, hrun]
  have hstatus := h.toOption_status hp true
  rcases hfound : d.status p true with e | found
  all_goals rw [hfound] at hstatus
  · rw [Option.map_eq_none_iff.mp hstatus.symm]
    rfl
  · obtain ⟨n, hn, rfl⟩ := Option.map_eq_some_iff.mp hstatus.symm
    rw [hn]
    rcases n with - | bytes <;> rfl

theorem runFrom_isDir : runFrom d (system.isDir p) =
    (decide (¬p.HasNul ∧ s.kindOf? p = some .directory), d) := by
  rw [System.isDir, h.runFrom_isType hp]
  refine congrArg (·, d) (Bool.eq_iff_iff.mpr ?_)
  rw [decide_eq_true_iff, ← MemoryStore.onDisk?_eq_dir_iff hp.isRoot_eq_false]
  rcases s.onDisk? p with - | - | bytes <;> simp [DiskNode.ofStored, DiskNode.type]

/-- A directory is refused. -/
theorem fails_refuseDir (hnul : ¬p.HasNul) (hdir : s.kindOf? p = some .directory) :
    Fails d (system.refuseDir p) := by
  refine ⟨.isADirectory p, ?_⟩
  rw [System.refuseDir, runFrom_run_bind, runFrom_run_lift, h.runFrom_isDir hp,
    decide_eq_true ⟨hnul, hdir⟩]
  rfl

theorem runFrom_refuseDir (hother : p.HasNul ∨ s.kindOf? p ≠ some .directory) :
    runFrom d (system.refuseDir p).run = (.ok (), d) := by
  have hnot : ¬(¬p.HasNul ∧ s.kindOf? p = some .directory) := by tauto
  rw [System.refuseDir, runFrom_run_bind, runFrom_run_lift, h.runFrom_isDir hp,
    decide_eq_false hnot]
  rfl

/-- **The bytes of a file** are those that are stored. -/
theorem toOption_read : (d.read p).toOption = (s.onDisk? p).bind fun n ↦ match n with
    | .file bytes => some bytes
    | .dir => none := by
  rw [read, h.toOption_locate_bind hp]
  rcases s.onDisk? p with - | - | bytes <;> rfl

/-! ### Listings -/

theorem node?_child (child : EntryName) : d.node? (loc ++ init ++ [name] ++ [child]) =
    (s.node? (p.child child)).map .ofStored := by
  have hchild : p.child child ≈ W.under (init ++ [name] ++ [child]) := by
    rw [Path.equiv_iff, Path.parts_child, hp.parts_around, Path.under_snoc, Path.parts_child,
      Path.under_snoc, Path.parts_child]
  rw [List.append_assoc, List.append_assoc, ← List.append_assoc init, h.same _ (by simp),
    s.node?_congr hchild]

theorem toOption_list : (d.list p).toOption =
    if s.onDisk? p = some .dir then some (d.children (loc ++ init ++ [name])) else none := by
  rw [list, h.toOption_locate_bind hp]
  rcases s.onDisk? p with - | - | bytes
  · rfl
  · simp [DiskNode.ofStored, h.unlocked]
    rfl
  · rfl

/-- The names in a directory, with the types that their nodes have. -/
theorem mem_children_iff (child : EntryName) (type : FileType) :
    (child, type) ∈ d.children (loc ++ init ++ [name]) ↔
      ∃ n, s.node? (p.child child) = some n ∧ (DiskNode.ofStored n).type = type := by
  rw [mem_children h.sorted, h.node?_child hp]
  simp

/-- The entries of a directory are those that are stored in it. -/
theorem mem_entriesIn_iff {entry : DirEntry} :
    entry ∈ d.entriesIn (loc ++ init ++ [name]) ↔ entry ∈ s.contents p := by
  rw [mem_entriesIn h.sorted, h.node?_child hp, MemoryStore.mem_contents_iff]
  rcases s.node? (p.child entry.name) with - | - | bytes <;>
    simp [DiskNode.ofStored, DiskNode.kind, DiskNode.type, StoredNode.kind, EntryKind.ofIsDirectory]

/-- **Sorted by name, what a disk lists is the listing of the store.** -/
theorem sortByName_entriesIn {listing : List DirEntry} (hlist : s.list p = .ok listing)
    (hapart : s.ListsApart p) :
    DirEntry.sortByName ((d.entriesIn (loc ++ init ++ [name])).map DirEntry.listed) = listing :=
  MemoryStore.sortByName_eq_listing hlist hapart (nodup_entriesIn h.sorted _).of_map fun _ ↦
    h.mem_entriesIn_iff hp

/-! ### Calls that only read -/

theorem runFrom_exists :
    runFrom d ((System.backend system).exists_ p) = ((s.onDisk? p).isSome, d) := by
  show runFrom d (System.succeeds (asking (·.status p false))) = _
  rw [runFrom_succeeds, h.toOption_status hp, Option.isSome_map]

theorem runFrom_read {bytes : ByteArray} (hfile : s.onDisk? p = some (.file bytes)) :
    runFrom d ((System.backend system).read p).run = (.ok bytes, d) := by
  have hother : p.HasNul ∨ s.kindOf? p ≠ some .directory := by
    rw [or_iff_not_imp_left]
    intro hnul hdir
    rw [(MemoryStore.onDisk?_eq_dir_iff hp.isRoot_eq_false).mpr ⟨hnul, hdir⟩] at hfile
    cases hfile
  have hread : (d.read p).toOption = some bytes := by
    rw [h.toOption_read hp, hfile]
    rfl
  show runFrom d (system.refuseDir p >>= fun _ ↦ System.blaming p (system.read p)).run = _
  rw [runFrom_run_bind, h.runFrom_refuseDir hp hother]
  exact runFrom_blaming (runFrom_asking hread) p

/-- Only files can be read. -/
theorem fails_read (hother : ∀ bytes, s.onDisk? p ≠ some (.file bytes)) :
    Fails d ((System.backend system).read p) := by
  show Fails d (system.refuseDir p >>= fun _ ↦ System.blaming p (system.read p))
  by_cases hdir : ¬p.HasNul ∧ s.kindOf? p = some .directory
  · exact (h.fails_refuseDir hp hdir.1 hdir.2).bind _
  · have hread : (d.read p).toOption = none := by
      rw [h.toOption_read hp]
      rcases hn : s.onDisk? p with - | - | bytes
      · rfl
      · rfl
      · exact absurd hn (hother bytes)
    exact .behind (h.runFrom_refuseDir hp (by tauto)) ((fails_asking hread).blaming p)

theorem runFrom_stat {n : StoredNode} (hn : s.onDisk? p = some n) :
    runFrom d ((System.backend system).stat p).run = (.ok n.metadata, d) := by
  have hstatus : (d.status p true).toOption = some (statusOf (.ofStored n)) := by
    rw [h.toOption_status hp, hn]
    rfl
  show runFrom d (System.blaming p (asking (·.status p true)) >>= _).run = _
  rw [runFrom_run_bind, runFrom_blaming (runFrom_asking hstatus)]
  rcases n with - | bytes <;> rfl

theorem fails_stat (hnone : s.onDisk? p = none) : Fails d ((System.backend system).stat p) := by
  have hstatus : (d.status p true).toOption = none := by
    rw [h.toOption_status hp, hnone]
    rfl
  exact Fails.bind ((fails_asking hstatus).blaming p) _

/-- **A directory is listed** as the store lists it. -/
theorem runFrom_list {listing : List DirEntry} (hnul : ¬p.HasNul)
    (hlist : s.list p = .ok listing) (hapart : s.ListsApart p) :
    runFrom d ((System.backend system).list p).run = (.ok listing, d) := by
  have hdir : s.onDisk? p = some .dir := by
    refine (MemoryStore.onDisk?_eq_dir_iff hp.isRoot_eq_false).mpr ⟨hnul, ?_⟩
    unfold MemoryStore.list at hlist
    split at hlist
    · assumption
    · cases hlist
    · cases hlist
  have hfound : (d.list p).toOption = some (d.children (loc ++ init ++ [name])) := by
    rw [h.toOption_list hp, if_pos hdir]
  show runFrom d (system.storeList p).run = _
  rw [System.storeList, runFrom_run_bind, runFrom_run_lift, h.runFrom_isType hp, hdir]
  show runFrom d (System.blaming p (asking (·.list p)) >>= _).run = _
  rw [runFrom_run_bind, runFrom_blaming (runFrom_asking hfound),
    ← h.sortByName_entriesIn hp hlist hapart]
  rfl

theorem fails_list (hother : s.onDisk? p ≠ some .dir) :
    Fails d ((System.backend system).list p) := by
  have hfound : (d.list p).toOption = none := by rw [h.toOption_list hp, if_neg hother]
  have hisFile := h.runFrom_isType hp .file
  show Fails d (system.storeList p)
  rcases hfile : (s.onDisk? p).any fun n ↦ (DiskNode.ofStored n).type == .file
  all_goals rw [hfile] at hisFile
  · refine .behind (a := false) ?_ (((fails_asking hfound).blaming p).bind _)
    rw [runFrom_run_lift, hisFile]
  · refine ⟨.notADirectory p, ?_⟩
    rw [System.storeList, runFrom_run_bind, runFrom_run_lift, hisFile]
    rfl

end Mirrors

end Disk

end Scaffold
