import Scaffold.Proofs.Disk.Entries
import Scaffold.Proofs.Disk.Walking
import Scaffold.Proofs.Store.Closed

/-!
# A disk that mirrors a store

A disk mirrors a store below a directory `W` when it has, below the location to which `W` leads,
what the store has below `W`, and no links (`Mirrors`). So do two directories with nothing in them
(`mirrors_of_bare`). The store then tells what a walk comes to: the directory of a path is entered
when it is a directory of the store (`Mirrors.enter_of_directory`), and a path leads to what is
stored at it (`Mirrors.toOption_locate`), unless it is misspelled: with a NUL in it, or with a slash
behind the name of a file (`MemoryStore.Misspells`).

What is changed at the same place on both sides leaves them mirrored (`Mirrors.insert`,
`Mirrors.erase`).
-/

namespace Scaffold

/-! ### Paths below a directory -/

/-- The name that a part is. -/
def Part.name? : Part → Option EntryName
  | .entry name => some name
  | _ => none

theorem Part.name?_eq_some_iff {part : Part} {name : EntryName} :
    part.name? = some name ↔ part = .entry name := by
  cases part <;> simp [name?]

namespace Path

/-- The names that lead to a path from one above it. -/
def names? (p base : Path) : Option (List EntryName) :=
  if p.startsWith base then (p.parts.drop base.parts.length).mapM Part.name? else none

theorem mapM_name?_eq_some_iff {parts : List Part} {names : List EntryName} :
    parts.mapM Part.name? = some names ↔ parts = names.map .entry := by
  induction parts generalizing names with
  | nil => cases names <;> simp
  | cons part parts ih =>
    cases names <;> simp [Option.bind_eq_some_iff, Part.name?_eq_some_iff, ih]

theorem names?_eq_some_iff {p base : Path} {names : List EntryName} :
    p.names? base = some names ↔ p ≈ base.under names := by
  rw [names?, equiv_iff, parts_under]
  constructor
  · intro h
    split at h
    · obtain ⟨rest, hrest⟩ := startsWith_iff.mp ‹_›
      rw [← hrest, List.drop_left, mapM_name?_eq_some_iff] at h
      rw [← hrest, h]
    · cases h
  · intro h
    rw [if_pos (startsWith_iff.mpr (h ▸ List.prefix_append _ _)), h, List.drop_left]
    exact mapM_name?_eq_some_iff.mpr rfl

end Path

/-- The path `p` leads from the directory `W` along `init` to `name`. No dot is spelled behind it,
and neither it nor its names are longer than a disk allows. -/
structure Path.Leads (W p : Path) (init : List EntryName) (name : EntryName) : Prop where
  equiv : p ≈ (W.under init).child name
  undotted : '.' ∉ p.tail.toList
  fits : p.size < Disk.maxPathBytes
  short : ∀ n ∈ init ++ [name], n.size ≤ Disk.maxNameBytes

namespace Path.Leads

variable {W p : Path} {init : List EntryName} {name : EntryName} (hp : W.Leads p init name)
include hp

theorem equiv_under : p ≈ W.under (init ++ [name]) := by
  rw [Path.under_snoc]
  exact hp.equiv

theorem parts_around : p.parts = (W.under init).parts ++ [.entry name] := by
  rw [Path.equiv_iff.mp hp.equiv, Path.parts_child]

theorem parts_eq : p.parts = W.parts ++ init.map .entry ++ [.entry name] := by
  rw [hp.parts_around, Path.parts_under]

theorem parts_ne_nil : p.parts ≠ [] := by simp [hp.parts_around]

theorem isEmpty_eq_false : p.isEmpty = false := Path.isEmpty_eq_false hp.parts_ne_nil

theorem isRoot_eq_false : p.isRoot = false := by
  have hchild := Path.isRoot_child (W.under init) name
  rwa [Path.isRoot, ← Path.equiv_iff.mp hp.equiv] at hchild

theorem kindOf?_eq (s : MemoryStore) : s.kindOf? p = (s.node? p).map StoredNode.kind :=
  MemoryStore.kindOf?_of_not_root hp.isRoot_eq_false

theorem around_short {n : EntryName} (hn : n ∈ init) : n.size ≤ Disk.maxNameBytes :=
  hp.short n (List.mem_append_left _ hn)

theorem name_short : name.size ≤ Disk.maxNameBytes := hp.short name (by simp)

/-- Below the directory, a location is that of the path exactly when its names lead there. -/
theorem location_eq_iff {loc : Location} {names : List EntryName} :
    loc ++ names = loc ++ init ++ [name] ↔ p ≈ W.under names := by
  rw [List.append_assoc, List.append_cancel_left_eq]
  constructor
  · rintro rfl
    exact hp.equiv_under
  · intro hpn
    exact ((Path.under_equiv_iff W _ _).mp (Eq.trans (Eq.symm hp.equiv_under) hpn)).symm

end Path.Leads

namespace MemoryStore

variable {s : MemoryStore} {p q around : Path} {name : EntryName}

theorem exists_bytes_of_file (h : s.kindOf? p = some .file) :
    ∃ bytes, s.node? p = some (.file bytes) := by
  obtain ⟨n, hn⟩ := s.exists_node?_of_file h
  rcases n with - | bytes
  · rw [kindOf?_of_node? (s.isRoot_eq_false (by simp [h])) hn] at h
    cases h
  · exact ⟨bytes, hn⟩

/-- Something can be stored in a directory, and nowhere else. -/
theorem requireParent_iff (hp : p.parts = around.parts ++ [.entry name]) :
    s.requireParent p = .ok () ↔ s.kindOf? around = some .directory := by
  obtain ⟨parent, hparent, hsame⟩ := Path.parent?_of_parts hp
  rw [requireParent, hparent, ← s.kindOf?_congr hsame]
  dsimp only
  split
  · exact iff_of_true rfl ‹_›
  · simp_all
  · simp_all

/-! ### What bars a path -/

/-- A file is at the path or above it. -/
def IsBarred (s : MemoryStore) (p : Path) : Prop :=
  ∃ q : Path, q.parts <+: p.parts ∧ q.parts ≠ [] ∧ s.kindOf? q = some .file

theorem isBarred_child_iff (s : MemoryStore) (p : Path) (name : EntryName) :
    s.IsBarred (p.child name) ↔ s.IsBarred p ∨ s.kindOf? (p.child name) = some .file := by
  constructor
  · rintro ⟨q, hq, hne, hfile⟩
    rw [Path.parts_child, List.prefix_concat_iff, ← Path.parts_child] at hq
    rcases hq with hsame | hq
    · exact .inr (s.kindOf?_congr (Path.equiv_iff.mpr hsame) ▸ hfile)
    · exact .inl ⟨q, hq, hne, hfile⟩
  · rintro (⟨q, hq, hne, hfile⟩ | hfile)
    · exact ⟨q, hq.trans (by simp), hne, hfile⟩
    · exact ⟨p.child name, List.prefix_rfl, by simp, hfile⟩

/-- What is no directory and has no file in the way is not there. -/
theorem kindOf?_eq_none_of_not_isBarred (hfree : ¬s.IsBarred p) (hne : p.parts ≠ [])
    (hdir : s.kindOf? p ≠ some .directory) : s.kindOf? p = none := by
  rcases hkind : s.kindOf? p with - | - | -
  · rfl
  · exact absurd ⟨p, List.prefix_rfl, hne, hkind⟩ hfree
  · exact absurd hkind hdir

namespace Closed

variable (h : s.Closed)
include h

theorem not_isBarred (hp : s.kindOf? p = some .directory) : ¬s.IsBarred p := by
  rintro ⟨q, hq, hne, hfile⟩
  rw [h.directory_above hp hq hne] at hfile
  cases hfile

end Closed

/-- The disk takes the path for that of a file and refuses it. -/
def Misspells (s : MemoryStore) (p : Path) : Prop :=
  p.HasNul ∨ p.tail ≠ "" ∧ s.kindOf? p = some .file

instance (s : MemoryStore) (p : Path) : Decidable (s.Misspells p) :=
  inferInstanceAs (Decidable (p.HasNul ∨ p.tail ≠ "" ∧ s.kindOf? p = some .file))

theorem not_hasNul_of_spelled (h : ¬s.Misspells p) : ¬p.HasNul := fun hnul ↦ h (.inl hnul)

theorem tail_eq_empty_of_spelled (h : ¬s.Misspells p) (hfile : s.kindOf? p = some .file) :
    p.tail = "" := by
  by_contra htail
  exact h (.inr ⟨htail, hfile⟩)

end MemoryStore

/-- What is stored in memory, on a disk. -/
def DiskNode.ofStored : StoredNode → DiskNode
  | .dir => .dir
  | .file bytes => .file bytes

namespace Disk

/-- The path leads to a directory at the location, whatever is changed below that. -/
def Reaches (d : Disk) (W : Path) (loc : Location) : Prop :=
  ∀ d' : Disk, d'.current = d.current → (∀ l, (loc <+: l → l = loc) → d'.node? l = d.node? l) →
    d'.walkHops true W.parts = .ok (.found loc .dir)

/-- A path of names leads where all of them are directories. -/
theorem reaches_of_dirs {d : Disk} {W : Path} {names : List EntryName}
    (hW : W.parts = .root :: names.map .entry)
    (hshort : ∀ n ∈ names, n.size ≤ maxNameBytes)
    (hdirs : ∀ l, l <+: names → d.node? l = some .dir) : d.Reaches W names := by
  intro d' hcurrent hview
  rw [walkHops, hW, walk, walk_dirs hshort]
  · rfl
  · intro l hl
    rw [List.nil_append, hview l fun hbelow ↦ hl.eq_of_length_le hbelow.length_le, hdirs l hl]

theorem ne_concat_of_not_below {loc l init : Location} {name : EntryName}
    (hl : loc <+: l → l = loc) : l ≠ loc ++ init ++ [name] := by
  rintro rfl
  have := hl (by simp)
  simp at this

/-- The disk has below the location what the store has below the directory `W`, and no links. -/
def SameTree (W : Path) (loc : Location) (s : MemoryStore) (d : Disk) : Prop :=
  ∀ names ≠ [], d.node? (loc ++ names) = (s.node? (W.under names)).map DiskNode.ofStored

/-- The store is a tree with the directory `W` in it, the disk has the same tree at the location to
which `W` leads there, no directory of the disk is locked, and no name in it holds a NUL. -/
structure Mirrors (W : Path) (loc : Location) (s : MemoryStore) (d : Disk) : Prop where
  isAbsolute : W.isAbsolute = true
  directory : s.kindOf? W = some .directory
  closed : s.Closed
  named : ∀ p n, s.node? p = some n → p.startsWith W = true → ∃ names, p ≈ W.under names
  sorted : d.Sorted
  unlocked : d.locked = []
  reaches : d.Reaches W loc
  nulFree : ∀ names, d.node? (loc ++ names) ≠ none → ∀ name ∈ names, '\x00' ∉ name.text.toList
  same : SameTree W loc s d

/-- A directory with nothing in it is mirrored by one with nothing in it. -/
theorem mirrors_of_bare {W : Path} {loc : Location} {s : MemoryStore} {d : Disk}
    (habsolute : W.isAbsolute = true) (hdir : s.kindOf? W = some .directory) (hclosed : s.Closed)
    (hbare : s.BareBelow W) (hsorted : d.Sorted) (hunlocked : d.locked = [])
    (hreaches : d.Reaches W loc)
    (hempty : (d.below loc).isEmpty = true) : Mirrors W loc s d := by
  rw [MemoryStore.bareBelow_iff] at hbare
  rw [below_isEmpty_iff] at hempty
  refine ⟨habsolute, hdir, hclosed, fun q n hq hstart ↦ ⟨[], ?_⟩, hsorted, hunlocked,
    hreaches, ?_, ?_⟩
  · by_contra hne
    rw [hbare q hstart hne] at hq
    cases hq
  · intro names hthere name hname
    rw [hempty names (List.ne_nil_of_mem hname)] at hthere
    exact absurd rfl hthere
  · intro names hne
    rw [hempty names hne, hbare]
    · rfl
    · rw [Path.startsWith_iff, Path.parts_under]
      exact List.prefix_append _ _
    · rw [Path.equiv_iff, Path.parts_under]
      simpa using hne

namespace Mirrors

variable {W p : Path} {loc : Location} {s s' : MemoryStore} {d d' : Disk} {n : StoredNode}
  {names init : List EntryName} {name : EntryName} (h : Mirrors W loc s d)
include h

/-! ### The view of a path -/

theorem parts_under_ne_nil (names : List EntryName) : (W.under names).parts ≠ [] := by
  rw [Path.parts_under]
  exact List.append_ne_nil_of_left_ne_nil (Path.parts_ne_nil_of_absolute h.isAbsolute) _

theorem node?_eq (hp : W.Leads p init name) :
    d.node? (loc ++ init ++ [name]) = (s.node? p).map .ofStored := by
  rw [List.append_assoc, h.same _ (by simp), s.node?_congr hp.equiv_under]

/-- The directory around what is stored is a directory. -/
theorem around_of_node? (hp : W.Leads p init name) (hthere : s.node? p ≠ none) :
    s.kindOf? (W.under init) = some .directory := by
  obtain ⟨n, hn⟩ := Option.ne_none_iff_exists'.mp hthere
  refine h.closed.above hn ?_ ?_ (h.parts_under_ne_nil init)
  · rw [hp.parts_around]
    exact List.prefix_append _ _
  · simp [hp.parts_around]

/-! ### Walking -/

/-- **A directory of the store can be entered.** -/
theorem enter_of_directory (hdir : s.kindOf? (W.under names) = some .directory)
    (hshort : ∀ n ∈ names, n.size ≤ maxNameBytes) :
    d.enter (W.parts ++ names.map .entry) = .ok (loc ++ names) := by
  induction names using List.reverseRecOn with
  | nil =>
    simp only [List.map_nil, List.append_nil]
    exact enter_of_walkHops (h.reaches d rfl fun _ _ ↦ rfl)
  | append_singleton names name ih =>
    have habove : s.kindOf? (W.under names) = some .directory := by
      refine h.closed.directory_above hdir ?_ (h.parts_under_ne_nil names)
      rw [Path.under_snoc, Path.parts_child]
      exact List.prefix_append _ _
    have hfirst := ih habove fun n hn ↦ hshort n (List.mem_append_left _ hn)
    have hnode : d.node? (loc ++ names ++ [name]) = some .dir := by
      have hroot := Path.isRoot_under_snoc W names name
      rw [List.append_assoc, h.same _ (by simp), MemoryStore.node?_of_directory hroot hdir]
      rfl
    rw [List.map_append, ← List.append_assoc, ← List.append_assoc]
    exact enter_dir (hshort name (by simp)) hfirst hnode

/-- **What is no directory of the store cannot be entered**; why not depends on whether a file is
in the way. -/
theorem enter_of_not_directory (hdir : s.kindOf? (W.under names) ≠ some .directory)
    (hshort : ∀ n ∈ names, n.size ≤ maxNameBytes) :
    (s.IsBarred (W.under names) ∧
        d.enter (W.parts ++ names.map .entry) = .error (.errno .notDirectory)) ∨
      ¬s.IsBarred (W.under names) ∧
        d.enter (W.parts ++ names.map .entry) = .error (.errno .noEntry) := by
  induction names using List.reverseRecOn with
  | nil => exact absurd h.directory hdir
  | append_singleton names name ih =>
    have hshorter : ∀ n ∈ names, n.size ≤ maxNameBytes :=
      fun n hn ↦ hshort n (List.mem_append_left _ hn)
    have hroot := Path.isRoot_under_snoc W names name
    have hnode := h.same (names ++ [name]) (by simp)
    have hkind := MemoryStore.kindOf?_of_not_root (s := s) hroot
    rw [Path.under_snoc, MemoryStore.isBarred_child_iff, ← Path.under_snoc, List.map_append,
      ← List.append_assoc]
    by_cases habove : s.kindOf? (W.under names) = some .directory
    · have hfirst := h.enter_of_directory habove hshorter
      have hfree := h.closed.not_isBarred habove
      have hname := hshort name (by simp)
      rw [← List.append_assoc] at hnode
      rcases hstored : s.node? (W.under (names ++ [name])) with - | - | bytes
      all_goals rw [hstored] at hnode hkind
      · exact .inr ⟨by simp [hfree, hkind], enter_missing hname hfirst hnode⟩
      · exact absurd hkind hdir
      · exact .inl ⟨.inr hkind, enter_file hname hfirst hnode⟩
    · rcases ih habove hshorter with ⟨hbarred, herror⟩ | ⟨hfree, herror⟩
      · exact .inl ⟨.inl hbarred, enter_of_error herror _⟩
      · refine .inr ⟨?_, enter_of_error herror _⟩
        -- nothing is above, so nothing is here
        have hnone : s.kindOf? (W.under names) = none :=
          MemoryStore.kindOf?_eq_none_of_not_isBarred hfree (h.parts_under_ne_nil names) habove
        have hbelow : s.node? (W.under (names ++ [name])) = none := by
          refine h.closed.node?_eq_none_below hnone (h.parts_under_ne_nil names) ?_
          rw [Path.under_snoc, Path.parts_child]
          exact List.prefix_append _ _
        rw [hbelow] at hkind
        simp [hfree, hkind]

/-- **A path leads to what is stored at it**, unless it is misspelled. -/
theorem toOption_locate (hp : W.Leads p init name) (follow : Bool) :
    (d.locate p follow).toOption =
      if s.Misspells p then none
      else (s.node? p).map fun n ↦ (loc ++ init ++ [name], .ofStored n) := by
  by_cases hnul : p.HasNul
  · rw [if_pos (.inl hnul), locate, checkPath_of_hasNul hnul]
    rfl
  have hkind := hp.kindOf?_eq s
  have hspelled : s.kindOf? p ≠ some .file → ¬s.Misspells p := by
    rintro hother (h | h)
    · exact hnul h
    · exact hother h.2
  rw [locate, checkPath_eq_ok hnul hp.parts_ne_nil hp.fits, hops_eq hp.parts_eq]
  show ((d.walkHops follow _ >>= _ : Except OsError _)).toOption = _
  by_cases hdir : s.kindOf? (W.under init) = some .directory
  · obtain ⟨left, hleft⟩ :=
      walkHops_of_enter (List.cons_ne_nil (.entry name) (if p.tail.isEmpty then [] else [.here]))
        (h.enter_of_directory hdir fun _ ↦ hp.around_short)
    have hnode := h.node?_eq hp
    rw [hleft]
    rcases hstored : s.node? p with - | - | bytes
    all_goals rw [hstored] at hnode hkind
    · rw [walk_missing hp.name_short hnode, if_neg (hspelled (by simp [hkind]))]
      rcases p.tail.isEmpty <;> rfl
    · rw [walk_dir hp.name_short hnode, if_neg (hspelled (by simp [hkind, StoredNode.kind]))]
      rcases p.tail.isEmpty <;> simp only [Bool.false_eq_true, if_true, if_false, walk] <;> rfl
    · rw [walk_file hp.name_short hnode]
      by_cases htail : p.tail = ""
      · have hspelled : ¬s.Misspells p := by simp [MemoryStore.Misspells, hnul, htail]
        rw [if_neg hspelled, htail]
        rfl
      · have hempty : p.tail.isEmpty = false := by simpa using htail
        have hmisspelled : s.Misspells p := .inr ⟨htail, hkind⟩
        rw [hempty, if_pos hmisspelled]
        rfl
  · have hnone : s.node? p = none := by
      by_contra hthere
      exact hdir (h.around_of_node? hp hthere)
    have hother : s.kindOf? p ≠ some .file := by simp [hkind, hnone]
    rw [if_neg (hspelled hother), hnone]
    rcases h.enter_of_not_directory hdir fun _ ↦ hp.around_short with ⟨-, he⟩ | ⟨-, he⟩ <;>
    · rw [walkHops_of_enter_error (by simp) he]
      rfl

/-- The last hop of a path in a directory. -/
theorem lastHop_of_directory (hp : W.Leads p init name) (hnul : ¬p.HasNul)
    (hdir : s.kindOf? (W.under init) = some .directory) :
    d.lastHop p = .ok ⟨loc ++ init, .entry name, !p.tail.isEmpty⟩ := by
  rw [lastHop_eq hp.parts_eq hp.undotted, checkPath_eq_ok hnul hp.parts_ne_nil hp.fits,
    h.enter_of_directory hdir fun _ ↦ hp.around_short]
  rfl

/-- Without the directory there is no last hop. -/
theorem lastHop_of_not_directory (hp : W.Leads p init name) (hnul : ¬p.HasNul)
    (hdir : s.kindOf? (W.under init) ≠ some .directory) :
    (s.IsBarred (W.under init) ∧ d.lastHop p = .error (.errno .notDirectory)) ∨
      ¬s.IsBarred (W.under init) ∧ d.lastHop p = .error (.errno .noEntry) := by
  rw [lastHop_eq hp.parts_eq hp.undotted, checkPath_eq_ok hnul hp.parts_ne_nil hp.fits]
  refine (h.enter_of_not_directory hdir fun _ ↦ hp.around_short).imp ?_ ?_
  all_goals
    rintro ⟨hbarred, he⟩
    refine ⟨hbarred, ?_⟩
    rw [he]
    rfl

/-! ### Changes at one path -/

theorem congr (hview : ∀ q, s'.node? q = s.node? q) : Mirrors W loc s' d where
  isAbsolute := h.isAbsolute
  directory := MemoryStore.kindOf?_directory_of (hview W ▸ id) h.directory
  closed :=
    { above := fun {p q n} hp hq hsame hne ↦ MemoryStore.kindOf?_directory_of (hview q ▸ id)
        (h.closed.above (hview p ▸ hp) hq hsame hne)
      not_root := fun {p n} hp ↦ h.closed.not_root (hview p ▸ hp) }
  named p n hp := h.named p n (hview p ▸ hp)
  sorted := h.sorted
  unlocked := h.unlocked
  reaches := h.reaches
  nulFree := h.nulFree
  same names hne := by rw [h.same names hne, hview]

/-- **Storing a node** at the same place on both sides. -/
theorem insert (hp : W.Leads p init name) (hnul : ¬p.HasNul)
    (hdir : s.kindOf? (W.under init) = some .directory)
    (hkind : s.kindOf? p = some .directory → n = .dir) :
    Mirrors W loc (s.insert p n) (d.insert (loc ++ init ++ [name]) (.ofStored n)) := by
  have hne : loc ++ init ++ [name] ≠ [] := by simp
  have hparent : s.requireParent p = .ok () :=
    (MemoryStore.requireParent_iff hp.parts_around).mpr hdir
  have hroot : p.parts ≠ [.root] := by
    rw [Ne, ← Path.isRoot_iff, hp.isRoot_eq_false]
    simp
  constructor
  · exact h.isAbsolute
  · refine MemoryStore.kindOf?_directory_of (fun hW ↦ ?_) h.directory
    rw [MemoryStore.node?_insert]
    split
    · rename_i hpW
      rw [hkind ((s.kindOf?_congr hpW).trans h.directory)]
    · exact hW
  · exact h.closed.insert hparent hkind hroot
  · intro q m hq hstart
    rw [MemoryStore.node?_insert] at hq
    split at hq
    · rename_i hpq
      exact ⟨init ++ [name], Eq.trans (Eq.symm hpq) hp.equiv_under⟩
    · exact h.named q m hq hstart
  · exact h.sorted.insert _ _
  · exact h.unlocked
  · intro d' hcurrent hview
    refine h.reaches d' hcurrent fun l hl ↦ ?_
    rw [hview l hl, node?_insert d hne, if_neg (ne_concat_of_not_below hl)]
  · intro names hthere x hx
    rw [node?_insert d hne] at hthere
    split at hthere
    · rename_i hsame
      have hparts : p.parts = (W.under names).parts :=
        Path.equiv_iff.mp ((hp.location_eq_iff).mp hsame)
      have hentry : .entry x ∈ p.parts := by simp [hparts, hx]
      exact fun hc ↦ hnul (Path.mem_text_of_mem_parts hentry hc)
    · exact h.nulFree names hthere x hx
  · intro names hnames
    rw [node?_insert d hne, MemoryStore.node?_insert, h.same names hnames]
    simp only [hp.location_eq_iff]
    split <;> rfl

/-- **Removing a node** with nothing below it at the same place on both sides. -/
theorem erase (hp : W.Leads p init name) (hbare : s.BareBelow p) :
    Mirrors W loc (s.erase p) (d.erase (loc ++ init ++ [name])) := by
  have hne : loc ++ init ++ [name] ≠ [] := by simp
  have hkeeps : ∀ {q : Path} {m : StoredNode}, (s.erase p).node? q = some m →
      s.node? q = some m := by
    intro q m hq
    rw [MemoryStore.node?_erase] at hq
    split at hq
    · cases hq
    · exact hq
  constructor
  · exact h.isAbsolute
  · refine MemoryStore.kindOf?_directory_of (fun hW ↦ ?_) h.directory
    rw [MemoryStore.node?_erase, if_neg, hW]
    intro hpW
    have hlength := congrArg List.length (Path.equiv_iff.mp hpW)
    simp [hp.parts_eq] at hlength
  · refine h.closed.of_removed (s.node?_erase p) fun q x hpq hqne hq ↦ ?_
    rw [← Path.equiv_iff.mp hpq] at hq
    by_cases hsame : p ≈ x
    · exact .inl hsame
    · exact .inr (MemoryStore.bareBelow_iff.mp hbare x (Path.startsWith_iff.mpr hq)
        fun hxp ↦ hsame (Eq.symm hxp))
  · exact fun q m hq ↦ h.named q m (hkeeps hq)
  · exact h.sorted.erase _
  · rw [Disk.erase, h.unlocked]
    rfl
  · intro d' hcurrent hview
    refine h.reaches d' hcurrent fun l hl ↦ ?_
    rw [hview l hl, node?_erase d hne, if_neg (ne_concat_of_not_below hl)]
  · intro names hthere
    refine h.nulFree names fun hnone ↦ hthere ?_
    rw [node?_erase d hne, hnone, ite_self]
  · intro names hnames
    rw [node?_erase d hne, MemoryStore.node?_erase, h.same names hnames]
    simp only [hp.location_eq_iff]
    split <;> rfl

end Mirrors

end Disk

end Scaffold
