import Scaffold.Proofs.Disk.Making

/-!
# Removing things from a disk

What is removed from a store can be removed in the same way from a disk that mirrors it, and then
the disk mirrors the store again.

The disk removes only what has nothing in it, so a directory is removed with what is in it by
removing its entries first, one after the other (`Mirrors.follows_children`), and those that are
directories in the same way. The store removes them all at once; what is seen in the end is the
same (`Mirrors.follows_removeTreeWithin`). The disk walks no deeper than any path is long.
-/

namespace Scaffold

namespace MemoryStore

variable {s s' : MemoryStore} {p q : Path}

theorem descendants_isEmpty_iff : (s.descendants p).isEmpty = true ↔ s.BareBelow p := by
  rw [List.isEmpty_iff, List.eq_nil_iff_forall_not_mem]
  simp only [mem_descendants, not_and, not_not]
  rfl

/-- What the store removes on its own is a file, or a directory with nothing in it. -/
theorem rm_false_eq_ok_iff : s.rm p false = .ok s' ↔
    (s.kindOf? p = some .file ∨ s.kindOf? p = some .directory ∧ s.BareBelow p) ∧
      s.erase p = s' := by
  rw [← descendants_isEmpty_iff]
  unfold rm
  rcases s.kindOf? p with _ | _ | _
  · simp
  · simp
  · rcases hbelow : (s.descendants p) with _ | ⟨e, below⟩ <;> simp

theorem unlink_eq_ok_iff : s.unlink p = .ok s' ↔ s.kindOf? p = some .file ∧ s.erase p = s' := by
  unfold unlink
  rcases s.kindOf? p with _ | _ | _ <;> simp

/-- What is at and below the path can be reached within the limits of a disk. -/
def FitsBelow (s : MemoryStore) (p : Path) : Prop :=
  ∀ names, s.node? (p.under names) ≠ none →
    (p.under names).size < Disk.maxPathBytes ∧
      ∀ n ∈ names, n.size ≤ Disk.maxNameBytes

theorem fitsBelow_iff : s.FitsBelow p ↔ ∀ e ∈ s.entries, ∀ names ∈ e.path.names? p,
    (p.under names).size < Disk.maxPathBytes ∧
      ∀ n ∈ names, n.size ≤ Disk.maxNameBytes := by
  constructor
  · intro h e he names hnames
    refine h names fun hnone ↦ ?_
    rw [node?_eq_some_iff.mpr ⟨e, he, Path.names?_eq_some_iff.mp hnames, rfl⟩] at hnone
    cases hnone
  · intro h names hthere
    obtain ⟨n, hn⟩ := Option.ne_none_iff_exists'.mp hthere
    obtain ⟨e, he, hsame, -⟩ := node?_eq_some_iff.mp hn
    exact h e he names (Path.names?_eq_some_iff.mpr hsame)

instance (s : MemoryStore) (p : Path) : Decidable (s.FitsBelow p) :=
  decidable_of_iff _ fitsBelow_iff.symm

/-- All that is at and below the path is in fewer than so many directories below it. -/
def Shallow (s : MemoryStore) (p : Path) (depth : Nat) : Prop :=
  ∀ names, s.node? (p.under names) ≠ none → names.length < depth

theorem FitsBelow.shallow (h : s.FitsBelow p) : s.Shallow p System.maxDepth := by
  intro names hthere
  have hsize := (h names hthere).1
  have hlength := (p.under names).length_parts_le
  rw [Path.parts_under, List.length_append, List.length_map] at hlength
  show names.length < Disk.maxPathBytes
  omega

section Fewer

variable {t : MemoryStore} (hfewer : ∀ q, s.node? q = none → t.node? q = none)
include hfewer

theorem FitsBelow.of_fewer (h : s.FitsBelow p) : t.FitsBelow p :=
  fun names hthere ↦ h names fun hnone ↦ hthere (hfewer _ hnone)

theorem Shallow.of_fewer {depth : Nat} (h : s.Shallow p depth) : t.Shallow p depth :=
  fun names hthere ↦ h names fun hnone ↦ hthere (hfewer _ hnone)

end Fewer

theorem FitsBelow.child (h : s.FitsBelow p) (child : EntryName) : s.FitsBelow (p.child child) :=
  fun names hthere ↦ ⟨(h (child :: names) hthere).1,
    fun n hn ↦ (h (child :: names) hthere).2 n (List.mem_cons_of_mem _ hn)⟩

theorem Shallow.child {depth : Nat} (h : s.Shallow p (depth + 1)) (child : EntryName) :
    s.Shallow (p.child child) depth :=
  fun names hthere ↦ Nat.lt_of_succ_lt_succ (h (child :: names) hthere)

end MemoryStore

namespace Disk

namespace Mirrors

variable {W p : Path} {loc : Location} {s s' : MemoryStore} {d : Disk} {init : List EntryName}
  {name : EntryName}

section Primitive

variable (h : Mirrors W loc s d) (hp : W.Leads p init name)
include h hp

/-- What is below a path is reached from it along names. -/
theorem exists_under {q : Path} {n : StoredNode} (hq : s.node? q = some n)
    (hstart : q.startsWith p = true) (hne : ¬q ≈ p) :
    ∃ child rest, q ≈ p.under (child :: rest) := by
  have hW : q.startsWith W = true := by
    rw [Path.startsWith_iff]
    refine List.IsPrefix.trans ?_ (Path.startsWith_iff.mp hstart)
    rw [hp.parts_eq, List.append_assoc]
    exact List.prefix_append _ _
  obtain ⟨names, hnames⟩ := h.named q n hq hW
  have hpW := hp.equiv_under
  have hprefix : init ++ [name] <+: names := by
    rw [← Path.under_startsWith_iff W, Path.startsWith_iff, ← Path.equiv_iff.mp hpW,
      ← Path.equiv_iff.mp hnames]
    exact Path.startsWith_iff.mp hstart
  obtain ⟨rest, rfl⟩ := hprefix
  rcases rest with - | ⟨child, rest⟩
  · rw [List.append_nil] at hnames
    exact absurd (Eq.trans hnames (Eq.symm hpW)) hne
  · refine ⟨child, rest, ?_⟩
    rw [Path.equiv_iff, Path.equiv_iff.mp hnames, Path.parts_under, Path.parts_under, hp.parts_eq]
    simp

theorem node?_under (names : List EntryName) : d.node? (loc ++ init ++ [name] ++ names) =
    if names = [] then (s.node? p).map .ofStored else (s.node? (p.under names)).map .ofStored := by
  have hunder : p.under names ≈ W.under (init ++ [name] ++ names) := by
    rw [Path.equiv_iff, Path.parts_under, Path.parts_under, hp.parts_eq]
    simp
  split
  · rename_i hnil
    rw [hnil, List.append_nil, h.node?_eq hp]
  · rw [List.append_assoc, List.append_assoc, ← List.append_assoc init, h.same _ (by simp),
      s.node?_congr hunder]

/-- The disk has something below the path when the store has. -/
theorem below_isEmpty_iff_bareBelow :
    (d.below (loc ++ init ++ [name])).isEmpty = true ↔ s.BareBelow p := by
  rw [below_isEmpty_iff, MemoryStore.bareBelow_iff]
  constructor
  · intro hnone q hq hne
    by_contra hthere
    obtain ⟨n, hn⟩ := Option.ne_none_iff_exists'.mp hthere
    obtain ⟨child, rest, hunder⟩ := h.exists_under hp hn hq hne
    have hdisk := hnone (child :: rest) (by simp)
    rw [h.node?_under hp, if_neg (by simp), ← s.node?_congr hunder, hn] at hdisk
    cases hdisk
  · intro hbare rest hrest
    rw [h.node?_under hp, if_neg hrest, hbare]
    · rfl
    · rw [Path.startsWith_iff, Path.parts_under]
      exact List.prefix_append _ _
    · rw [Path.equiv_iff, Path.parts_under]
      simpa using hrest

theorem unlink_eq_ok (hnul : ¬p.HasNul) (htail : p.tail = "")
    (hfile : s.kindOf? p = some .file) :
    d.unlink p = .ok (d.erase (loc ++ init ++ [name])) := by
  obtain ⟨bytes, hnode⟩ := MemoryStore.exists_bytes_of_file hfile
  have hdir := h.around_of_node? hp (by simp [hnode])
  rw [unlink, h.lastHop_of_directory hp hnul hdir, htail]
  show (d.child? (loc ++ init) name >>= _ : Except OsError Disk) = _
  rw [h.child?_eq hp, hnode]
  rfl

theorem unlink_eq_error (hrefused : p.HasNul ∨ p.tail ≠ "" ∨ s.kindOf? p ≠ some .file) :
    ∃ e, d.unlink p = .error e := by
  unfold unlink
  by_cases hnul : p.HasNul
  · exact ⟨_, by rw [lastHop, checkPath_of_hasNul hnul]; rfl⟩
  by_cases hdir : s.kindOf? (W.under init) = some .directory
  · rw [h.lastHop_of_directory hp hnul hdir]
    show ∃ e, (d.child? (loc ++ init) name >>= _ : Except OsError Disk) = .error e
    rw [h.child?_eq hp]
    have hkind := hp.kindOf?_eq s
    rcases hnode : s.node? p with _ | _ | bytes
    · exact ⟨_, rfl⟩
    · exact ⟨_, rfl⟩
    · rw [hnode] at hkind
      have htail : p.tail.isEmpty = false := by
        have : p.tail ≠ "" := by tauto
        simpa using this
      rw [htail]
      exact ⟨_, rfl⟩
  · rcases h.lastHop_of_not_directory hp hnul hdir with ⟨-, he⟩ | ⟨-, he⟩
    · exact ⟨_, by rw [he]; rfl⟩
    · exact ⟨_, by rw [he]; rfl⟩

/-- A directory is removed on its own when nothing is in it. -/
theorem rmdir_eq (hnul : ¬p.HasNul) (hdir : s.kindOf? p = some .directory) :
    d.rmdir p = if (d.below (loc ++ init ++ [name])).isEmpty then
      .ok (d.erase (loc ++ init ++ [name])) else .error (.errno .notEmpty) := by
  have hnode := MemoryStore.node?_of_directory hp.isRoot_eq_false hdir
  rw [rmdir, h.lastHop_of_directory hp hnul (h.around_of_node? hp (by simp [hnode]))]
  show (d.child? (loc ++ init) name >>= _ : Except OsError Disk) = _
  rw [h.child?_eq hp, hnode]
  rfl

/-- **Removing a file** follows the store, on a path as it should be spelled. -/
theorem follows_unlinkFile (hnul : ¬p.HasNul) (htail : p.tail = "")
    (hfile : s.kindOf? p = some .file) : Follows W loc (s.erase p) d (system.unlink p) :=
  ⟨_, runFrom_changing (h.unlink_eq_ok hp hnul htail hfile),
    h.erase hp (h.closed.bareBelow_file hfile hp.parts_ne_nil)⟩

theorem follows_rmdir (hnul : ¬p.HasNul) (hdir : s.kindOf? p = some .directory)
    (hbare : s.BareBelow p) : Follows W loc (s.erase p) d (system.rmdir p) := by
  have hrmdir := h.rmdir_eq hp hnul hdir
  rw [if_pos ((h.below_isEmpty_iff_bareBelow hp).mpr hbare)] at hrmdir
  exact ⟨_, runFrom_changing hrmdir, h.erase hp hbare⟩

theorem follows_unlink (hspelled : ¬s.Misspells p) (hunlink : s.unlink p = .ok s') :
    Follows W loc s' d ((System.backend system).unlink p) := by
  obtain ⟨hfile, rfl⟩ := MemoryStore.unlink_eq_ok_iff.mp hunlink
  refine .behind (h.runFrom_refuseDir hp (.inr (by simp [hfile])))
    ((h.follows_unlinkFile hp (MemoryStore.not_hasNul_of_spelled hspelled)
      (MemoryStore.tail_eq_empty_of_spelled hspelled hfile) hfile).blaming p)

theorem fails_unlink (hfails : s.Misspells p ∨ ∀ s', s.unlink p ≠ .ok s') :
    Fails d ((System.backend system).unlink p) := by
  by_cases hisDir : ¬p.HasNul ∧ s.kindOf? p = some .directory
  · exact (h.fails_refuseDir hp hisDir.1 hisDir.2).bind _
  · have hrefused : p.HasNul ∨ p.tail ≠ "" ∨ s.kindOf? p ≠ some .file := by
      rcases hfails with (hnul | ⟨htail, -⟩) | hstore
      · exact .inl hnul
      · exact .inr (.inl htail)
      · exact .inr (.inr fun hfile ↦
          hstore _ (MemoryStore.unlink_eq_ok_iff.mpr ⟨hfile, rfl⟩))
    obtain ⟨e, he⟩ := h.unlink_eq_error hp hrefused
    exact .behind (h.runFrom_refuseDir hp (by tauto)) ((fails_changing he).blaming p)

end Primitive

/-! ### Removing with what is below -/

section Children

variable {child : EntryName} (h : Mirrors W loc s d) (hp : W.Leads p init name)
include hp

theorem leads_child (hfits : s.FitsBelow p)
    (hthere : s.node? (p.child child) ≠ none) :
    W.Leads (p.child child) (init ++ [name]) child where
  equiv := by
    rw [Path.equiv_iff, Path.parts_child, Path.parts_child, Path.under_snoc, Path.parts_child,
      hp.parts_around]
  undotted := by
    rw [Path.tail_child hp.isEmpty_eq_false]
    exact List.not_mem_nil
  fits := (hfits [child] hthere).1
  short n hn := by
    rcases List.mem_append.mp hn with hn | hn
    · exact hp.short n hn
    · exact (hfits [child] hthere).2 n hn

include h in
theorem not_hasNul_child (hnul : ¬p.HasNul)
    (hthere : s.node? (p.child child) ≠ none) : ¬(p.child child).HasNul := by
  intro hchild
  rcases Path.of_hasNul_child hp.isEmpty_eq_false hchild with hhas | hhas
  · exact hnul hhas
  · refine h.nulFree (init ++ [name] ++ [child]) ?_ child (by simp) hhas
    rw [← List.append_assoc, ← List.append_assoc, h.node?_child hp]
    simpa using hthere

end Children

/-- What has something at or below it is there. -/
theorem exists_node?_of_below {q : Path} {n : StoredNode} {child : EntryName}
    (h : Mirrors W loc s d) (hq : s.node? q = some n)
    (hstart : q.startsWith (p.child child) = true) : ∃ m, s.node? (p.child child) = some m := by
  rw [← Option.ne_none_iff_exists']
  intro hnone
  have hkind := MemoryStore.kindOf?_of_not_root (s := s) (Path.isRoot_child p child)
  rw [hnone] at hkind
  rw [h.closed.node?_eq_none_below hkind (by simp) (Path.startsWith_iff.mp hstart)] at hq
  cases hq

/-- What is below a directory is at or below one of its entries. -/
theorem below_child_iff {q : Path} (h : Mirrors W loc s d) (hp : W.Leads p init name)
    (hthere : s.node? q ≠ none) :
    (∃ child ∈ d.children (loc ++ init ++ [name]), q.startsWith (p.child child.1) = true) ↔
      q.startsWith p = true ∧ ¬q ≈ p := by
  constructor
  · rintro ⟨child, -, hchild⟩
    rw [Path.startsWith_iff, Path.parts_child] at hchild
    refine ⟨Path.startsWith_iff.mpr ((List.prefix_append _ _).trans hchild), fun hqp ↦ ?_⟩
    have hlength := hchild.length_le
    rw [Path.equiv_iff.mp hqp, List.length_append, List.length_singleton] at hlength
    omega
  · rintro ⟨hstart, hne⟩
    obtain ⟨n, hn⟩ := Option.ne_none_iff_exists'.mp hthere
    obtain ⟨child, rest, hq⟩ := h.exists_under hp hn hstart hne
    have hbelow : q.startsWith (p.child child) = true := by
      rw [Path.startsWith, Path.equiv_iff.mp hq]
      exact (Path.under_startsWith_iff p [child] (child :: rest)).mpr ⟨rest, rfl⟩
    obtain ⟨m, hm⟩ := h.exists_node?_of_below hn hbelow
    exact ⟨(child, (DiskNode.ofStored m).type), (h.mem_children_iff hp _ _).mpr ⟨m, hm, rfl⟩,
      hbelow⟩

/-- **Removing the entries of a directory**, one after the other. -/
theorem follows_children {start : MemoryStore}
    {remove : EntryName × FileType → OsCall (StateM Disk) Unit}
    (hremove : ∀ (child : EntryName × FileType) (s s₁ : MemoryStore) (d : Disk),
      Mirrors W loc s d → (∀ q, start.node? q = none → s.node? q = none) →
      (∃ n, s.node? (p.child child.1) = some n ∧ (DiskNode.ofStored n).type = child.2) →
      s.rm (p.child child.1) true = .ok s₁ → Follows W loc s₁ d (remove child))
    (children : List (EntryName × FileType)) (hnodup : (children.map Prod.fst).Nodup)
    (h : Mirrors W loc s d) (hfewer : ∀ q, start.node? q = none → s.node? q = none)
    (hstored : ∀ child ∈ children,
      ∃ n, s.node? (p.child child.1) = some n ∧ (DiskNode.ofStored n).type = child.2) :
    ∃ s', Follows W loc s' d (forIn children PUnit.unit fun child _ ↦ do
        remove child
        return ForInStep.yield PUnit.unit) ∧ ∀ q, s'.node? q =
      if ∃ child ∈ children, q.startsWith (p.child child.1) = true then none else s.node? q := by
  induction children generalizing s d with
  | nil => exact ⟨s, ⟨d, rfl, h⟩, fun q ↦ by simp⟩
  | cons child children ih =>
    obtain ⟨⟨n, hn, htype⟩, hrest⟩ := List.forall_mem_cons.mp hstored
    obtain ⟨hnew, hnodup⟩ := List.nodup_cons.mp hnodup
    have hkind : s.kindOf? (p.child child.1) ≠ none := by
      rw [MemoryStore.kindOf?_of_node? (Path.isRoot_child p child.1) hn]
      simp
    obtain ⟨s₁, hrm⟩ := MemoryStore.exists_rm hkind
    obtain ⟨d₁, hrun, h₁⟩ := hremove child s s₁ d h hfewer ⟨n, hn, htype⟩ hrm
    have hview := h.closed.node?_rm (by simp) hrm
    have hfewer₁ : ∀ q, start.node? q = none → s₁.node? q = none := by
      intro q hq
      rw [hview, hfewer q hq, ite_self]
    -- the others are beside the one that has been removed
    have hrest₁ : ∀ other ∈ children,
        ∃ n, s₁.node? (p.child other.1) = some n ∧ (DiskNode.ofStored n).type = other.2 := by
      intro other hother
      rw [hview, if_neg]
      · exact hrest other hother
      · rw [Path.startsWith_iff, Path.parts_child, Path.parts_child,
          List.prefix_append_right_inj, List.cons_prefix_cons]
        rintro ⟨hsame, -⟩
        exact hnew (Part.entry.inj hsame ▸ List.mem_map_of_mem hother)
    obtain ⟨s', ⟨d', hloop, h'⟩, hview'⟩ := ih hnodup h₁ hfewer₁ hrest₁
    refine ⟨s', ⟨d', ?_, h'⟩, fun q ↦ ?_⟩
    · rw [List.forIn_cons, runFrom_run_bind, runFrom_run_bind, hrun]
      exact hloop
    · rw [hview', hview]
      by_cases hchild : q.startsWith (p.child child.1) = true
      · rw [if_pos hchild, ite_self, if_pos ⟨child, List.mem_cons_self, hchild⟩]
      · rw [if_neg hchild]
        refine if_congr ?_ rfl rfl
        simp only [List.mem_cons, exists_eq_or_imp, hchild, Bool.false_eq_true, false_or]

/-- Removing an entry of a directory, in a way that depends on its type. -/
def removeChild (depth : Nat) (p : Path) (child : EntryName × FileType) :
    OsCall (StateM Disk) Unit :=
  match child.2 with
  | .directory => system.removeTreeWithin depth (p.child child.1)
  | _ => system.unlink (p.child child.1)

theorem removeTreeWithin_succ (depth : Nat) (p : Path) :
    system.removeTreeWithin (depth + 1) p = (do
      for child in ← system.list p do removeChild depth p child
      system.rmdir p) := by
  unfold System.removeTreeWithin
  refine congrArg (system.list p >>= ·) (funext fun children ↦ ?_)
  refine congrArg (· >>= fun _ ↦ system.rmdir p) (congrArg (forIn children PUnit.unit) ?_)
  funext child _
  obtain ⟨name, type⟩ := child
  rcases type with - | - | - <;> rfl

/-- An entry is removed, if directories below `p` are removed with what is in them. -/
theorem follows_removeChild {depth : Nat} {child : EntryName × FileType}
    (htree : Path.Leads W (p.child child.1) (init ++ [name]) child.1 →
      ¬(p.child child.1).HasNul → s.kindOf? (p.child child.1) = some .directory →
      Follows W loc s' d (system.removeTreeWithin depth (p.child child.1)))
    (h : Mirrors W loc s d) (hp : W.Leads p init name) (hnul : ¬p.HasNul)
    (hfits : s.FitsBelow p)
    (hthere : ∃ n, s.node? (p.child child.1) = some n ∧ (DiskNode.ofStored n).type = child.2)
    (hrm : s.rm (p.child child.1) true = .ok s') :
    Follows W loc s' d (removeChild depth p child) := by
  obtain ⟨child, type⟩ := child
  obtain ⟨n, hn, rfl⟩ := hthere
  have hchildThere : s.node? (p.child child) ≠ none := by simp [hn]
  have hchild := leads_child hp hfits hchildThere
  have hchildNul := h.not_hasNul_child hp hnul hchildThere
  have hkind := hchild.kindOf?_eq s
  rw [hn] at hkind
  rcases n with - | bytes
  · exact htree hchild hchildNul hkind
  · obtain rfl : s.erase (p.child child) = s' := by
      simpa [MemoryStore.rm, hkind, StoredNode.kind] using hrm
    exact h.follows_unlinkFile hchild hchildNul (Path.tail_child hp.isEmpty_eq_false child) hkind

/-- **Removing a directory with what is in it.** -/
theorem follows_removeTreeWithin {depth : Nat} (h : Mirrors W loc s d)
    (hp : W.Leads p init name) (hnul : ¬p.HasNul) (hdir : s.kindOf? p = some .directory)
    (hfits : s.FitsBelow p) (hshallow : s.Shallow p depth) (hrm : s.rm p true = .ok s') :
    Follows W loc s' d (system.removeTreeWithin depth p) := by
  induction depth generalizing s s' d p init name with
  | zero =>
    have hthere : s.node? p ≠ none := fun hnone ↦ by simp [hp.kindOf?_eq s, hnone] at hdir
    exact absurd (hshallow [] hthere) (Nat.not_lt_zero _)
  | succ depth ih =>
    have hlist : (d.list p).toOption = some (d.children (loc ++ init ++ [name])) := by
      rw [h.toOption_list hp, if_pos]
      exact (MemoryStore.onDisk?_eq_dir_iff hp.isRoot_eq_false).mpr ⟨hnul, hdir⟩
    have hremove : ∀ (child : EntryName × FileType) (t t₁ : MemoryStore) (e : Disk),
        Mirrors W loc t e → (∀ q, s.node? q = none → t.node? q = none) →
        (∃ n, t.node? (p.child child.1) = some n ∧ (DiskNode.ofStored n).type = child.2) →
        t.rm (p.child child.1) true = .ok t₁ →
        Follows W loc t₁ e (removeChild depth p child) := by
      intro child t t₁ e ht hfewer hthere hrm
      have htfits := hfits.of_fewer hfewer
      refine follows_removeChild (fun hchild hchildNul hkind ↦ ?_) ht hp hnul htfits hthere hrm
      exact ih ht hchild hchildNul hkind (htfits.child child.1)
        ((hshallow.of_fewer hfewer).child child.1) hrm
    obtain ⟨s₁, ⟨d₁, hloop, h₁⟩, hview₁⟩ := follows_children hremove
      (d.children (loc ++ init ++ [name])) (nodup_children h.sorted _) h (fun _ ↦ id)
      fun child hchild ↦ (h.mem_children_iff hp child.1 child.2).mp hchild
    have hview : ∀ q, s₁.node? q =
        if q.startsWith p = true ∧ ¬q ≈ p then none else s.node? q := by
      intro q
      rw [hview₁]
      by_cases hthere : s.node? q = none
      · rw [hthere, ite_self, ite_self]
      · exact if_congr (h.below_child_iff hp hthere) rfl rfl
    -- the directory itself is still there, and nothing is in it any more
    have hdir₁ : s₁.kindOf? p = some .directory := by
      refine MemoryStore.kindOf?_directory_of (fun hstored ↦ ?_) hdir
      rw [hview, if_neg fun hbelow ↦ hbelow.2 rfl, hstored]
    have hbare₁ : s₁.BareBelow p := by
      rw [MemoryStore.bareBelow_iff]
      intro q hstart hne
      rw [hview, if_pos ⟨hstart, hne⟩]
    obtain ⟨d₂, hrmdir, h₂⟩ := h₁.follows_rmdir hp hnul hdir₁ hbare₁
    refine ⟨d₂, ?_, h₂.congr fun q ↦ ?_⟩
    · rw [removeTreeWithin_succ, runFrom_run_bind,
        show runFrom d (system.list p).run = _ from runFrom_asking hlist]
      dsimp only
      rw [runFrom_run_bind, hloop]
      exact hrmdir
    · rw [h.closed.node?_rm hp.parts_ne_nil hrm, MemoryStore.node?_erase]
      by_cases hpq : p ≈ q
      · rw [if_pos hpq, if_pos (Path.startsWith_of_equiv (Eq.symm hpq))]
      · have hqp : ¬q ≈ p := fun hqp ↦ hpq (Eq.symm hqp)
        rw [if_neg hpq, hview]
        simp only [hqp, not_false_eq_true, and_true]

/-! ### Removing entries -/

section Entries

variable {recursive : Bool} (h : Mirrors W loc s d) (hp : W.Leads p init name)
include h hp

theorem follows_rm_file (hspelled : ¬s.Misspells p) (hfile : s.kindOf? p = some .file) :
    Follows W loc (s.erase p) d ((System.backend system).rm p recursive) := by
  have hunlinked := h.follows_unlinkFile hp (MemoryStore.not_hasNul_of_spelled hspelled)
    (MemoryStore.tail_eq_empty_of_spelled hspelled hfile) hfile
  obtain ⟨bytes, hnode⟩ := MemoryStore.exists_bytes_of_file hfile
  have hseen : s.onDisk? p = some (.file bytes) := by
    rw [MemoryStore.onDisk?, if_neg hspelled, hnode]
  exact .behind (runFrom_blaming (h.runFrom_lstat hp _ hseen) p) (hunlinked.blaming p)

/-- **Removing an entry** follows the store, on a path as it should be spelled. -/
theorem follows_rm (hspelled : ¬s.Misspells p) (hfits : recursive = true → s.FitsBelow p)
    (hrm : s.rm p recursive = .ok s') :
    Follows W loc s' d ((System.backend system).rm p recursive) := by
  have hnul := MemoryStore.not_hasNul_of_spelled hspelled
  rcases hkind : s.kindOf? p with _ | _ | _
  · exact absurd hkind (MemoryStore.rm_cases hrm).1
  · obtain rfl : s.erase p = s' := by simpa [MemoryStore.rm, hkind] using hrm
    exact h.follows_rm_file hp hspelled hkind
  · have hseen := (MemoryStore.onDisk?_eq_dir_iff hp.isRoot_eq_false).mpr ⟨hnul, hkind⟩
    refine .behind (runFrom_blaming (h.runFrom_lstat hp _ hseen) p) ?_
    rcases recursive with - | -
    · obtain ⟨hfree, rfl⟩ := MemoryStore.rm_false_eq_ok_iff.mp hrm
      have hbare : s.BareBelow p := by
        rcases hfree with hfile | ⟨-, hbare⟩
        · rw [hkind] at hfile
          cases hfile
        · exact hbare
      obtain ⟨d', hrun, h'⟩ := h.follows_rmdir hp hnul hkind hbare
      refine ⟨d', ?_, h'⟩
      show runFrom d (liftM (system.rmdir p).run >>= _ : Attempt (StateM Disk) Unit).run = _
      rw [runFrom_run_bind, runFrom_run_lift, hrun]
      rfl
    · exact (h.follows_removeTreeWithin hp hnul hkind (hfits rfl) (hfits rfl).shallow
        hrm).blaming p

/-- What the store does not remove, the disk does not remove. -/
theorem fails_rm (hfails : s.Misspells p ∨ ∀ s', s.rm p recursive ≠ .ok s') :
    Fails d ((System.backend system).rm p recursive) := by
  show Fails d (system.storeRm p recursive)
  rcases hseen : s.onDisk? p with _ | n
  · have hlstat : (d.status p false).toOption = none := by
      rw [h.toOption_status hp, hseen]
      rfl
    exact Fails.bind ((fails_asking hlstat).blaming p) _
  have hspelled : ¬s.Misspells p := by
    intro hmisspelled
    rw [MemoryStore.onDisk?, if_pos hmisspelled] at hseen
    cases hseen
  have hnul := MemoryStore.not_hasNul_of_spelled hspelled
  have hstore := hfails.resolve_left hspelled
  -- what is there can be removed, unless it is a directory with something in it
  have hthere : s.node? p = some n := by rwa [MemoryStore.onDisk?, if_neg hspelled] at hseen
  have hkind := hp.kindOf?_eq s
  rw [hthere] at hkind
  rcases recursive with - | -
  · refine .behind (runFrom_blaming (h.runFrom_lstat hp _ hseen) p) ?_
    rcases n with - | bytes
    · have hcrowded : ¬s.BareBelow p := fun hbare ↦
        hstore _ (MemoryStore.rm_false_eq_ok_iff.mpr ⟨.inr ⟨hkind, hbare⟩, rfl⟩)
      have hrmdir := h.rmdir_eq hp hnul hkind
      rw [if_neg fun hempty ↦ hcrowded ((h.below_isEmpty_iff_bareBelow hp).mp hempty)] at hrmdir
      refine ⟨.failed p "directory not empty", ?_⟩
      show runFrom d (liftM (system.rmdir p).run >>= _ : Attempt (StateM Disk) Unit).run = _
      rw [runFrom_run_bind, runFrom_run_lift,
        show runFrom d (system.rmdir p).run = _ from runFrom_changing_of_error hrmdir]
      rfl
    · exact absurd (MemoryStore.rm_false_eq_ok_iff.mpr ⟨.inl hkind, rfl⟩) (hstore _)
  · obtain ⟨s', hrm⟩ := MemoryStore.exists_rm (s := s) (p := p) (by simp [hkind])
    exact absurd hrm (hstore s')

end Entries

end Mirrors

end Disk

end Scaffold
