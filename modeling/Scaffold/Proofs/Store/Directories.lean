import Scaffold.Proofs.Store.Lookup

/-!
# Making directories

A directory can be made with those above it unless a file is in the way (`clear_iff`), and then
exactly those are stored that were missing (`IsOpen.mkdir`). What may be missing are the directories
that support the path (`Path.Supports`): it and its ancestors, without the root directory, which is
always there.

A store need not be a tree. A directory that is there is left alone, even if something above it is
missing; so what is asked of an open directory is that this is not the case (`IsOpen.whole`).
-/

namespace Scaffold

namespace Path

variable {p q : Path}

/-! ### What supports a path -/

/-- The directories that must be there for something to be in `p`: those at and above it, apart from
the root directory, which is always there. -/
def Supports (q p : Path) : Prop := q.parts <+: p.parts ∧ q.parts ≠ [] ∧ q.isRoot = false

instance : Decidable (q.Supports p) :=
  inferInstanceAs (Decidable (q.parts <+: p.parts ∧ q.parts ≠ [] ∧ q.isRoot = false))

theorem isEmpty_eq_false (h : p.parts ≠ []) : p.isEmpty = false := by
  simp only [isEmpty, Bool.and_eq_false_imp, List.isEmpty_iff]
  intro hnil
  simp [parts, hnil] at h

theorem parts_ne_nil_of_absolute (h : p.isAbsolute = true) : p.parts ≠ [] := by
  rintro hnil
  simp [isAbsolute, hnil] at h

theorem isAbsolute_of_prefix (h : p.isAbsolute = true) (hstarts : p.parts <+: q.parts) :
    q.isAbsolute = true := by
  obtain ⟨rest, hrest⟩ := hstarts
  rcases hparts : p.parts with - | ⟨part, more⟩
  · exact absurd hparts (parts_ne_nil_of_absolute h)
  · rw [isAbsolute, ← hrest, hparts]
    simpa [isAbsolute, hparts] using h

/-- What is at or above a path is the path itself or one of its ancestors. -/
theorem exists_equiv_iff (hq : q.parts ≠ []) :
    (∃ r ∈ p :: p.ancestors, r ≈ q) ↔ q.parts <+: p.parts := by
  have hlength : p.pieces.length = p.parts.length := by simp [parts]
  constructor
  · rintro ⟨r, hr, hrq⟩
    rw [← equiv_iff.mp hrq]
    rcases List.mem_cons.mp hr with rfl | hr
    · exact List.prefix_rfl
    · exact isPrefix_of_mem_ancestors hr
  · intro hstarts
    rcases Nat.lt_or_ge q.parts.length p.parts.length with hlt | hge
    · refine ⟨_, List.mem_cons_of_mem _ (mem_ancestors.mpr
        ⟨q.parts.length, hlength ▸ hlt, fun _ ↦ List.length_pos_iff.mpr hq, rfl⟩), ?_⟩
      rw [equiv_iff, parts, List.map_take]
      exact (List.prefix_iff_eq_take.mp hstarts).symm
    · exact ⟨p, List.mem_cons_self, (hstarts.eq_of_length_le hge).symm⟩

/-- What is at or above an absolute path is not empty. -/
theorem parts_ne_nil_of_mem_ancestors (hp : p.isAbsolute = true) {r : Path}
    (hr : r ∈ p :: p.ancestors) : r.parts ≠ [] := by
  have hne := parts_ne_nil_of_absolute hp
  rcases List.mem_cons.mp hr with rfl | hr
  · exact hne
  · obtain ⟨k, hk, hfirst, rfl⟩ := mem_ancestors.mp hr
    have := hfirst hp
    rw [ne_eq, parts, List.map_eq_nil_iff, List.take_eq_nil_iff]
    rintro (h | h)
    · omega
    · exact hne (by simp [parts, h])

/-- What is at or above an absolute path is the path itself, one of its ancestors, or nothing. -/
theorem exists_equiv_of_prefix (hp : p.isAbsolute = true) :
    (∃ r ∈ p :: p.ancestors, r ≈ q) ↔ q.parts <+: p.parts ∧ q.parts ≠ [] := by
  constructor
  · rintro ⟨r, hr, hrq⟩
    have hq : q.parts ≠ [] := equiv_iff.mp hrq ▸ parts_ne_nil_of_mem_ancestors hp hr
    exact ⟨(exists_equiv_iff hq).mp ⟨r, hr, hrq⟩, hq⟩
  · rintro ⟨hstarts, hq⟩
    exact (exists_equiv_iff hq).mpr hstarts

/-- What supports an entry is the entry itself, or it supports the directory around it. -/
theorem supports_concat_iff {around : Path} {name : EntryName}
    (hp : p.parts = around.parts ++ [.entry name]) : q.Supports p ↔ p ≈ q ∨ q.Supports around := by
  have hroot : p.isRoot = false := by
    rw [Bool.eq_false_iff, Ne, isRoot_iff, hp]
    rcases around.parts with - | ⟨part, rest⟩ <;> simp
  rw [Supports, hp, List.prefix_concat_iff, ← hp, or_and_right]
  refine or_congr ⟨fun h ↦ h.1.symm, fun hpq ↦ ?_⟩ Iff.rfl
  have hparts := equiv_iff.mp hpq
  refine ⟨hparts.symm, ?_, ?_⟩
  · rw [← hparts, hp]
    simp
  · rw [isRoot, ← hparts]
    exact hroot

end Path

namespace MemoryStore

variable {s s' : MemoryStore} {p q : Path}

/-! ### Storing what is missing -/

theorem node?_insertDir (s : MemoryStore) (p q : Path) :
    (s.insertDir p).node? q =
      if s.node? q = none ∧ (p ≈ q ∧ p.isEmpty = false) ∧ q.isRoot = false then some .dir
      else s.node? q := by
  unfold insertDir
  split
  · rename_i hthere
    rw [if_neg]
    rintro ⟨hnone, ⟨hpq, hempty⟩, hroot⟩
    rw [Path.isRoot, Path.equiv_iff.mp hpq, ← Path.isRoot, hroot, hempty, s.node?_congr hpq, hnone]
      at hthere
    cases hthere
  · rename_i hmissing
    simp only [Bool.or_eq_true, not_or, Bool.not_eq_true, Option.isSome_eq_false_iff,
      Option.isNone_iff_eq_none] at hmissing
    rw [node?_insert]
    by_cases hpq : p ≈ q
    · rw [if_pos hpq, if_pos]
      refine ⟨s.node?_congr hpq ▸ hmissing.2, ⟨hpq, hmissing.1.2⟩, ?_⟩
      rw [Path.isRoot, ← Path.equiv_iff.mp hpq]
      exact hmissing.1.1
    · rw [if_neg hpq, if_neg fun h ↦ hpq h.2.1.1]

theorem node?_foldl_insertDir (s : MemoryStore) (l : List Path) (q : Path) :
    (l.foldl insertDir s).node? q =
      if s.node? q = none ∧ (∃ r ∈ l, r ≈ q ∧ r.isEmpty = false) ∧ q.isRoot = false then some .dir
      else s.node? q := by
  induction l generalizing s with
  | nil => simp
  | cons r l ih =>
    rw [List.foldl_cons, ih, node?_insertDir]
    by_cases hrq : r ≈ q ∧ r.isEmpty = false <;> by_cases hroot : q.isRoot = false <;>
      by_cases hnone : s.node? q = none <;> simp [hrq, hroot, hnone]

/-- **Storing directories** stores those that are missing at and above the path. -/
theorem node?_insertDirs_of_ne (s : MemoryStore) (p : Path) (hq : q.parts ≠ []) :
    (s.insertDirs p).node? q =
      if s.node? q = none ∧ q.Supports p then some .dir else s.node? q := by
  rw [insertDirs, node?_foldl_insertDir]
  refine if_congr (and_congr_right fun _ ↦ ?_) rfl rfl
  have hempty : ∀ r : Path, r ≈ q ∧ r.isEmpty = false ↔ r ≈ q := fun r ↦
    and_iff_left_of_imp fun hrq ↦ Path.isEmpty_eq_false (Path.equiv_iff.mp hrq ▸ hq)
  simp only [hempty]
  rw [Path.exists_equiv_iff hq, Path.Supports]
  simp [hq]

theorem node?_insertDirs (s : MemoryStore) (hp : p.isAbsolute = true) (q : Path) :
    (s.insertDirs p).node? q =
      if s.node? q = none ∧ q.Supports p then some .dir else s.node? q := by
  by_cases hq : q.parts = []
  · rw [insertDirs, node?_foldl_insertDir, if_neg, if_neg fun h ↦ h.2.2.1 hq]
    rintro ⟨-, ⟨r, hr, hrq, -⟩, -⟩
    exact Path.parts_ne_nil_of_mem_ancestors hp hr (Path.equiv_iff.mp hrq ▸ hq)
  · exact s.node?_insertDirs_of_ne p hq

/-! ### Open directories -/

/-- **Only directories support a path** exactly if no file is at or above it. -/
theorem clear_iff (hp : p.isAbsolute = true) :
    (∀ q : Path, q.Supports p → s.node? q = none ∨ s.node? q = some .dir) ↔
      ∀ q ∈ p :: p.ancestors, s.kindOf? q ≠ some .file := by
  constructor
  · intro hclear q hq
    rcases hroot : q.isRoot with - | -
    · obtain ⟨hstarts, hne⟩ := (Path.exists_equiv_of_prefix hp).mp ⟨q, hq, rfl⟩
      rcases hclear q ⟨hstarts, hne, hroot⟩ with hnone | hdir
      · simp [kindOf?_of_not_root hroot, hnone]
      · simp [kindOf?_of_node? hroot hdir, StoredNode.kind]
    · simp [kindOf?_of_isRoot hroot]
  · intro hkinds q hq
    obtain ⟨r, hr, hrq⟩ := (Path.exists_equiv_of_prefix hp).mpr ⟨hq.1, hq.2.1⟩
    have hkind : s.kindOf? q ≠ some .file := s.kindOf?_congr hrq ▸ hkinds r hr
    rw [kindOf?_of_not_root hq.2.2] at hkind
    rcases hnode : s.node? q with - | - | bytes
    · exact .inl rfl
    · exact .inr rfl
    · simp [hnode, StoredNode.kind] at hkind

/-- Entries can be made in the directory `p`: no file is in the way, and if it is there then so are
the directories above it. -/
structure IsOpen (s : MemoryStore) (p : Path) : Prop where
  isAbsolute : p.isAbsolute = true
  clear : ∀ q : Path, q.Supports p → s.node? q = none ∨ s.node? q = some .dir
  whole : s.kindOf? p = some .directory → ∀ q : Path, q.Supports p → s.node? q = some .dir

theorem IsOpen.congr (h : s.IsOpen p) (hpq : p ≈ q) : s.IsOpen q := by
  have hparts := Path.equiv_iff.mp hpq
  refine ⟨?_, fun r hr ↦ h.clear r ?_, fun hkind r hr ↦ h.whole ?_ r ?_⟩
  · rw [Path.isAbsolute, ← hparts]
    exact h.isAbsolute
  · rwa [Path.Supports, hparts]
  · rwa [s.kindOf?_congr hpq]
  · rwa [Path.Supports, hparts]

/-- A directory is made where nothing is and no file is above it. -/
theorem mkdir_of_free (hnone : s.kindOf? p = none)
    (hfree : ∀ q ∈ p.ancestors, s.kindOf? q ≠ some .file) :
    s.mkdir p true = .ok (s.insertDirs p) := by
  have hblocking : (p.ancestors.find? fun q ↦ s.kindOf? q = some .file) = none :=
    List.find?_eq_none.mpr (by simpa using hfree)
  simp only [MemoryStore.mkdir, hnone, hblocking]

/-- **Making a directory** that is open succeeds, and it stores those that are missing. -/
theorem IsOpen.mkdir (h : s.IsOpen p) : ∃ s', s.mkdir p true = .ok s' ∧
    ∀ q, s'.node? q = if s.node? q = none ∧ q.Supports p then some .dir else s.node? q := by
  have hkinds : ∀ q ∈ p :: p.ancestors, s.kindOf? q ≠ some .file :=
    (clear_iff h.isAbsolute).mp h.clear
  rcases hkind : s.kindOf? p with - | - | -
  · exact ⟨s.insertDirs p, mkdir_of_free hkind (List.forall_mem_cons.mp hkinds).2,
      s.node?_insertDirs h.isAbsolute⟩
  · exact absurd hkind (hkinds p List.mem_cons_self)
  · refine ⟨s, by simp [MemoryStore.mkdir, hkind], fun q ↦ ?_⟩
    rw [if_neg]
    rintro ⟨hnone, hsupports⟩
    rw [h.whole hkind q hsupports] at hnone
    cases hnone

/-- Where nothing is, in an open directory, another one can be made. -/
theorem IsOpen.concat {around : Path} {name : EntryName} (h : s.IsOpen around)
    (hp : p.parts = around.parts ++ [.entry name]) (hfree : s.kindOf? p = none) : s.IsOpen p := by
  refine ⟨Path.isAbsolute_of_prefix h.isAbsolute (hp ▸ List.prefix_append _ _), fun q hq ↦ ?_,
    fun hkind ↦ ?_⟩
  · rcases (Path.supports_concat_iff hp).mp hq with hpq | hq
    · rw [s.kindOf?_congr hpq, kindOf?_of_not_root hq.2.2, Option.map_eq_none_iff] at hfree
      exact .inl hfree
    · exact h.clear q hq
  · rw [hfree] at hkind
    cases hkind

end MemoryStore

end Scaffold
