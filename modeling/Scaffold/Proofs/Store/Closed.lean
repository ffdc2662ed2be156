import Scaffold.Proofs.Store.Settling

/-!
# Closed stores

The entries of a store are one flat sequence, so nothing but the calls themselves keeps it a tree. A
store is closed when all that is above an entry are directories (`Closed`). What creates keeps this,
whatever path it is about, a relative one as well, because it looks at the parent first or makes
what is missing (`Closed.mkdir`, `Closed.write`); and so does what removes, because it takes all
that is below along (`Closed.rm`, `Closed.unlink`).

In a closed store nothing is below a path at which nothing or a file is (`BareBelow`,
`Closed.bareBelow`, `Closed.bareBelow_file`). A store is well formed exactly when it is closed and
all that is stored is absolute (`wellFormed_iff_closed`).
-/

namespace Scaffold

/-- Some path has the parts. -/
theorem Path.exists_parts (parts : List Part) : ∃ p : Path, p.parts = parts :=
  ⟨⟨parts.map fun part ↦ ⟨"", part⟩, ""⟩, by simp [Path.parts, Function.comp_def]⟩

namespace MemoryStore

variable {s s' : MemoryStore} {p q source target : Path} {n : StoredNode}

/-! ### Closed stores -/

/-- Above an entry there are only directories, and the root is not stored. -/
structure Closed (s : MemoryStore) : Prop where
  above : ∀ {p q : Path} {n : StoredNode}, s.node? p = some n → q.parts <+: p.parts →
    q.parts ≠ p.parts → q.parts ≠ [] → s.kindOf? q = some .directory
  not_root : ∀ {p : Path} {n : StoredNode}, s.node? p = some n → p.parts ≠ [.root]

/-- Directories are where the view shows them. -/
theorem kindOf?_directory_of (h : s.node? q = some .dir → s'.node? q = some .dir)
    (hq : s.kindOf? q = some .directory) : s'.kindOf? q = some .directory := by
  rw [kindOf?_eq_directory_iff] at hq ⊢
  exact hq.imp_right h

namespace Closed

variable (h : s.Closed)
include h

/-- **Where nothing is**, nothing is below. -/
theorem node?_eq_none_below (hp : s.kindOf? p = none) (hne : p.parts ≠ [])
    (hq : p.parts <+: q.parts) : s.node? q = none := by
  by_contra hsome
  obtain ⟨n, hn⟩ := Option.ne_none_iff_exists'.mp hsome
  have hroot : p.isRoot = false := s.isRoot_eq_false (by simp [hp])
  by_cases hsame : p.parts = q.parts
  · rw [s.kindOf?_congr (Path.equiv_iff.mpr hsame), kindOf?_of_node? _ hn] at hp
    · cases hp
    · rwa [Path.isRoot, ← hsame]
  · rw [h.above hn hq hsame hne] at hp
    cases hp

/-- A file has nothing below it. -/
theorem node?_eq_none_below_file (hp : s.kindOf? p = some .file) (hne : p.parts ≠ [])
    (hq : p.parts <+: q.parts) (hsame : p.parts ≠ q.parts) : s.node? q = none := by
  by_contra hsome
  obtain ⟨n, hn⟩ := Option.ne_none_iff_exists'.mp hsome
  rw [h.above hn hq hsame hne] at hp
  cases hp

/-- What is above a directory is a directory. -/
theorem directory_above (hp : s.kindOf? p = some .directory) (hq : q.parts <+: p.parts)
    (hne : q.parts ≠ []) : s.kindOf? q = some .directory := by
  by_cases hsame : q.parts = p.parts
  · rwa [s.kindOf?_congr (Path.equiv_iff.mpr hsame)]
  · rcases kindOf?_eq_directory_iff.mp hp with hroot | hstored
    · rw [hroot] at hq hsame
      rcases List.prefix_cons_iff.mp hq with hnil | ⟨rest, hrest, hprefix⟩
      · exact absurd hnil hne
      · rw [List.prefix_nil.mp hprefix] at hrest
        exact absurd hrest hsame
    · exact h.above hstored hq hsame hne

/-- What supports a directory is there. -/
theorem node?_of_supports (hdir : s.kindOf? p = some .directory) (hq : q.Supports p) :
    s.node? q = some .dir :=
  node?_of_directory hq.2.2 (h.directory_above hdir hq.1 hq.2.1)

/-- A directory can be made where no file is in the way. -/
theorem isOpen (habs : p.isAbsolute = true)
    (hclear : ∀ q : Path, q.Supports p → s.node? q = none ∨ s.node? q = some .dir) : s.IsOpen p :=
  ⟨habs, hclear, fun hdir _ ↦ h.node?_of_supports hdir⟩

/-- Where something may be stored, everything above is a directory. -/
theorem above_parent (hparent : s.requireParent p = .ok ()) (hq : q.parts <+: p.parts)
    (hsame : q.parts ≠ p.parts) (hne : q.parts ≠ []) : s.kindOf? q = some .directory := by
  have hlength : q.parts.length < p.parts.length :=
    Nat.lt_of_le_of_ne hq.length_le fun heq ↦ hsame (hq.eq_of_length heq)
  have hp : p.parts ≠ [] := fun hnil ↦ by simp [hnil] at hlength
  have hroot : p.parts ≠ [.root] := by
    intro hroot
    rw [hroot, List.length_singleton, Nat.lt_one_iff, List.length_eq_zero_iff] at hlength
    exact hne hlength
  obtain ⟨around, haround⟩ := Path.exists_parts p.parts.dropLast
  have hdir := directory_of_requireParent hparent hp hroot haround
  have hwithin : q.parts <+: around.parts := by
    rw [haround]
    exact (List.prefix_of_prefix_length_le hq (List.dropLast_prefix _)
      (by rw [List.length_dropLast]; omega))
  exact h.directory_above hdir hwithin hne

/-! ### What creates -/

/-- Directories can be stored where no file is in the way. -/
theorem insertDirs (hclear : ∀ q : Path, q.Supports p → s.node? q = none ∨ s.node? q = some .dir) :
    (s.insertDirs p).Closed := by
  have hdir : ∀ q : Path, q.Supports p → (s.insertDirs p).node? q = some .dir := by
    intro q hq
    rw [s.node?_insertDirs_of_ne p hq.2.1]
    rcases hclear q hq with hnone | hdir
    · rw [if_pos ⟨hnone, hq⟩]
    · rw [if_neg (by simp [hdir]), hdir]
  -- what is stored was stored before, or it supports the path
  have hold : ∀ {x : Path} {n : StoredNode}, (s.insertDirs p).node? x = some n → x.parts ≠ [] →
      s.node? x = some n ∨ x.Supports p := by
    intro x n hx hne
    rw [s.node?_insertDirs_of_ne p hne] at hx
    split at hx
    · exact .inr (And.right ‹_›)
    · exact .inl hx
  constructor
  · intro x q n hx hq hsame hne
    have hxne : x.parts ≠ [] := fun hnil ↦ hne (List.prefix_nil.mp (hnil ▸ hq))
    rcases hold hx hxne with hx | hx
    · exact (grows_insertDirs s p).kindOf?_keeps (h.above hx hq hsame hne)
    · rw [kindOf?_eq_directory_iff, or_iff_not_imp_left]
      intro hroot
      exact hdir q ⟨hq.trans hx.1, hne, by rwa [Bool.eq_false_iff, Ne, Path.isRoot_iff]⟩
  · intro x n hx hroot
    rcases hold hx (by simp [hroot]) with hx | hx
    · exact h.not_root hx hroot
    · have := hx.2.2
      rw [Path.isRoot_iff.mpr hroot] at this
      cases this

/-- Something can be stored in a directory, if no directory gives way to a file. -/
theorem insert (hparent : s.requireParent p = .ok ())
    (hkind : s.kindOf? p = some .directory → n = .dir) (hroot : p.parts ≠ [.root]) :
    (s.insert p n).Closed := by
  have hkeeps : ∀ q : Path, s.kindOf? q = some .directory →
      (s.insert p n).kindOf? q = some .directory := by
    intro q
    refine kindOf?_directory_of fun hq ↦ ?_
    rw [node?_insert]
    split
    · rename_i hpq
      have hdir : s.kindOf? p = some .directory := by
        rw [s.kindOf?_congr hpq]
        exact kindOf?_eq_directory_iff.mpr (.inr hq)
      rw [hkind hdir]
    · exact hq
  constructor
  · intro x q n' hx hq hsame hne
    refine hkeeps q ?_
    rw [node?_insert] at hx
    split at hx
    · rename_i hpx
      rw [← Path.equiv_iff.mp hpx] at hq hsame
      exact h.above_parent hparent hq hsame hne
    · exact h.above hx hq hsame hne
  · intro x n' hx
    rw [node?_insert] at hx
    split at hx
    · rename_i hpx
      rwa [← Path.equiv_iff.mp hpx]
    · exact h.not_root hx

end Closed

/-- What making a directory can do. -/
theorem mkdir_cases {recursive : Bool} (h : s.mkdir p recursive = .ok s') :
    s' = s ∨ s.kindOf? p = none ∧
      (s' = s.insertDirs p ∧ (∀ q ∈ p.ancestors, s.kindOf? q ≠ some .file) ∨
        s' = s.insert p .dir ∧ s.requireParent p = .ok ()) := by
  unfold mkdir at h
  split at h
  · exact .inl (Except.ok.inj h).symm
  · cases h
  · cases h
  · cases h
  · rename_i hnone
    split at h
    · cases h
    · rename_i hfree
      refine .inr ⟨hnone, .inl ⟨(Except.ok.inj h).symm, fun q hq ↦ ?_⟩⟩
      simpa using List.find?_eq_none.mp hfree q hq
  · rename_i hnone
    rcases hparent : s.requireParent p with e | ⟨⟩
    · rw [hparent] at h
      cases h
    · rw [hparent] at h
      exact .inr ⟨hnone, .inr ⟨(Except.ok.inj h).symm, rfl⟩⟩

/-- What a file was written to lies in a directory. -/
theorem write_cases {bytes : ByteArray} (h : s.write p bytes = .ok s') :
    s.kindOf? p ≠ some .directory ∧ s.requireParent p = .ok () ∧
      s' = s.insert p (.file bytes) := by
  unfold write at h
  split at h
  · cases h
  · rcases hparent : s.requireParent p with e | ⟨⟩
    · rw [hparent] at h
      cases h
    · rw [hparent] at h
      exact ⟨‹_›, rfl, (Except.ok.inj h).symm⟩

theorem copyFile_cases (h : s.copyFile source target = .ok s') :
    ∃ bytes, s.read source = .ok bytes ∧ s.write target bytes = .ok s' :=
  bind_eq_ok_iff.mp h

/-- A file is copied to where it can be written. -/
theorem copyFile_of_stored {bytes : ByteArray} (hfile : s.node? source = some (.file bytes))
    (hkind : s.kindOf? target ≠ some .directory) (hparent : s.requireParent target = .ok ()) :
    s.copyFile source target = .ok (s.insert target (.file bytes)) := by
  have hread : s.read source = .ok bytes := by rw [MemoryStore.read, hfile]
  simp only [MemoryStore.copyFile, hread, MemoryStore.write, if_neg hkind, hparent]
  rfl

/-- What removes has found something there; a directory that is not empty is not removed on its
own. -/
theorem rm_cases {recursive : Bool} (h : s.rm p recursive = .ok s') :
    s.kindOf? p ≠ none ∧ s.rm p true = .ok s' := by
  unfold rm at h ⊢
  split at h
  · cases h
  · rename_i hkind
    exact ⟨by simp [hkind], by simpa [hkind] using h⟩
  · rename_i hkind
    dsimp only at h
    split at h
    · cases h
    · exact ⟨by simp [hkind], by simpa [hkind] using h⟩

theorem unlink_cases (h : s.unlink p = .ok s') : s.kindOf? p = some .file ∧ s' = s.erase p := by
  unfold unlink at h
  split at h
  · exact ⟨‹_›, (Except.ok.inj h).symm⟩
  · cases h
  · cases h

theorem ne_root_of_kindOf? (h : s.kindOf? p ≠ some .directory) : p.parts ≠ [.root] :=
  fun hroot ↦ h (kindOf?_of_isRoot (Path.isRoot_iff.mpr hroot))

namespace Closed

variable (h : s.Closed)
include h

/-- **Making a directory** keeps a store closed. -/
theorem mkdir {recursive : Bool} (hmkdir : s.mkdir p recursive = .ok s') : s'.Closed := by
  rcases mkdir_cases hmkdir with rfl | ⟨hnone, ⟨rfl, hclear⟩ | ⟨rfl, hparent⟩⟩
  · exact h
  · refine h.insertDirs fun q hq ↦ ?_
    obtain ⟨r, hr, hrq⟩ := (Path.exists_equiv_iff hq.2.1).mpr hq.1
    have hkind : s.kindOf? q ≠ some .file := by
      rw [← s.kindOf?_congr hrq]
      rcases List.mem_cons.mp hr with rfl | hr
      · simp [hnone]
      · exact hclear r hr
    rw [kindOf?_of_not_root hq.2.2] at hkind
    rcases hnode : s.node? q with - | - | bytes
    · exact .inl rfl
    · exact .inr rfl
    · simp [hnode, StoredNode.kind] at hkind
  · have hother : s.kindOf? p ≠ some .directory := by simp [hnone]
    exact h.insert hparent (fun _ ↦ rfl) (ne_root_of_kindOf? hother)

/-- **Writing a file** keeps a store closed. -/
theorem write {bytes : ByteArray} (hwrite : s.write p bytes = .ok s') : s'.Closed := by
  obtain ⟨hkind, hparent, rfl⟩ := write_cases hwrite
  exact h.insert hparent (fun hdir ↦ absurd hdir hkind) (ne_root_of_kindOf? hkind)

theorem copyFile (hcopy : s.copyFile source target = .ok s') : s'.Closed := by
  obtain ⟨bytes, -, hwrite⟩ := copyFile_cases hcopy
  exact h.write hwrite

/-! ### What removes -/

/-- What is taken away with all that is below it leaves a store closed. -/
theorem of_removed {gone : Path → Prop} [DecidablePred gone]
    (hview : ∀ q, s'.node? q = if gone q then none else s.node? q)
    (hbelow : ∀ q x : Path, gone q → q.parts ≠ [] → q.parts <+: x.parts →
      gone x ∨ s.node? x = none) : s'.Closed := by
  have hold : ∀ {x : Path} {n : StoredNode}, s'.node? x = some n →
      ¬gone x ∧ s.node? x = some n := by
    intro x n hx
    rw [hview] at hx
    split at hx
    · cases hx
    · exact ⟨‹_›, hx⟩
  constructor
  · intro x q n hx hq hsame hne
    obtain ⟨hkept, hx⟩ := hold hx
    refine kindOf?_directory_of (fun hdir ↦ ?_) (h.above hx hq hsame hne)
    rw [hview, if_neg, hdir]
    intro hgone
    have hnone := (hbelow q x hgone hne hq).resolve_left hkept
    rw [hx] at hnone
    cases hnone
  · exact fun hx ↦ h.not_root (hold hx).2

theorem erase_file (hkind : s.kindOf? p = some .file) : (s.erase p).Closed := by
  refine h.of_removed (s.node?_erase p) fun q x hpq hne hq ↦ ?_
  rw [← Path.equiv_iff.mp hpq] at hne hq
  by_cases hpx : p ≈ x
  · exact .inl hpx
  · exact .inr (h.node?_eq_none_below_file hkind hne hq hpx)

/-- **Removing an entry** with what is below it keeps a store closed. -/
theorem rm {recursive : Bool} (hrm : s.rm p recursive = .ok s') : s'.Closed := by
  obtain ⟨hthere, hrm⟩ := rm_cases hrm
  rcases hkind : s.kindOf? p with - | - | -
  · exact absurd hkind hthere
  · obtain rfl : s.erase p = s' := by simpa [MemoryStore.rm, hkind] using hrm
    exact h.erase_file hkind
  · obtain ⟨s'', hrm', hview⟩ := rm_directory hkind
    obtain rfl := Except.ok.inj (hrm'.symm.trans hrm)
    refine h.of_removed hview fun q x hstart _ hq ↦ .inl ?_
    exact Path.startsWith_iff.mpr ((Path.startsWith_iff.mp hstart).trans hq)

/-- **Removing a file** keeps a store closed. -/
theorem unlink (hunlink : s.unlink p = .ok s') : s'.Closed := by
  obtain ⟨hkind, rfl⟩ := unlink_cases hunlink
  exact h.erase_file hkind

/-- **Removing an entry** leaves the entries that do not start with its path: a file has nothing
below it. -/
theorem rm_eq (hne : p.parts ≠ []) (hthere : s.kindOf? p ≠ none) :
    s.rm p true = .ok (s.without p) := by
  rcases hkind : s.kindOf? p with - | - | -
  · exact absurd hkind hthere
  · have herase : s.erase p = s.without p := by
      refine eq_of_entries (List.filter_congr fun e he ↦ congrArg Bool.not ?_)
      rw [Bool.eq_iff_iff, decide_eq_true_eq]
      refine ⟨Path.startsWith_of_equiv, fun hstart ↦ ?_⟩
      by_contra hother
      have hnone := h.node?_eq_none_below_file hkind hne (Path.startsWith_iff.mp hstart)
        fun hsame ↦ hother hsame.symm
      rw [node?_eq_some_iff.mpr ⟨e, he, rfl, rfl⟩] at hnone
      cases hnone
    rw [← herase, MemoryStore.rm, hkind]
  · exact rm_directory_eq hkind

/-- What is seen after removing an entry: nothing at the path and below it. -/
theorem node?_rm (hne : p.parts ≠ []) (hrm : s.rm p true = .ok s') (q : Path) :
    s'.node? q = if q.startsWith p then none else s.node? q := by
  obtain rfl := Except.ok.inj ((h.rm_eq hne (rm_cases hrm).1).symm.trans hrm)
  exact s.node?_without p q

/-- Clearing a path leaves nothing there, whether something was there or not. -/
theorem node?_clear (hne : p.parts ≠ []) (hclear : s.clear p = .ok s') (q : Path) :
    s'.node? q = if q.startsWith p then none else s.node? q := by
  unfold MemoryStore.clear at hclear
  split at hclear
  · obtain rfl := Except.ok.inj hclear
    split
    · rename_i hnone hstart
      exact h.node?_eq_none_below hnone hne (Path.startsWith_iff.mp hstart)
    · rfl
  · exact h.node?_rm hne hclear q

end Closed

/-! ### Bare paths -/

/-- Nothing is stored below the path. -/
def BareBelow (p : Path) (s : MemoryStore) : Prop :=
  ∀ e ∈ s.entries, e.path.startsWith p = true → e.path ≈ p

instance : Decidable (BareBelow p s) :=
  inferInstanceAs (Decidable (∀ e ∈ s.entries, e.path.startsWith p = true → e.path ≈ p))

theorem bareBelow_iff :
    BareBelow p s ↔ ∀ q : Path, q.startsWith p = true → ¬q ≈ p → s.node? q = none := by
  constructor
  · intro h q hstart hne
    by_contra hsome
    obtain ⟨n, hn⟩ := Option.ne_none_iff_exists'.mp hsome
    obtain ⟨e, he, heq, -⟩ := node?_eq_some_iff.mp hn
    have hparts := Path.equiv_iff.mp heq
    refine hne (Path.equiv_iff.mpr (hparts.symm.trans (Path.equiv_iff.mp (h e he ?_))))
    rwa [Path.startsWith, hparts]
  · intro h e he hstart
    by_contra hne
    have hnone := h e.path hstart hne
    rw [node?_eq_some_iff.mpr ⟨e, he, rfl, rfl⟩] at hnone
    cases hnone

/-- In a closed store nothing is below a path at which nothing is. -/
theorem Closed.bareBelow (h : s.Closed) (hp : s.kindOf? p = none) (hne : p.parts ≠ []) :
    BareBelow p s :=
  MemoryStore.bareBelow_iff.mpr fun _ hstart _ ↦
    h.node?_eq_none_below hp hne (Path.startsWith_iff.mp hstart)

/-- Nothing is below a file. -/
theorem Closed.bareBelow_file (h : s.Closed) (hp : s.kindOf? p = some .file) (hne : p.parts ≠ []) :
    BareBelow p s :=
  MemoryStore.bareBelow_iff.mpr fun _ hstart hother ↦
    h.node?_eq_none_below_file hp hne (Path.startsWith_iff.mp hstart) fun hsame ↦ hother hsame.symm

/-! ### Trees -/

/-- **A tree is a closed store of absolute paths.** -/
theorem wellFormed_iff_closed : s.WellFormed ↔
    s.Closed ∧ ∀ p n, s.node? p = some n → p.isAbsolute = true := by
  constructor
  · intro h
    refine ⟨⟨fun {p q n} hp hq hsame hne ↦ ?_, fun hp ↦ (h.parent hp).2.1⟩,
      fun p n hp ↦ h.isAbsolute hp⟩
    obtain ⟨rest, hrest⟩ := hq
    refine h.directory_above hp hne (fun hnil ↦ hsame ?_) hrest.symm
    rw [← hrest, hnil, List.append_nil]
  · rintro ⟨hclosed, habs⟩
    rw [wellFormed_iff]
    intro p n hp
    have hne := Path.parts_ne_nil_of_absolute (habs p n hp)
    have hroot := hclosed.not_root hp
    refine ⟨hne, hroot, fun q hq ↦ hclosed.above hp (hq ▸ List.dropLast_prefix _) ?_ ?_⟩
    · intro hsame
      have hlength := congrArg List.length (hq.symm.trans hsame)
      rw [List.length_dropLast] at hlength
      have := List.length_pos_iff.mpr hne
      omega
    · exact Path.parts_ne_nil_of_absolute (Path.isAbsolute_of_dropLast (habs p n hp) hroot hq)

theorem WellFormed.closed (h : s.WellFormed) : s.Closed := (wellFormed_iff_closed.mp h).1

end MemoryStore

end Scaffold
