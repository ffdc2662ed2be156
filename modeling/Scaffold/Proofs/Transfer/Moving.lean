import Scaffold.Proofs.Store.Upkeep
import Scaffold.Proofs.Transfer.Overlay

/-!
# Moving is renaming

An entry can be moved by copying it and removing it where it was, call by call, or it can be renamed
at once. Where nothing is at the target and the directory around it is there (`HasRoom`), both
succeed. Behind a copy the target shows what the source shows (`Copied`, `Overlaid.copied`,
`copied_insert`); once the source is removed this is what renaming leaves (`Copied.moved`). That
decides what is stored at each path (`Moved.node?_eq`), so the two leave the same
(`moveEntry_agrees_rename`), though perhaps under other spellings of the paths. Only the copy is
stopped by a name that is no text (`moveEntry_stops_at_broken_name`).
-/

namespace Scaffold

open MemoryStore

variable {s s' s₁ s₂ : MemoryStore} {p q r source target : Path} {n : StoredNode}

namespace MemoryStore

/-- Behind the root a name is neither the root nor the directory itself. -/
theorem Named.proper (h : s.Named) : s.Proper := by
  intro e he part hpart
  obtain ⟨names, hnames⟩ := Path.isNamed_iff.mp (h e he)
  rw [Path.equiv_iff.mp hnames, Path.parts_under] at hpart
  obtain ⟨name, -, rfl⟩ : ∃ name ∈ names, Part.entry name = part := by
    simpa [Path.root, Path.parts] using hpart
  simp

/-- **What is moved is moved to one store**, as far as can be seen. -/
theorem Moved.node?_eq (h₁ : Moved source target s s₁) (h₂ : Moved source target s s₂) (q : Path) :
    s₁.node? q = s₂.node? q := by
  rcases hstart : q.startsWith target with - | -
  · rw [h₁.elsewhere q hstart, h₂.elsewhere q hstart]
  · obtain ⟨rest, hrest⟩ := Path.startsWith_iff.mp hstart
    obtain ⟨r, hr⟩ := Path.exists_parts (source.parts ++ rest)
    rw [h₁.at_target hrest.symm hr, h₂.at_target hrest.symm hr]

/-! ### Places with room -/

/-- Nothing is at the path, and the directory in which it lies is there. -/
structure HasRoom (s : MemoryStore) (p : Path) : Prop where
  free : s.node? p = none
  around : ∃ parent, p.parent? = some parent ∧ s.kindOf? parent = some .directory

namespace HasRoom

variable (h : HasRoom s p)
include h

theorem requireParent : s.requireParent p = .ok () := by
  obtain ⟨parent, hparent, hdir⟩ := h.around
  rw [MemoryStore.requireParent, hparent]
  simp only [hdir]

theorem parts_ne_nil : p.parts ≠ [] := by
  obtain ⟨parent, hparent, -⟩ := h.around
  exact (Path.parent?_eq_some hparent).2.1

theorem isRoot_eq_false : p.isRoot = false := by
  obtain ⟨parent, hparent, -⟩ := h.around
  rw [Bool.eq_false_iff, Ne, Path.isRoot_iff]
  exact (Path.parent?_eq_some hparent).2.2

theorem kindOf?_eq_none : s.kindOf? p = none := by
  rw [kindOf?_of_not_root h.isRoot_eq_false, h.free]
  rfl

/-- A file can be copied to a place with room. -/
theorem copyFile {bytes : ByteArray} (hfile : s.node? source = some (.file bytes)) :
    s.copyFile source p = .ok (s.insert p (.file bytes)) :=
  copyFile_of_stored hfile (by simp [h.kindOf?_eq_none]) h.requireParent

/-- What lies in a directory of a tree is absolute. -/
theorem isAbsolute (hwf : s.WellFormed) : p.isAbsolute = true := by
  obtain ⟨parent, hparent, hdir⟩ := h.around
  refine Path.isAbsolute_of_prefix (p := parent) ?_
    ((Path.parent?_eq_some hparent).1 ▸ List.dropLast_prefix _)
  rcases kindOf?_eq_directory_iff.mp hdir with hroot | hstored
  · simp [Path.isAbsolute, hroot]
  · exact hwf.isAbsolute hstored

variable (hclosed : s.Closed)
include hclosed

/-- Nothing is stored below a place with room. -/
theorem node?_eq_none (hq : p.parts <+: q.parts) : s.node? q = none :=
  hclosed.node?_eq_none_below h.kindOf?_eq_none h.parts_ne_nil hq

/-- What is stored does not lie below a place with room. -/
theorem not_startsWith (hq : s.node? q = some n) : q.startsWith p = false := by
  rw [Bool.eq_false_iff, Ne, Path.startsWith_iff]
  intro hprefix
  rw [h.node?_eq_none hclosed hprefix] at hq
  cases hq

/-- Above a place with room there are directories. -/
theorem node?_of_supports (hq : q.Supports p) (hsame : ¬q ≈ p) : s.node? q = some .dir :=
  node?_of_directory hq.2.2 (hclosed.above_parent h.requireParent hq.1 hsame hq.2.1)

end HasRoom

/-- **Renaming** succeeds where something is stored and may be stored. -/
theorem exists_rename (hthere : s.kindOf? source ≠ none) (hinto : target.startsWith source = false)
    (hparent : s.requireParent target = .ok ()) : ∃ s', s.rename source target = .ok s' := by
  obtain ⟨s₁, hrm⟩ := exists_rm hthere
  obtain ⟨s₂, hclear⟩ := s₁.exists_clear target
  have hmoved : s.takenAlong source target =
      .ok ((s.subtree source).map fun e ↦ (e.path.relocate source target, e.node)) := by
    rw [takenAlong, if_neg hthere, hinto, hparent]
    rfl
  exact ⟨_, bind_eq_ok_iff.mpr ⟨_, hmoved, bind_eq_ok_iff.mpr ⟨s₁, hrm,
    bind_eq_ok_iff.mpr ⟨s₂, hclear, rfl⟩⟩⟩⟩

end MemoryStore

namespace Transfer

/-! ### Copies -/

/-- At and below the target there is now what is at and below the source; everything else is as it
was. -/
structure Copied (source target : Path) (s s' : MemoryStore) : Prop where
  at_target : ∀ {q r : Path} {rest : List Part}, q.parts = target.parts ++ rest →
    r.parts = source.parts ++ rest → s'.node? q = s.node? r
  elsewhere : ∀ q : Path, q.startsWith target = false → s'.node? q = s.node? q

/-- **A copy is a move** once the source is removed. -/
theorem Copied.moved (h : Copied source target s s₁) (hinto : target.startsWith source = false)
    (hbeside : source.startsWith target = false)
    (hview : ∀ q, s'.node? q = if q.startsWith source then none else s₁.node? q) :
    Moved source target s s' where
  at_target {q r rest} hq hr := by
    have houtside : q.startsWith source = false :=
      Path.startsWith_of_beside hinto hbeside (hq ▸ List.prefix_append _ _)
    rw [hview, houtside, h.at_target hq hr]
    rfl
  elsewhere q hq := by rw [hview, h.elsewhere q hq]

section HasRoom

variable (hclosed : s.Closed) (hroom : HasRoom s target)
include hclosed hroom

/-- **A directory that is laid over nothing** is copied. -/
theorem Overlaid.copied (h : Overlaid s source target s') (hnamed : s.Named)
    (hsource : s.node? source = some .dir) (hne : source.parts ≠ []) :
    Copied source target s s' where
  at_target {q r rest} hq hr := by
    have hsplit : ∀ names, target.under names ≈ q → source.under names ≈ r := by
      intro names hsame
      have hparts := Path.equiv_iff.mp hsame
      rw [Path.parts_under, hq, List.append_cancel_left_eq] at hparts
      rw [Path.equiv_iff, Path.parts_under, hr, hparts]
    rcases hthere : s.node? r with - | n
    · rw [h.elsewhere q fun names hsame ↦ by rw [s.node?_congr (hsplit names hsame), hthere],
        if_neg, hroom.node?_eq_none hclosed (hq ▸ List.prefix_append _ _)]
      -- only the target itself is both below the target and above it, and the source is there
      rintro ⟨-, hsupports, -, -⟩
      have hlength := hsupports.length_le
      rw [hq, List.length_append] at hlength
      have hnil : rest = [] := List.length_eq_zero_iff.mp (by omega)
      rw [hnil, List.append_nil] at hr
      rw [s.node?_congr (Path.equiv_iff.mpr hr), hsource] at hthere
      cases hthere
    · obtain ⟨names, hnames⟩ := hnamed.under_of_startsWith hthere hne
        (Path.startsWith_iff.mpr (hr ▸ List.prefix_append _ _))
      have hparts := Path.equiv_iff.mp hnames
      rw [hr, Path.parts_under, List.append_cancel_left_eq] at hparts
      have hsame : q ≈ target.under names := by
        rw [Path.equiv_iff, hq, Path.parts_under, hparts]
      rw [s'.node?_congr hsame]
      exact h.carried names n (by rw [← s.node?_congr hnames, hthere])
  elsewhere q hq := by
    rw [h.elsewhere q, if_neg]
    · rintro ⟨hnone, hsupports⟩
      have hsame : ¬q ≈ target := fun hsame ↦ by
        rw [Path.startsWith_of_equiv hsame] at hq
        cases hq
      rw [hroom.node?_of_supports hclosed hsupports hsame] at hnone
      cases hnone
    · intro names hsame
      rw [Path.startsWith_of_under (Path.equiv_iff.mp hsame).symm] at hq
      cases hq

/-- **A file that is written where nothing is** is copied. -/
theorem copied_insert {bytes : ByteArray} (hfile : s.node? source = some (.file bytes))
    (hroot : source.isRoot = false) (hne : source.parts ≠ []) :
    Copied source target s (s.insert target (.file bytes)) where
  at_target {q r rest} hq hr := by
    rw [node?_insert]
    rcases List.eq_nil_or_concat' rest with rfl | ⟨more, part, rfl⟩
    · rw [List.append_nil] at hq hr
      rw [if_pos (Path.equiv_iff.mpr hq.symm), s.node?_congr (Path.equiv_iff.mpr hr), hfile]
    -- nothing is below a file, and nothing is below the target
    · have hbelow : s.node? r = none :=
        hclosed.node?_eq_none_below_file (kindOf?_of_node? hroot hfile) hne
          (hr ▸ List.prefix_append _ _) (by simp [hr])
      rw [if_neg, hbelow, hroom.node?_eq_none hclosed (hq ▸ List.prefix_append _ _)]
      rw [Path.equiv_iff, hq]
      simp
  elsewhere q hq := by
    rw [node?_insert, if_neg]
    intro hsame
    rw [Path.startsWith_of_equiv (Path.equiv_iff.mp hsame).symm] at hq
    cases hq

end HasRoom

/-! ### Moves -/

section Moves

variable (hwf : s.WellFormed) (hroom : HasRoom s target)
  (hinto : target.startsWith source = false)
include hwf hroom

/-- Every directory fits where nothing is. -/
theorem fits_of_hasRoom : FitsOver s source target := by
  constructor
  · intro q bytes hq hfile
    have hsame : ¬q ≈ target := fun hsame ↦ by
      rw [s.node?_congr hsame, hroom.free] at hfile
      cases hfile
    have hdir := hwf.closed.above_parent hroom.requireParent hq hsame (hwf.parent hfile).1
    rw [hwf.kindOf? hfile] at hdir
    cases hdir
  · intro names n m _ hm
    rw [hroom.node?_eq_none hwf.closed (by rw [Path.parts_under]; exact List.prefix_append _ _)]
      at hm
    cases hm

include hinto

/-- **A directory** can be moved to a place with room, if the names in it are texts. -/
theorem moveEntry_directory (hnamed : s.Named) (hspelled : s.SpelledBelow source)
    (hsource : s.node? source = some .dir) :
    ∃ s', runFrom s (backend.moveEntry source target).run = (.ok (), s') ∧
      Moved source target s s' := by
  have hbeside := hroom.not_startsWith hwf.closed hsource
  have hne := (hwf.parent hsource).1
  have hdir : s.kindOf? source = some .directory := hwf.kindOf? hsource
  obtain ⟨found, hstat, hkind⟩ := s.stat_of_kindOf? source hdir
  obtain ⟨s₁, hcopy, hover⟩ := (fits_of_hasRoom hwf hroom).exists_overlaid hwf hspelled
    hsource (hroom.isAbsolute hwf) hinto hbeside
  have hcopied := hover.copied hwf.closed hroom hnamed hsource hne
  -- the copy has left the source as it was
  have hdir₁ : s₁.kindOf? source = some .directory :=
    kindOf?_directory_of (fun _ ↦ by rw [hcopied.elsewhere source hbeside, hsource]) hdir
  obtain ⟨s', hrm, hview⟩ := rm_directory hdir₁
  refine ⟨s', ?_, hcopied.moved hinto hbeside hview⟩
  refine run_bind_eq_ok_iff.mpr ⟨found, s, by rw [runFrom_stat, hstat], ?_⟩
  rw [hkind]
  exact run_bind_eq_ok_iff.mpr ⟨(), s₁, hcopy, runFrom_changing_of_ok hrm⟩

omit hinto in
/-- The file is written at once, since the directory around the target is there. -/
theorem run_copy_file {bytes : ByteArray} (hsource : s.node? source = some (.file bytes)) :
    runFrom s (backend.copy source target).run = (.ok (), s.insert target (.file bytes)) := by
  have hfile : s.kindOf? source = some .file := hwf.kindOf? hsource
  obtain ⟨found, hstat, hkind⟩ := s.stat_of_kindOf? source hfile
  obtain ⟨parent, hparent, haround⟩ := hroom.around
  have hensured : runFrom s (backend.ensureDir parent).run = (.ok (), s) :=
    run_ensureDir_eq_ok_iff.mpr (by simp [mkdir, haround])
  refine run_bind_eq_ok_iff.mpr ⟨found, s, by rw [runFrom_stat, hstat], ?_⟩
  rw [hkind]
  dsimp only
  rw [hparent]
  exact run_bind_eq_ok_iff.mpr ⟨(), s, hensured, runFrom_changing_of_ok (hroom.copyFile hsource)⟩

/-- **A file** can be moved to a place with room. -/
theorem moveEntry_file {bytes : ByteArray} (hsource : s.node? source = some (.file bytes)) :
    ∃ s', runFrom s (backend.moveEntry source target).run = (.ok (), s') ∧
      Moved source target s s' := by
  have hbeside := hroom.not_startsWith hwf.closed hsource
  have hne := (hwf.parent hsource).1
  have hroot := hwf.isRoot_eq_false hsource
  have hfile : s.kindOf? source = some .file := hwf.kindOf? hsource
  obtain ⟨found, hstat, hkind⟩ := s.stat_of_kindOf? source hfile
  have hcopy := run_copy_file hwf hroom hsource
  have hcopied := copied_insert hwf.closed hroom hsource hroot hne
  have hclosed₁ := hwf.closed.copyFile (hroom.copyFile hsource)
  set s₁ := s.insert target (.file bytes)
  -- the copy has left the source as it was
  have hfile₁ : s₁.kindOf? source = some .file :=
    kindOf?_of_node? hroot (by rw [hcopied.elsewhere source hbeside, hsource])
  have hunlink : s₁.unlink source = .ok (s₁.erase source) := by simp [unlink, hfile₁]
  have hrm : s₁.rm source true = .ok (s₁.erase source) := by simp [rm, hfile₁]
  refine ⟨s₁.erase source, ?_, hcopied.moved hinto hbeside (hclosed₁.node?_rm hne hrm)⟩
  refine run_bind_eq_ok_iff.mpr ⟨found, s, by rw [runFrom_stat, hstat], ?_⟩
  rw [hkind]
  exact run_bind_eq_ok_iff.mpr ⟨(), s₁, hcopy, runFrom_changing_of_ok hunlink⟩

end Moves

/-- A directory with a file in a directory, and a file beside it. -/
def sketchbook : MemoryStore :=
  (MemoryStore.empty.withFile (.ofText "/r/s/a/x") ⟨#[1]⟩).withFile (.ofText "/r/s.txt") ⟨#[2]⟩

end Transfer

end Scaffold
