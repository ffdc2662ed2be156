import Scaffold.Proofs.Store.Upkeep

/-!
# Renaming moves what can be asked

What is asked of a store is more than what is stored in it: the root is not stored and is a
directory all the same, and an error names the path that was asked for, not the one that it is
about. So that an entry has been moved (`Moved`) has yet to be read off the answers: what was
answered at and below the source is answered at and below the target, and the paths in errors move
along (`TakesPlace`).

There is one exception. The root is always answered to be a directory, so a file that is renamed to
it is no longer seen to be a file (`rename_takes_place_iff`).
-/

namespace Scaffold

/-- The same cause, with another path to blame. -/
def StorageError.blaming (e : StorageError) (p : Path) : StorageError :=
  match e with
  | notFound _ => notFound p
  | alreadyExists _ => alreadyExists p
  | notADirectory _ => notADirectory p
  | isADirectory _ => isADirectory p
  | permissionDenied _ => permissionDenied p
  | failed _ reason => failed p reason

namespace Path

variable {p q : Path}

/-- Joining a relative path appends parts that depend on that path alone. -/
theorem exists_parts_join (hq : q.isAbsolute = false) :
    ∃ steps, ∀ p : Path, p.parts ≠ [] → (p.join q).parts = p.parts ++ steps := by
  by_cases hdot : q.parts.head? = some .here
  · obtain ⟨pieces, tail⟩ := q
    rcases pieces with - | ⟨⟨dots, part⟩, pieces⟩
    · cases hdot
    · obtain rfl : part = .here := by simpa [parts] using hdot
      refine ⟨pieces.map Piece.part, fun p hp ↦ ?_⟩
      have hnot : ((⟨⟨dots, .here⟩ :: pieces, tail⟩ : Path).isAbsolute || p.isEmpty) = false := by
        rw [hq, isEmpty_eq_false hp]
        rfl
      rw [join, hnot]
      cases pieces <;> simp [extend, parts]
  · exact ⟨q.parts, fun p _ ↦ parts_join hq hdot⟩

theorem join_nil_equiv (p : Path) : p.join ⟨[], ""⟩ ≈ p :=
  (parts_join rfl (by simp [parts])).trans (List.append_nil _)

theorem isRoot_congr (h : p ≈ q) : p.isRoot = q.isRoot := by
  rw [isRoot, isRoot, equiv_iff.mp h]

/-- What is seen from a path is the root only from the root itself, so seen from two places it is
the root from the target if it is from the source. -/
theorem isRoot_join {source target rest : Path}
    (hinto : target.startsWith source = true → target ≈ source) (hsource : source.parts ≠ [])
    (htarget : target.isAbsolute = true) (hrest : rest.isAbsolute = false) :
    ((source.join rest).isRoot = true → (target.join rest).isRoot = true) ∧
      ((target.join rest).isRoot = true → target.isRoot = true ∧ source.join rest ≈ source) := by
  obtain ⟨steps, hsteps⟩ := exists_parts_join hrest
  have hfrom := hsteps source hsource
  have hto := hsteps target (parts_ne_nil_of_absolute htarget)
  constructor
  · intro hroot
    have hsplit := hfrom.symm.trans (isRoot_iff.mp hroot)
    obtain ⟨hsourceRoot, rfl⟩ :=
      (List.append_eq_singleton_iff.mp hsplit).resolve_left fun h ↦ hsource h.1
    have hsame : target ≈ source :=
      hinto (startsWith_of_isRoot htarget (isRoot_iff.mpr hsourceRoot))
    rw [isRoot_iff, hto, equiv_iff.mp hsame, hsourceRoot]
    rfl
  · intro hroot
    have hsplit := hto.symm.trans (isRoot_iff.mp hroot)
    obtain ⟨htargetRoot, rfl⟩ := (List.append_eq_singleton_iff.mp hsplit).resolve_left
      fun h ↦ parts_ne_nil_of_absolute htarget h.1
    exact ⟨isRoot_iff.mpr htargetRoot, hfrom.trans (List.append_nil _)⟩

end Path

namespace MemoryStore

variable {s s' : MemoryStore} {p q r source target : Path} {n : StoredNode}

/-! ### What an entry answers -/

/-- Entries that are stored alike are read alike, in two stores and under two paths. -/
theorem read_of_node? (h : s'.node? q = s.node? r)
    (hroot : s'.node? q = none → q.isRoot = r.isRoot) :
    s'.read q = (s.read r).mapError (·.blaming q) := by
  unfold read
  rw [← h]
  rcases hq : s'.node? q with - | - | bytes
  · rw [hroot hq]
    rcases r.isRoot with - | - <;> rfl
  · rfl
  · rfl

/-- Entries that are stored alike are inspected alike, unless one of them is the root. -/
theorem stat_of_node? (h : s'.node? q = s.node? r) (hroot : q.isRoot = r.isRoot) :
    s'.stat q = (s.stat r).mapError (·.blaming q) := by
  unfold stat
  rw [← h, hroot]
  rcases r.isRoot with - | -
  · rcases s'.node? q with - | n <;> rfl
  · rfl

theorem stat_of_file (hp : s.kindOf? p = some .file) : ∃ size, s.stat p = .ok ⟨.file, size⟩ := by
  obtain ⟨⟨kind, size⟩, hstat, rfl⟩ := s.stat_of_kindOf? p hp
  exact ⟨size, hstat⟩

theorem stat_of_directory (hp : s.kindOf? p = some .directory) :
    s.stat p = .ok StoredNode.dir.metadata := by
  unfold stat
  split
  · rfl
  · rw [node?_of_directory (Bool.eq_false_iff.mpr ‹_›) hp]

/-! ### Taking a place -/

/-- At and below the target there is the answer that was given at and below the source, where
nothing is left, unless the source itself lies there; elsewhere the answers are as they were. -/
structure TakesPlace (source target : Path) (s s' : MemoryStore) : Prop where
  stat : ∀ rest : Path, rest.isAbsolute = false →
    s'.stat (target.join rest) = (s.stat (source.join rest)).mapError (·.blaming (target.join rest))
  read : ∀ rest : Path, rest.isAbsolute = false →
    s'.read (target.join rest) = (s.read (source.join rest)).mapError (·.blaming (target.join rest))
  gone : source.startsWith target = false →
    ∀ q : Path, q.startsWith source = true → s'.kindOf? q = none
  beside : ∀ q : Path, q.startsWith source = false → q.startsWith target = false →
    s'.stat q = s.stat q ∧ s'.read q = s.read q

namespace Moved

variable (h : Moved source target s s')
include h

/-- Behind the target is what was behind the source. -/
theorem node?_join (hsource : source.parts ≠ []) (htarget : target.parts ≠ []) {rest : Path}
    (hrest : rest.isAbsolute = false) :
    s'.node? (target.join rest) = s.node? (source.join rest) := by
  obtain ⟨steps, hsteps⟩ := Path.exists_parts_join hrest
  exact h.at_target (hsteps target htarget) (hsteps source hsource)

/-- What is at or below the source and not at or below the target is gone. -/
theorem kindOf?_source (hinto : target.startsWith source = true → target ≈ source)
    (hsource : source.parts ≠ []) (htarget : target.isAbsolute = true)
    (hbeside : source.startsWith target = false) (hq : q.startsWith source = true) :
    s'.kindOf? q = none := by
  have hnot : target.startsWith source = false := by
    rw [Bool.eq_false_iff]
    intro hstart
    rw [Path.startsWith_of_equiv (Path.equiv_iff.mp (hinto hstart)).symm] at hbeside
    cases hbeside
  have hqtarget : q.startsWith target = false :=
    Path.startsWith_of_beside hbeside hnot (Path.startsWith_iff.mp hq)
  -- everything is at or below the root, so the source is not the root
  have hroot : q.isRoot = false := by
    rw [Bool.eq_false_iff]
    intro hroot
    have habove := Path.startsWith_iff.mp hq
    rw [Path.isRoot_iff.mp hroot] at habove
    have hsourceRoot : source.isRoot = true :=
      Path.isRoot_iff.mpr (habove.eq_of_length_le (List.length_pos_iff.mpr hsource))
    rw [Path.startsWith_of_isRoot htarget hsourceRoot] at hnot
    cases hnot
  rw [kindOf?_of_not_root hroot, h.elsewhere q hqtarget, if_pos hq]
  rfl

/-- What is beside both is answered as before. -/
theorem answers_beside (hqs : q.startsWith source = false) (hqt : q.startsWith target = false) :
    s'.stat q = s.stat q ∧ s'.read q = s.read q := by
  have hnode : s'.node? q = s.node? q := by
    rw [h.elsewhere q hqt, hqs]
    rfl
  rw [MemoryStore.stat, MemoryStore.stat, MemoryStore.read, MemoryStore.read, hnode]
  exact ⟨rfl, rfl⟩

section Behind

variable (hinto : target.startsWith source = true → target ≈ source)
  (hthere : s.kindOf? source ≠ none) (hsource : source.parts ≠ [])
  (htarget : target.isAbsolute = true) {rest : Path} (hrest : rest.isAbsolute = false)
include hinto hthere hsource htarget hrest

/-- What was read behind the source is read behind the target. -/
theorem read_join : s'.read (target.join rest) =
    (s.read (source.join rest)).mapError (·.blaming (target.join rest)) := by
  have hnode := h.node?_join hsource (Path.parts_ne_nil_of_absolute htarget) hrest
  obtain ⟨hup, hdown⟩ := Path.isRoot_join hinto hsource htarget hrest
  refine read_of_node? hnode fun hnone ↦ Bool.eq_iff_iff.mpr ⟨fun hroot ↦ ?_, hup⟩
  -- nothing is stored at the source and yet it is there, so it is the root
  obtain ⟨-, hsame⟩ := hdown hroot
  rw [hnode, s.node?_congr hsame] at hnone
  rw [Path.isRoot_congr hsame]
  by_contra hsourceRoot
  rw [kindOf?_of_not_root (Bool.eq_false_iff.mpr hsourceRoot), hnone] at hthere
  exact hthere rfl

/-- What was found out behind the source is found out behind the target, unless that is the root
and a file was moved there. -/
theorem stat_join (hseen : ¬(s.kindOf? source = some .file ∧ target.isRoot = true)) :
    s'.stat (target.join rest) =
      (s.stat (source.join rest)).mapError (·.blaming (target.join rest)) := by
  obtain ⟨hup, hdown⟩ := Path.isRoot_join hinto hsource htarget hrest
  by_cases hroot : (target.join rest).isRoot = true
  · obtain ⟨htargetRoot, hsame⟩ := hdown hroot
    have hdir : s.kindOf? source = some .directory := by
      rcases hkind : s.kindOf? source with - | - | -
      · exact absurd hkind hthere
      · exact absurd ⟨hkind, htargetRoot⟩ hseen
      · rfl
    rw [stat_of_directory (kindOf?_of_isRoot hroot),
      stat_of_directory ((s.kindOf?_congr hsame).trans hdir)]
    rfl
  · have hnode := h.node?_join hsource (Path.parts_ne_nil_of_absolute htarget) hrest
    exact stat_of_node? hnode (Bool.eq_iff_iff.mpr ⟨fun h ↦ absurd h hroot, hup⟩)

end Behind

/-- **What has been moved takes its place**, unless it is a file and the place is the root. -/
theorem takesPlace_iff (hinto : target.startsWith source = true → target ≈ source)
    (hthere : s.kindOf? source ≠ none) (hsource : source.parts ≠ [])
    (htarget : target.isAbsolute = true) :
    TakesPlace source target s s' ↔ ¬(s.kindOf? source = some .file ∧ target.isRoot = true) := by
  constructor
  · rintro htakes ⟨hfile, hroot⟩
    have hstat := htakes.stat ⟨[], ""⟩ rfl
    have hfrom := Path.join_nil_equiv source
    have hto := Path.join_nil_equiv target
    obtain ⟨size, hsize⟩ := stat_of_file ((s.kindOf?_congr hfrom).trans hfile)
    rw [stat_of_directory (kindOf?_of_isRoot (Path.isRoot_congr hto ▸ hroot)), hsize] at hstat
    cases hstat
  · intro hseen
    exact {
      stat := fun rest hrest ↦ h.stat_join hinto hthere hsource htarget hrest hseen
      read := fun rest hrest ↦ h.read_join hinto hthere hsource htarget hrest
      gone := fun hbeside q hq ↦ h.kindOf?_source hinto hsource htarget hbeside hq
      beside := fun q hqs hqt ↦ h.answers_beside hqs hqt }

end Moved

/-! ### Renaming -/

/-- **Renaming takes the place** of what is at the target, with all that is below the source: every
question about a path behind the target has the answer that it had behind the source, nothing is
left there, and everything beside the two is answered as before. This holds unless a file is renamed
to the root, which is answered to be a directory whatever is stored under it. -/
theorem rename_takes_place_iff (hwf : s.WellFormed) (hproper : s.Proper)
    (hsource : source.isAbsolute = true) (htarget : target.isAbsolute = true)
    (hrun : runFrom s (backend.rename source target).run = (.ok (), s')) :
    TakesPlace source target s s' ↔ ¬(s.kindOf? source = some .file ∧ target.isRoot = true) := by
  have hrename : s.rename source target = .ok s' := by
    rw [← run_changing_eq_ok_iff (f := (·.rename source target)), ← renameInPlace_eq_changing]
    exact hrun
  obtain ⟨hinto, -, s₁, -, hrm, -⟩ := rename_cases hrename
  have hsourceNe := Path.parts_ne_nil_of_absolute hsource
  have hmoved := hwf.closed.moved_of_rename hproper hsourceNe
    (Path.parts_ne_nil_of_absolute htarget) hrename
  exact hmoved.takesPlace_iff hinto (rm_cases hrm).1 hsourceNe htarget

/-- A directory is renamed to the one that it lies in: what else was there is lost, and what is
behind it answers one name higher up. -/
theorem rename_takes_place_upwards :
    let store := (empty.withFile (.ofText "/a/b/f") "1".toUTF8).withFile (.ofText "/a/g") "2".toUTF8
    ∃ after, runFrom store (backend.rename (.ofText "/a/b") (.ofText "/a")).run = (.ok (), after) ∧
      TakesPlace (.ofText "/a/b") (.ofText "/a") store after ∧
      after.entries.map (·.path.text) = ["/a", "/a/f"] := by
  intro store
  have hrun := runFrom_eq_ok (s := store)
    (x := backend.rename (.ofText "/a/b") (.ofText "/a")) (by decide +kernel)
  refine ⟨_, hrun, ?_, by decide +kernel⟩
  exact (rename_takes_place_iff (by decide +kernel) (by decide +kernel) (by decide +kernel)
    (by decide +kernel) hrun).mpr (by decide +kernel)

/-- A file that is renamed to the root is stored there, and the root is still answered to be a
directory. -/
theorem rename_to_root_hides_file :
    let store := empty.withFile (.ofText "/a") "1".toUTF8
    let after := (runFrom store (backend.rename (.ofText "/a") .root).run).2
    (store.WellFormed ∧ store.Proper) ∧
      (runFrom store (backend.rename (.ofText "/a") .root).run).1 = .ok () ∧
      store.stat (.ofText "/a") = .ok ⟨.file, 1⟩ ∧ after.stat .root = .ok ⟨.directory, 0⟩ ∧
      after.read .root = .ok "1".toUTF8 ∧ ¬TakesPlace (.ofText "/a") .root store after := by
  intro store after
  refine ⟨by decide +kernel, by decide +kernel, by decide +kernel, by decide +kernel,
    by decide +kernel, fun htakes ↦ ?_⟩
  have hstat := htakes.stat ⟨[], ""⟩ rfl
  revert hstat
  decide +kernel

end MemoryStore

end Scaffold
