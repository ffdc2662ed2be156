import Scaffold.Proofs.Store.Calls
import Scaffold.Proofs.Store.Directories
import Scaffold.Proofs.Store.Tree

/-!
# Calls that can be done again

A call that makes a directory or an empty file can be done again at any later time, and then it
answers the same and changes nothing, as long as everything that was there is still there and files
have at most been emptied (`Persists`). This holds of a call that succeeded, because what it made is
there; and of one that failed, because what was in its way is there.

That a file in the way is named by the error makes this more than an observation on single entries.
In a store that is a tree there is at most one file at or above a path
(`WellFormed.eq_of_file_above`), so whatever was made in between, the error names the same one.

`Settles` says this of a computation started in a store, and that the store stays a tree; it is
shown for the primitive calls and carried through sequences.
-/

namespace Scaffold

/-! ### Absolute paths -/

namespace Path

variable {p q r : Path}

theorem isPrefix_parts_extend (p : Path) (gap : String) (pieces : List Piece) (tail : String) :
    p.parts <+: (p.extend gap pieces tail).parts := by
  rcases pieces with - | ⟨piece, pieces⟩
  · exact List.prefix_rfl
  · rw [extend, parts, parts, List.map_append]
    exact List.prefix_append _ _

/-- What is seen from an absolute path is absolute. -/
theorem isAbsolute_join (hp : p.isAbsolute = true) (q : Path) : (p.join q).isAbsolute = true := by
  unfold join
  split
  · rename_i hq
    simpa [isEmpty_eq_false (parts_ne_nil_of_absolute hp)] using hq
  · dsimp only
    split
    · exact isAbsolute_of_prefix hp (isPrefix_parts_extend _ _ _ _)
    · exact isAbsolute_of_prefix hp (isPrefix_parts_extend _ _ _ _)

/-- What is at or above an absolute path is absolute, unless it is empty. -/
theorem isAbsolute_of_isPrefix (hp : p.isAbsolute = true) (h : q.parts <+: p.parts)
    (hq : q.parts ≠ []) : q.isAbsolute = true := by
  obtain ⟨rest, hrest⟩ := h
  obtain ⟨part, more, hparts⟩ := List.exists_cons_of_ne_nil hq
  rw [isAbsolute, ← hrest, hparts] at hp
  rw [isAbsolute, hparts]
  exact hp

/-- The parent of an absolute path is absolute. -/
theorem isAbsolute_of_dropLast (hp : p.isAbsolute = true) (hroot : p.parts ≠ [.root])
    (h : q.parts = p.parts.dropLast) : q.isAbsolute = true := by
  refine isAbsolute_of_isPrefix hp (h ▸ List.dropLast_prefix _) fun hnil ↦ hroot ?_
  rw [h] at hnil
  rcases hparts : p.parts with - | ⟨part, - | ⟨next, rest⟩⟩
  · exact absurd hparts (parts_ne_nil_of_absolute hp)
  · rw [isAbsolute, hparts] at hp
    simpa using hp
  · rw [hparts] at hnil
    cases hnil

/-- Ancestors that name the same are the same. -/
theorem eq_of_mem_ancestors (hq : q ∈ p.ancestors) (hr : r ∈ p.ancestors) (h : q ≈ r) : q = r := by
  obtain ⟨k, hk, -, rfl⟩ := mem_ancestors.mp hq
  obtain ⟨l, hl, -, rfl⟩ := mem_ancestors.mp hr
  have hlength := congrArg List.length (equiv_iff.mp h)
  simp only [parts, List.length_map, List.length_take] at hlength
  rw [show k = l by omega]

end Path

namespace MemoryStore

variable {s s' t : MemoryStore} {p q r : Path} {n : StoredNode}

/-! ### Storing what is stored -/

/-- **What is stored already** is left as it is, with its spelling. -/
theorem insert_of_node? (h : s.node? p = some n) : s.insert p n = s := by
  have hentries : ∀ l : List StoredEntry, PathSorted l →
      (l.find? fun e ↦ decide (e.path ≈ p)).map StoredEntry.node = some n →
      insertEntry ⟨p, n⟩ l = l := by
    intro l hsorted hfound
    induction l with
    | nil => cases hfound
    | cons x l ih =>
      obtain ⟨hx, hl⟩ := List.pairwise_cons.mp hsorted
      rw [insertEntry]
      split
      -- the path would be in front of all entries
      · rename_i hlt
        exfalso
        obtain ⟨e, he, -⟩ := Option.map_eq_some_iff.mp hfound
        have hep : e.path ≈ p := by simpa using List.find?_some he
        rcases List.mem_cons.mp (List.mem_of_find?_eq_some he) with rfl | hel
        · rw [Path.order_eq_iff.mpr (Path.equiv_iff.mp hep).symm] at hlt
          cases hlt
        · have hlater := Path.order_lt_trans hlt (hx e hel)
          rw [Path.order_eq_iff.mpr (Path.equiv_iff.mp hep).symm] at hlater
          cases hlater
      · rename_i heq
        have hxp : x.path ≈ p := (Path.order_eq_iff.mp heq).symm
        rw [List.find?_cons_of_pos (by simpa using hxp)] at hfound
        rw [← Option.some.inj hfound]
      · rename_i hgt
        have hxp : ¬x.path ≈ p := fun hxp ↦ by
          rw [Path.order_eq_iff.mpr (Path.equiv_iff.mp hxp).symm] at hgt
          cases hgt
        rw [List.find?_cons_of_neg (by simpa using hxp)] at hfound
        rw [ih hl hfound]
  cases s
  rw [insert, MemoryStore.mk.injEq]
  exact hentries _ ‹_› h

/-! ### Trees stay trees -/

theorem wellFormed_iff : s.WellFormed ↔ ∀ p n, s.node? p = some n →
    p.parts ≠ [] ∧ p.parts ≠ [.root] ∧
      ∀ q : Path, q.parts = p.parts.dropLast → s.kindOf? q = some .directory := by
  refine ⟨fun h p n hp ↦ h.parent hp, fun h e he ↦ ?_⟩
  obtain ⟨hne, hroot, hparent⟩ := h e.path e.node (node?_eq_some_iff.mpr ⟨e, he, rfl, rfl⟩)
  refine ⟨⟨e.path.pieces.dropLast, ""⟩, by simp [Path.parent?, hne, hroot], hparent _ ?_⟩
  rw [Path.parts, Path.parts, List.map_dropLast]

/-- A tree stays one when directories are stored where no file is in the way. -/
theorem WellFormed.insertDirs (h : s.WellFormed) (hp : p.isAbsolute = true)
    (hclear : ∀ q : Path, q.Supports p → s.node? q = none ∨ s.node? q = some .dir) :
    (s.insertDirs p).WellFormed := by
  rw [wellFormed_iff]
  intro q n hq
  rw [s.node?_insertDirs hp] at hq
  split at hq
  · rename_i hnew
    obtain ⟨-, hstarts, hne, hroot⟩ := hnew
    rw [Bool.eq_false_iff, Ne, Path.isRoot_iff] at hroot
    refine ⟨hne, hroot, fun r hr ↦ ?_⟩
    -- the parent supports the path too, or it is the root
    rcases hrroot : r.isRoot with - | -
    · have hqabs := Path.isAbsolute_of_isPrefix hp hstarts hne
      have hrabs := Path.isAbsolute_of_dropLast hqabs hroot hr
      have hsupports : r.Supports p :=
        ⟨hr ▸ (List.dropLast_prefix _).trans hstarts, Path.parts_ne_nil_of_absolute hrabs, hrroot⟩
      refine kindOf?_of_node? hrroot (n := .dir) ?_
      rw [s.node?_insertDirs hp]
      rcases hclear r hsupports with hnone | hdir
      · rw [if_pos ⟨hnone, hsupports⟩]
      · rw [if_neg (by simp [hdir]), hdir]
    · exact kindOf?_of_isRoot hrroot
  · obtain ⟨hne, hroot, hparent⟩ := h.parent hq
    exact ⟨hne, hroot, fun r hr ↦ (grows_insertDirs s p).kindOf?_keeps (hparent r hr)⟩

/-- Writing a file leaves directories alone. -/
theorem kindOf?_insert_file {bytes : ByteArray} (hp : s.kindOf? p ≠ some .directory)
    (hq : s.kindOf? q = some .directory) :
    (s.insert p (.file bytes)).kindOf? q = some .directory := by
  have hpq : ¬p ≈ q := fun hpq ↦ hp (s.kindOf?_congr hpq ▸ hq)
  rw [kindOf?, node?_insert, if_neg hpq]
  exact hq

/-- A tree stays one when a file is written into a directory. -/
theorem WellFormed.insert_file {bytes : ByteArray} (h : s.WellFormed) (hne : p.parts ≠ [])
    (hp : s.kindOf? p ≠ some .directory)
    (hparent : ∀ q : Path, q.parts = p.parts.dropLast → s.kindOf? q = some .directory) :
    (s.insert p (.file bytes)).WellFormed := by
  rw [wellFormed_iff]
  intro q n hq
  rw [node?_insert] at hq
  split at hq
  · rename_i hpq
    have hparts := Path.equiv_iff.mp hpq
    refine ⟨hparts ▸ hne, fun hroot ↦ ?_, fun r hr ↦ ?_⟩
    · exact hp (kindOf?_of_isRoot (Path.isRoot_iff.mpr (hparts.trans hroot)))
    · exact kindOf?_insert_file hp (hparent r (hparts ▸ hr))
  · obtain ⟨hne, hroot, hparent⟩ := h.parent hq
    exact ⟨hne, hroot, fun r hr ↦ kindOf?_insert_file hp (hparent r hr)⟩

theorem exists_node?_of_file (s : MemoryStore) (hp : s.kindOf? p = some .file) :
    ∃ n, s.node? p = some n := by
  have hroot : p.isRoot = false := s.isRoot_eq_false (by simp [hp])
  rw [kindOf?_of_not_root hroot, Option.map_eq_some_iff] at hp
  exact hp.imp fun n hn ↦ hn.1

/-- **At most one file** is at or above a path. -/
theorem WellFormed.eq_of_file_above (h : s.WellFormed) (hq : q.parts <+: p.parts)
    (hr : r.parts <+: p.parts) (hqfile : s.kindOf? q = some .file)
    (hrfile : s.kindOf? r = some .file) : q ≈ r := by
  have hbelow : ∀ a b : Path, s.kindOf? a = some .file → s.kindOf? b = some .file →
      a.parts <+: b.parts → a ≈ b := by
    rintro a b ha hb ⟨rest, hrest⟩
    obtain ⟨na, hna⟩ := s.exists_node?_of_file ha
    obtain ⟨nb, hnb⟩ := s.exists_node?_of_file hb
    rcases rest with - | ⟨part, rest⟩
    · rw [Path.equiv_iff, ← hrest, List.append_nil]
    · rw [h.directory_above hnb (h.parent hna).1 (List.cons_ne_nil part rest) hrest.symm] at ha
      cases ha
  rcases List.prefix_or_prefix_of_prefix hq hr with hqr | hrq
  · exact hbelow q r hqfile hrfile hqr
  · exact Path.equiv_iff.mpr (Path.equiv_iff.mp (hbelow r q hrfile hqfile hrq)).symm

/-! ### What is still there -/

/-- What is in `s` is still in `t`, except that files may have been emptied. -/
def Persists (s t : MemoryStore) : Prop :=
  ∀ q n, s.node? q = some n →
    t.node? q = some n ∨ n.kind = .file ∧ t.node? q = some (.file ByteArray.empty)

namespace Persists

theorem refl (s : MemoryStore) : Persists s s := fun _ _ h ↦ .inl h

theorem trans (h : Persists s s') (h' : Persists s' t) : Persists s t := by
  intro q n hq
  rcases h q n hq with hsame | ⟨hfile, hempty⟩
  · exact h' q n hsame
  · exact .inr ⟨hfile, (h' q _ hempty).elim id And.right⟩

/-- Kinds do not change. -/
theorem kindOf?_keeps {kind : EntryKind} (h : Persists s t) (hq : s.kindOf? q = some kind) :
    t.kindOf? q = some kind := by
  rcases hroot : q.isRoot with - | -
  · rw [kindOf?_of_not_root hroot] at hq
    obtain ⟨n, hn, rfl⟩ := Option.map_eq_some_iff.mp hq
    rcases h q n hn with hsame | ⟨hfile, hempty⟩
    · exact kindOf?_of_node? hroot hsame
    · rw [hfile]
      exact kindOf?_of_node? hroot hempty
  · rw [kindOf?_of_isRoot hroot] at hq ⊢
    exact hq

/-- An empty file stays one. -/
theorem empty_file (h : Persists s t) (hq : s.node? q = some (.file ByteArray.empty)) :
    t.node? q = some (.file ByteArray.empty) :=
  (h q _ hq).elim id And.right

theorem insert_file (hp : s.kindOf? p ≠ some .directory) :
    Persists s (s.insert p (.file ByteArray.empty)) := by
  intro q n hq
  rw [node?_insert]
  split
  · rename_i hpq
    refine .inr ⟨?_, rfl⟩
    rw [s.kindOf?_congr hpq] at hp
    rw [kindOf?_of_node? (s.isRoot_eq_false hp) hq] at hp
    cases n
    · exact absurd rfl hp
    · rfl
  · exact .inl hq

end Persists

theorem Grows.persists (h : Grows p s s') : Persists s s' := fun _ _ hq ↦ .inl (h.keeps hq)

/-! ### Doing it again -/

/-- Started in `s`, the computation leaves a tree in which everything is still there, and doing it
again, when more has been made behind it, answers the same and changes nothing. -/
structure Settles {α : Type} (x : StateM MemoryStore α) (s : MemoryStore) : Prop where
  wellFormed : (runFrom s x).2.WellFormed
  persists : Persists s (runFrom s x).2
  again : ∀ t : MemoryStore, t.WellFormed → Persists (runFrom s x).2 t →
    runFrom t x = ((runFrom s x).1, t)

namespace Settles

variable {α β : Type}

/-- A computation that answers the same everywhere and changes nothing. -/
theorem of_still {x : StateM MemoryStore α} {a : α} (hwf : s.WellFormed)
    (h : ∀ t : MemoryStore, runFrom t x = (a, t)) : Settles x s := by
  refine ⟨?_, ?_, fun t _ _ ↦ ?_⟩
  · rwa [h]
  · rw [h]
    exact .refl s
  · rw [h, h]

theorem pure (hwf : s.WellFormed) (a : α) : Settles (Pure.pure a) s :=
  of_still hwf fun _ ↦ rfl

/-- Sequences settle when their parts do. -/
theorem bind {x : StateM MemoryStore α} {f : α → StateM MemoryStore β} (hx : Settles x s)
    (hf : Settles (f (runFrom s x).1) (runFrom s x).2) : Settles (x >>= f) s where
  wellFormed := hf.wellFormed
  persists := hx.persists.trans hf.persists
  again t hwf ht := by
    rw [runFrom_bind] at ht ⊢
    rw [hx.again t hwf (hf.persists.trans ht)]
    exact hf.again t hwf ht

/-- Sequences that can fail settle too, at the same failure. -/
theorem attempt {x : Attempt (StateM MemoryStore) α} {f : α → Attempt (StateM MemoryStore) β}
    (hx : Settles x.run s)
    (hf : ∀ a s', runFrom s x.run = (.ok a, s') → Settles (f a).run s') :
    Settles (x >>= f).run s := by
  have hrest : ∀ r s', runFrom s x.run = (r, s') → Settles (ExceptT.bindCont f r) s' := by
    rintro (e | a) s' hrun
    · have hwf := hx.wellFormed
      rw [hrun] at hwf
      exact pure hwf _
    · exact hf a s' hrun
  exact bind hx (hrest _ _ rfl)

/-- A change that is made, and is there when it is made again. -/
theorem of_ok {f : MemoryStore → Update} (h : f s = .ok s') (hwf : s'.WellFormed)
    (hpersists : Persists s s') (hagain : ∀ t : MemoryStore, t.WellFormed → Persists s' t →
      f t = .ok t) : Settles (changing f).run s := by
  have hrun := run_changing_eq_ok_iff.mpr h
  refine ⟨?_, ?_, fun t ht hst ↦ ?_⟩
  · rwa [hrun]
  · rwa [hrun]
  · rw [hrun] at hst ⊢
    exact run_changing_eq_ok_iff.mpr (hagain t ht hst)

/-- A change that is refused, and is refused again for the same reason. -/
theorem of_error {f : MemoryStore → Update} {e : StorageError} (h : f s = .error e)
    (hwf : s.WellFormed) (hagain : ∀ t : MemoryStore, t.WellFormed → Persists s t →
      f t = .error e) : Settles (changing f).run s := by
  have hrun : ∀ t : MemoryStore, f t = .error e →
      runFrom t (changing f).run = (.error e, t) := by
    intro t ht
    show changing f t = _
    simp only [changing, ht]
  refine ⟨?_, ?_, fun t ht hst ↦ ?_⟩
  · rwa [hrun s h]
  · rw [hrun s h]
    exact .refl s
  · rw [hrun s h] at hst ⊢
    exact hrun t (hagain t ht hst)

end Settles

/-! ### Calls -/

/-- Nothing lies below a file. -/
theorem WellFormed.kindOf?_below_file (h : s.WellFormed) (hq : q ∈ p.ancestors)
    (hfile : s.kindOf? q = some .file) : s.kindOf? p = none := by
  obtain ⟨n, hn⟩ := s.exists_node?_of_file hfile
  obtain ⟨rest, hrest⟩ := Path.isPrefix_of_mem_ancestors hq
  have hne : rest ≠ [] := by
    rintro rfl
    obtain ⟨k, hk, -, rfl⟩ := Path.mem_ancestors.mp hq
    have hlength := congrArg List.length hrest
    simp only [Path.parts, List.append_nil, List.length_map, List.length_take] at hlength
    omega
  have hroot : p.isRoot = false := by
    rw [Bool.eq_false_iff, Ne, Path.isRoot_iff, ← hrest]
    intro hroot
    have hlength := congrArg List.length hroot
    have := List.length_pos_iff.mpr hne
    have := List.length_pos_iff.mpr (h.parent hn).1
    simp only [List.length_append, List.length_singleton] at hlength
    omega
  rw [kindOf?_of_not_root hroot, Option.map_eq_none_iff]
  by_contra hstored
  obtain ⟨n', hn'⟩ := Option.ne_none_iff_exists'.mp hstored
  rw [h.directory_above hn' (h.parent hn).1 hne hrest.symm] at hfile
  cases hfile

/-- **The file that is in the way** stays the one that is named. -/
theorem find?_blocking (hwf : t.WellFormed) (hpersists : Persists s t) {blocking : Path}
    (h : p.ancestors.find? (fun q ↦ s.kindOf? q = some .file) = some blocking) :
    blocking ∈ p.ancestors ∧ t.kindOf? blocking = some .file ∧
      p.ancestors.find? (fun q ↦ t.kindOf? q = some .file) = some blocking := by
  have hmem := List.mem_of_find?_eq_some h
  have hfile : t.kindOf? blocking = some .file :=
    hpersists.kindOf?_keeps (by simpa using List.find?_some h)
  refine ⟨hmem, hfile, ?_⟩
  rcases hfound : p.ancestors.find? (fun q ↦ t.kindOf? q = some .file) with - | found
  · exact absurd hfile (by simpa using List.find?_eq_none.mp hfound blocking hmem)
  · have hfoundMem := List.mem_of_find?_eq_some hfound
    rw [Path.eq_of_mem_ancestors hfoundMem hmem (hwf.eq_of_file_above
      (Path.isPrefix_of_mem_ancestors hfoundMem) (Path.isPrefix_of_mem_ancestors hmem)
      (by simpa using List.find?_some hfound) hfile)]

/-- **Making a directory** settles. -/
theorem settles_mkdir (hwf : s.WellFormed) (hp : p.isAbsolute = true) :
    Settles (changing (·.mkdir p true)).run s := by
  rcases hkind : s.kindOf? p with - | - | -
  · rcases hblocking : p.ancestors.find? (fun q ↦ s.kindOf? q = some .file) with - | blocking
    · have habove : ∀ q ∈ p.ancestors, s.kindOf? q ≠ some .file := by
        simpa using List.find?_eq_none.mp hblocking
      have hmade : s.mkdir p true = .ok (s.insertDirs p) := mkdir_of_free hkind habove
      have hclear := (clear_iff hp).mpr (List.forall_mem_cons.mpr ⟨by simp [hkind], habove⟩)
      refine .of_ok hmade (hwf.insertDirs hp hclear)
        (grows_insertDirs s p).persists fun t _ ht ↦ ?_
      have hdir := ht.kindOf?_keeps ((of_mkdir hmade).2
        (Path.isEmpty_eq_false (Path.parts_ne_nil_of_absolute hp)))
      simp only [mkdir, hdir]
    · have hrefused : s.mkdir p true = .error (.notADirectory blocking) := by
        simp only [mkdir, hkind, hblocking]
      refine .of_error hrefused hwf fun t ht hst ↦ ?_
      obtain ⟨hmem, hfile, hblocking'⟩ := find?_blocking ht hst hblocking
      simp only [mkdir, ht.kindOf?_below_file hmem hfile, hblocking']
  · have hrefused : s.mkdir p true = .error (.notADirectory p) := by simp only [mkdir, hkind]
    exact .of_error hrefused hwf fun t _ hst ↦ by simp only [mkdir, hst.kindOf?_keeps hkind]
  · have hthere : s.mkdir p true = .ok s := by simp only [mkdir, hkind]
    exact .of_ok hthere hwf (.refl s) fun t _ hst ↦ by
      simp only [mkdir, hst.kindOf?_keeps hkind]

/-- In memory, making sure of a directory is creating it. -/
theorem runFrom_ensureDir (s : MemoryStore) (p : Path) :
    runFrom s (backend.ensureDir p).run = runFrom s (changing (·.mkdir p true)).run := by
  simp only [Calls.ensureDir, runFrom_run_bind, runFrom_run_lift, runFrom_existsAs]
  split
  · rename_i hdir
    have hmade : s.mkdir p true = .ok s := by simp only [mkdir, beq_iff_eq.mp hdir]
    exact (run_changing_eq_ok_iff.mpr hmade).symm
  · rfl

/-- **Making sure of a directory** settles. -/
theorem settles_ensureDir (hwf : s.WellFormed) (hp : p.isAbsolute = true) :
    Settles (backend.ensureDir p).run s := by
  obtain ⟨hwf', hpersists, hagain⟩ := settles_mkdir hwf hp
  rw [← runFrom_ensureDir] at hwf' hpersists hagain
  exact ⟨hwf', hpersists, fun t ht hst ↦ (runFrom_ensureDir t p).trans (hagain t ht hst)⟩

/-- The directory in which something is stored is there. -/
theorem WellFormed.requireParent (h : s.WellFormed) (hp : s.node? p = some n) :
    s.requireParent p = .ok () := by
  unfold MemoryStore.requireParent
  split
  · rfl
  · rename_i parent hparent
    rw [(h.parent hp).2.2 parent (Path.parent?_eq_some hparent).1]

theorem directory_of_requireParent (h : s.requireParent p = .ok ()) (hne : p.parts ≠ [])
    (hroot : p.parts ≠ [.root]) (hq : q.parts = p.parts.dropLast) :
    s.kindOf? q = some .directory := by
  obtain ⟨parent, hparent⟩ : ∃ parent, p.parent? = some parent := by
    simp [Path.parent?, hne, hroot]
  have hsame : q ≈ parent := Path.equiv_iff.mpr (hq.trans (Path.parent?_eq_some hparent).1.symm)
  rw [s.kindOf?_congr hsame]
  rw [MemoryStore.requireParent, hparent] at h
  dsimp only at h
  split at h
  · assumption
  · cases h
  · cases h

/-- **Writing an empty file** settles, where the directory is there. -/
theorem settles_write (hwf : s.WellFormed) (hp : p.isAbsolute = true)
    (hparent : s.requireParent p = .ok ()) :
    Settles (backend.write p ByteArray.empty).run s := by
  by_cases hkind : s.kindOf? p = some .directory
  · have hrefused : ∀ t : MemoryStore, t.kindOf? p = some .directory →
        t.write p ByteArray.empty = .error (.isADirectory p) := fun t ht ↦ if_pos ht
    exact .of_error (hrefused s hkind) hwf fun t _ hst ↦ hrefused t (hst.kindOf?_keeps hkind)
  · have hwritten : ∀ t : MemoryStore, t.kindOf? p ≠ some .directory →
        t.requireParent p = .ok () →
        t.write p ByteArray.empty = .ok (t.insert p (.file ByteArray.empty)) := by
      intro t ht hrequired
      rw [write, if_neg ht, hrequired]
      rfl
    have hne := Path.parts_ne_nil_of_absolute hp
    have hroot : p.parts ≠ [.root] := fun hroot ↦
      hkind (kindOf?_of_isRoot (Path.isRoot_iff.mpr hroot))
    refine .of_ok (hwritten s hkind hparent)
      (hwf.insert_file hne hkind fun _ ↦ directory_of_requireParent hparent hne hroot)
      (.insert_file hkind) fun t ht hst ↦ ?_
    have hthere : t.node? p = some (.file ByteArray.empty) :=
      hst.empty_file (by rw [node?_insert, if_pos rfl])
    have hfile : t.kindOf? p ≠ some .directory := by
      rw [kindOf?_of_node? (s.isRoot_eq_false hkind) hthere]
      nofun
    rw [hwritten t hfile (ht.requireParent hthere), insert_of_node? hthere]

/-- **Making sure of the directory around an entry** settles, and then it is there. -/
theorem settles_ensureParent (hwf : s.WellFormed) (hp : p.isAbsolute = true) :
    Settles (Execution.ensureParent backend p).run s ∧
      ∀ s', runFrom s (Execution.ensureParent backend p).run = (.ok (), s') →
        s'.requireParent p = .ok () := by
  unfold Execution.ensureParent
  rcases hparent : p.parent? with - | parent
  · exact ⟨.pure hwf _, fun s' _ ↦ by rw [requireParent, hparent]⟩
  · obtain ⟨hparts, -, hroot⟩ := Path.parent?_eq_some hparent
    have habs := Path.isAbsolute_of_dropLast hp hroot hparts
    have hempty := Path.isEmpty_eq_false (Path.parts_ne_nil_of_absolute habs)
    simp only [hempty, Bool.false_eq_true, if_false]
    refine ⟨settles_ensureDir hwf habs, fun s' hmade ↦ ?_⟩
    have hdir := (of_mkdir (run_ensureDir_eq_ok_iff.mp hmade)).2 hempty
    simp only [requireParent, hparent, hdir]

end MemoryStore

end Scaffold
