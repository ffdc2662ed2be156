import Scaffold.Proofs.Disk.Asking

/-!
# Making things on a disk

What is made in a store can be made in the same way on a disk that mirrors it, and then the disk
mirrors the store again (`Disk.Follows`); what cannot be made in the store cannot be made on the
disk.

A directory together with those above it is made by trying the last one first and going up for as
long as the disk says that something above is missing (`System.createDirsFrom`). That ends, at the
latest, at the directory below which the disk mirrors the store (`Mirrors.follows_createDirs`).
-/

namespace Scaffold

namespace Path

variable {W p : Path} {init : List EntryName} {name last : EntryName}

/-- The ancestors of a path behind the root are its parent and the ancestors of that. -/
theorem ancestors_eq_cons (habs : p.isAbsolute = true) (hlength : 2 ≤ p.pieces.length) :
    p.ancestors = ⟨p.pieces.dropLast, ""⟩ :: Path.ancestors ⟨p.pieces.dropLast, ""⟩ := by
  obtain ⟨pieces, tail⟩ := p
  rcases List.eq_nil_or_concat' pieces with rfl | ⟨more, final, rfl⟩
  · simp at hlength
  have hmore : 1 ≤ more.length := by
    rw [List.length_append, List.length_singleton] at hlength
    omega
  have habs' : Path.isAbsolute ⟨more, ""⟩ = true := by
    obtain ⟨first, rest, rfl⟩ := List.exists_cons_of_length_pos hmore
    exact habs
  simp only [ancestors, habs, habs', if_true, List.dropLast_concat, List.length_append,
    List.length_singleton, List.range_succ, List.filter_append, List.reverse_append]
  rw [show [more.length].filter (1 ≤ ·) = [more.length] by simp [hmore], List.reverse_singleton,
    List.singleton_append, List.map_cons, List.take_left]
  congr 1
  refine List.map_congr_left fun k hk ↦ ?_
  have hk : k < more.length := by simp at hk; omega
  rw [List.take_append_of_le_length hk.le]

/-- A path is not shorter than its parent. -/
theorem size_parent_le (p : Path) : Path.size ⟨p.pieces.dropLast, ""⟩ ≤ p.size := by
  obtain ⟨pieces, tail⟩ := p
  rcases List.eq_nil_or_concat' pieces with rfl | ⟨more, last, rfl⟩
  · exact Nat.zero_le _
  · have hsize := size_concat more last "" tail
    rw [String.utf8ByteSize_empty] at hsize
    rw [List.dropLast_concat]
    omega

/-- The text of a path starts with the text of its parent. -/
theorem text_eq_parent_append (p : Path) :
    ∃ rest, p.text = Path.text ⟨p.pieces.dropLast, ""⟩ ++ rest := by
  rw [List.dropLast_eq_take]
  exact p.text_eq_append _

theorem hasNul_of_parent (h : Path.HasNul ⟨p.pieces.dropLast, ""⟩) : p.HasNul := by
  obtain ⟨rest, hrest⟩ := p.text_eq_parent_append
  rw [HasNul, hrest, String.toList_append, List.mem_append]
  exact .inl h

theorem Leads.parent (hp : W.Leads p (init ++ [last]) name) :
    W.Leads ⟨p.pieces.dropLast, ""⟩ init last where
  equiv := by
    rw [equiv_iff, ← under_snoc, parts, List.map_dropLast, ← parts, hp.parts_around,
      List.dropLast_concat]
  undotted := List.not_mem_nil
  fits := Nat.lt_of_le_of_lt p.size_parent_le hp.fits
  short n hn := hp.short n (List.mem_append_left _ hn)

theorem Leads.ancestors_eq_cons (hp : W.Leads p (init ++ [last]) name)
    (habs : p.isAbsolute = true) :
    p.ancestors = ⟨p.pieces.dropLast, ""⟩ :: Path.ancestors ⟨p.pieces.dropLast, ""⟩ := by
  refine Path.ancestors_eq_cons habs ?_
  have hlength : p.pieces.length = p.parts.length := by rw [parts, List.length_map]
  have habove := List.length_pos_iff.mpr hp.parent.parts_ne_nil
  rw [parts, List.map_dropLast, List.length_dropLast, ← parts] at habove
  omega

end Path

namespace MemoryStore

variable {s : MemoryStore} {p q around : Path} {name : EntryName}

/-- A file is above a path when it is one of the ancestors. -/
theorem isBarred_iff (hp : p.parts = around.parts ++ [.entry name]) (habs : p.isAbsolute = true) :
    s.IsBarred around ↔ ∃ q ∈ p.ancestors, s.kindOf? q = some .file := by
  constructor
  · rintro ⟨q, hq, hne, hfile⟩
    obtain ⟨r, hr, hrq⟩ := (Path.exists_equiv_iff (p := p) hne).mpr (hq.trans (by simp [hp]))
    refine ⟨r, (List.mem_cons.mp hr).resolve_left ?_, by rwa [s.kindOf?_congr hrq]⟩
    rintro rfl
    have hlength := hq.length_le
    rw [← Path.equiv_iff.mp hrq, hp, List.length_append, List.length_singleton] at hlength
    omega
  · rintro ⟨q, hq, hfile⟩
    refine ⟨q, ?_, Path.parts_ne_nil_of_mem_ancestors habs (List.mem_cons_of_mem _ hq), hfile⟩
    obtain ⟨k, hk, -, rfl⟩ := Path.mem_ancestors.mp hq
    have hlength : p.pieces.length = around.parts.length + 1 := by
      rw [← List.length_map Piece.part, ← Path.parts, hp]
      simp
    rw [Path.parts, List.map_take, ← Path.parts, hp, List.take_append_of_le_length (by omega)]
    exact List.take_prefix _ _

/-- Where a directory is, with those above it, none is missing. -/
theorem Closed.node?_insertDirs_of_directory (h : s.Closed) (habs : p.isAbsolute = true)
    (hdir : s.kindOf? p = some .directory) (q : Path) : (s.insertDirs p).node? q = s.node? q := by
  rw [s.node?_insertDirs habs, if_neg]
  rintro ⟨hnone, hstarts, hne, hroot⟩
  have hkind := h.directory_above hdir hstarts hne
  rw [kindOf?_of_not_root hroot, hnone] at hkind
  cases hkind

/-- Making directories is making those above and then the last one. -/
theorem node?_insertDirs_concat (hp : p.parts = around.parts ++ [.entry name])
    (habs : around.isAbsolute = true) (hnone : s.node? p = none) (q : Path) :
    (s.insertDirs p).node? q = ((s.insertDirs around).insert p .dir).node? q := by
  have hpabs : p.isAbsolute = true :=
    Path.isAbsolute_of_prefix habs (hp ▸ List.prefix_append _ _)
  rw [node?_insert, s.node?_insertDirs hpabs, s.node?_insertDirs habs]
  simp only [Path.supports_concat_iff hp]
  by_cases hpq : p ≈ q
  · rw [if_pos hpq, if_pos ⟨s.node?_congr hpq ▸ hnone, .inl hpq⟩]
  · simp only [hpq, false_or, if_false]

/-! ### What the store makes -/

section Calls

variable {W : Path} {init : List EntryName} {s' : MemoryStore} (hp : W.Leads p init name)
include hp

theorem mkdir_false_eq_ok_iff : s.mkdir p false = .ok s' ↔
    (s.node? p = none ∧ s.kindOf? (W.under init) = some .directory) ∧ s.insert p .dir = s' := by
  have hkind := hp.kindOf?_eq s
  unfold mkdir
  rw [← requireParent_iff hp.parts_around]
  rcases hnode : s.node? p with _ | _ | bytes
  all_goals rw [hnode] at hkind
  · simp only [hkind, Option.map_none]
    rcases s.requireParent p with e | ⟨⟩
    · simp [bind, Except.bind]
    · simp [bind, Except.bind, pure, Except.pure]
  · simp [hkind, StoredNode.kind]
  · simp [hkind, StoredNode.kind]

theorem mkdir_true_eq_ok_iff (habs : p.isAbsolute = true) : s.mkdir p true = .ok s' ↔
    (s.kindOf? p = some .directory ∧ s = s') ∨
      (s.node? p = none ∧ ¬s.IsBarred (W.under init)) ∧ s.insertDirs p = s' := by
  have hkind := hp.kindOf?_eq s
  unfold mkdir
  rw [isBarred_iff hp.parts_around habs]
  rcases hnode : s.node? p with _ | _ | bytes
  all_goals rw [hnode] at hkind
  · simp only [hkind, Option.map_none]
    rcases hfind : p.ancestors.find? fun q ↦ s.kindOf? q = some .file with - | blocking
    · rw [List.find?_eq_none] at hfind
      have hfree : ¬∃ q ∈ p.ancestors, s.kindOf? q = some .file := by
        rintro ⟨q, hq, hfile⟩
        exact hfind q hq (by simp [hfile])
      simp [hfree]
    · have hbarred : ∃ q ∈ p.ancestors, s.kindOf? q = some .file :=
        ⟨blocking, List.mem_of_find?_eq_some hfind, by simpa using List.find?_some hfind⟩
      simp [hbarred]
  · simp [hkind, StoredNode.kind]
  · simp [hkind, StoredNode.kind]

theorem write_eq_ok_iff {bytes : ByteArray} : s.write p bytes = .ok s' ↔
    (s.kindOf? p ≠ some .directory ∧ s.kindOf? (W.under init) = some .directory) ∧
      s.insert p (.file bytes) = s' := by
  rw [← requireParent_iff hp.parts_around, write]
  split
  · simp_all
  · rcases s.requireParent p with e | ⟨⟩
    · simp [bind, Except.bind]
    · simp_all [bind, Except.bind, pure, Except.pure]

end Calls

end MemoryStore

namespace Disk

variable {ε : Type} {W : Path} {loc : Location} {s s' : MemoryStore} {d d' : Disk}

/-- The computation succeeds, and it leaves a disk that mirrors the store. -/
def Follows (W : Path) (loc : Location) (s' : MemoryStore) (d : Disk)
    (x : ExceptT ε (StateM Disk) Unit) : Prop :=
  ∃ d', runFrom d x.run = (.ok (), d') ∧ Mirrors W loc s' d'

theorem Follows.blaming {call : OsCall (StateM Disk) Unit} (h : Follows W loc s' d call)
    (p : Path) : Follows W loc s' d (System.blaming p call) := by
  obtain ⟨d', hrun, hd'⟩ := h
  exact ⟨d', runFrom_blaming hrun p, hd'⟩

/-- What follows behind a computation that has left the disk as it is. -/
theorem Follows.behind {α : Type} {a : α} {x : ExceptT ε (StateM Disk) α}
    {f : α → ExceptT ε (StateM Disk) Unit} (hx : runFrom d x.run = (.ok a, d))
    (hf : Follows W loc s' d (f a)) : Follows W loc s' d (x >>= f) := by
  obtain ⟨d', hrun, hd'⟩ := hf
  refine ⟨d', ?_, hd'⟩
  rw [runFrom_run_bind, hx]
  exact hrun

/-! ### Trying to make a directory -/

section MkdirOr

variable {p : Path} {missing : OsCall (StateM Disk) Unit} {e : OsError}

theorem runFrom_mkdirOr (h : d.mkdir p = .ok d') :
    runFrom d (system.mkdirOr p missing).run = (.ok (), d') := by
  rw [System.mkdirOr, runFrom_run_bind, runFrom_lift,
    show runFrom d (system.mkdir p).run = _ from runFrom_changing h]
  rfl

/-- Where something above is missing, what is to be done then is done. -/
theorem runFrom_mkdirOr_of_missing (h : d.mkdir p = .error (.errno .noEntry)) :
    runFrom d (system.mkdirOr p missing).run = runFrom d missing.run := by
  rw [System.mkdirOr, runFrom_run_bind, runFrom_lift,
    show runFrom d (system.mkdir p).run = _ from runFrom_changing_of_error h]
  rfl

/-- What is a directory already is left as it is. -/
theorem runFrom_mkdirOr_of_isDir (h : d.mkdir p = .error e) (he : e ≠ .errno .noEntry)
    (hdir : runFrom d (system.isDir p) = (true, d)) :
    runFrom d (system.mkdirOr p missing).run = (.ok (), d) := by
  rw [System.mkdirOr, runFrom_run_bind, runFrom_lift,
    show runFrom d (system.mkdir p).run = _ from runFrom_changing_of_error h]
  simp only [if_neg he]
  rw [runFrom_run_bind, runFrom_run_lift, hdir]
  rfl

theorem fails_mkdirOr (h : d.mkdir p = .error e) (he : e ≠ .errno .noEntry)
    (hother : runFrom d (system.isDir p) = (false, d)) : Fails d (system.mkdirOr p missing) := by
  refine ⟨e, ?_⟩
  rw [System.mkdirOr, runFrom_run_bind, runFrom_lift,
    show runFrom d (system.mkdir p).run = _ from runFrom_changing_of_error h]
  simp only [if_neg he]
  rw [runFrom_run_bind, runFrom_run_lift, hother]
  rfl

end MkdirOr

namespace Mirrors

variable {p : Path} {init : List EntryName} {name : EntryName}

section Primitive

variable (h : Mirrors W loc s d) (hp : W.Leads p init name)
include h hp

theorem child?_eq : d.child? (loc ++ init) name = .ok ((s.node? p).map .ofStored) := by
  rw [child?, if_neg (Nat.not_lt.mpr hp.name_short), h.node?_eq hp]

theorem mkdir_of_free (hnul : ¬p.HasNul) (hdir : s.kindOf? (W.under init) = some .directory)
    (hnone : s.node? p = none) : d.mkdir p = .ok (d.insert (loc ++ init ++ [name]) .dir) := by
  rw [mkdir, h.lastHop_of_directory hp hnul hdir]
  show (d.child? (loc ++ init) name >>= _ : Except OsError Disk) = _
  rw [h.child?_eq hp, hnone]
  rfl

theorem mkdir_of_there (hnul : ¬p.HasNul) (hthere : s.node? p ≠ none) :
    d.mkdir p = .error (.errno .exists_) := by
  obtain ⟨n, hn⟩ := Option.ne_none_iff_exists'.mp hthere
  rw [mkdir, h.lastHop_of_directory hp hnul (h.around_of_node? hp hthere)]
  show (d.child? (loc ++ init) name >>= _ : Except OsError Disk) = _
  rw [h.child?_eq hp, hn]
  rfl

/-- Without the directory around it no directory is made. -/
theorem mkdir_of_not_directory (hnul : ¬p.HasNul)
    (hdir : s.kindOf? (W.under init) ≠ some .directory) :
    (s.IsBarred (W.under init) ∧ d.mkdir p = .error (.errno .notDirectory)) ∨
      ¬s.IsBarred (W.under init) ∧ d.mkdir p = .error (.errno .noEntry) := by
  refine (h.lastHop_of_not_directory hp hnul hdir).imp ?_ ?_
  all_goals
    rintro ⟨hbarred, he⟩
    refine ⟨hbarred, ?_⟩
    rw [mkdir, he]
    rfl

end Primitive

theorem isAbsolute_under (h : Mirrors W loc s d) (names : List EntryName) :
    (W.under names).isAbsolute = true :=
  Path.isAbsolute_of_prefix h.isAbsolute (by simp)

theorem isAbsolute_of_leads (h : Mirrors W loc s d) (hp : W.Leads p init name) :
    p.isAbsolute = true :=
  Path.isAbsolute_of_prefix (h.isAbsolute_under init) (hp.parts_around ▸ List.prefix_append _ _)

/-! ### Making directories from the bottom up -/

theorem createDirsFrom_eq_mkdirOr (hp : W.Leads p init name) (above : List Path) :
    ∃ missing, system.createDirsFrom p above = system.mkdirOr p missing := by
  have hempty := Path.isEmpty_eq_false hp.parts_ne_nil
  rcases above with - | ⟨parent, above⟩ <;>
  · rw [System.createDirsFrom, hempty]
    exact ⟨_, rfl⟩

/-- In a directory that is there, making the last one is enough. -/
theorem follows_createDirs_of_directory (h : Mirrors W loc s d) (hp : W.Leads p init name)
    (hnul : ¬p.HasNul) (hnone : s.node? p = none)
    (hdir : s.kindOf? (W.under init) = some .directory) :
    Follows W loc (s.insertDirs p) d (system.createDirs p) := by
  obtain ⟨missing, hcreate⟩ := createDirsFrom_eq_mkdirOr hp p.ancestors
  have hinserted := h.insert (n := .dir) hp hnul hdir fun _ ↦ rfl
  refine ⟨_, ?_, hinserted.congr fun q ↦ ?_⟩
  · rw [System.createDirs, hcreate]
    exact runFrom_mkdirOr (h.mkdir_of_free hp hnul hdir hnone)
  · have habs := h.isAbsolute_under init
    rw [MemoryStore.node?_insertDirs_concat hp.parts_around habs hnone,
      MemoryStore.node?_insert, MemoryStore.node?_insert,
      h.closed.node?_insertDirs_of_directory habs hdir]

/-- **Making a directory with those above it**, where no file is in the way. -/
theorem follows_createDirs (h : Mirrors W loc s d) (hp : W.Leads p init name) (hnul : ¬p.HasNul)
    (hnone : s.node? p = none) (hfree : ¬s.IsBarred (W.under init)) :
    Follows W loc (s.insertDirs p) d (system.createDirs p) := by
  induction init using List.reverseRecOn generalizing p name with
  | nil => exact h.follows_createDirs_of_directory hp hnul hnone h.directory
  | append_singleton init last ih =>
    by_cases hdir : s.kindOf? (W.under (init ++ [last])) = some .directory
    · exact h.follows_createDirs_of_directory hp hnul hnone hdir
    -- the directory around is missing, and it is made first
    set parent : Path := ⟨p.pieces.dropLast, ""⟩ with hparentEq
    have hparent : W.Leads parent init last := hp.parent
    have hsame : parent ≈ W.under (init ++ [last]) := hparent.equiv_under
    have hparts : p.parts = parent.parts ++ [.entry name] := by
      rw [hp.parts_around, Path.equiv_iff.mp hsame]
    have hparentNul : ¬parent.HasNul := fun hnul' ↦ hnul (Path.hasNul_of_parent hnul')
    have hparentNone : s.node? parent = none := by
      have hkind := MemoryStore.kindOf?_eq_none_of_not_isBarred hfree (h.parts_under_ne_nil _) hdir
      rwa [← s.kindOf?_congr hsame, hparent.kindOf?_eq, Option.map_eq_none_iff] at hkind
    have hparentFree : ¬s.IsBarred (W.under init) := by
      intro hbarred
      rw [Path.under_snoc, MemoryStore.isBarred_child_iff] at hfree
      exact hfree (.inl hbarred)
    obtain ⟨d₁, hrun₁, hd₁⟩ := ih hparent hparentNul hparentNone hparentFree
    -- behind that the last one can be made
    have habs := h.isAbsolute_of_leads hparent
    have hdir₁ : (s.insertDirs parent).kindOf? (W.under (init ++ [last])) = some .directory := by
      rw [← MemoryStore.kindOf?_congr _ hsame]
      refine MemoryStore.kindOf?_insertDirs s (Path.isEmpty_eq_false hparent.parts_ne_nil) ?_
      rw [hparent.kindOf?_eq, hparentNone]
      rfl
    have hnone₁ : (s.insertDirs parent).node? p = none := by
      rw [s.node?_insertDirs habs, hnone, if_neg]
      rintro ⟨-, hstarts, -⟩
      have hlength := hstarts.length_le
      rw [hparts, List.length_append, List.length_singleton] at hlength
      omega
    have hinserted := hd₁.insert (n := .dir) hp hnul hdir₁ fun _ ↦ rfl
    refine ⟨_, ?_, hinserted.congr (MemoryStore.node?_insertDirs_concat hparts habs hnone)⟩
    have hmissing : d.mkdir p = .error (.errno .noEntry) := by
      rcases h.mkdir_of_not_directory hp hnul hdir with ⟨hbarred, -⟩ | ⟨-, he⟩
      · exact absurd hbarred hfree
      · exact he
    rw [System.createDirs, hp.ancestors_eq_cons (h.isAbsolute_of_leads hp), System.createDirsFrom,
      Path.isEmpty_eq_false hp.parts_ne_nil]
    show runFrom d (system.mkdirOr p (system.createDirs parent >>= _)).run = _
    rw [runFrom_mkdirOr_of_missing hmissing, runFrom_run_bind, hrun₁]
    exact runFrom_mkdirOr (hd₁.mkdir_of_free hp hnul hdir₁ hnone₁)

/-! ### Making directories -/

section Creating

variable (h : Mirrors W loc s d) (hp : W.Leads p init name)
include h hp

/-- What cannot be made a directory, for another reason than that something above is missing, is
left as it is. -/
theorem fails_createDirs {e : OsError} (hmkdir : d.mkdir p = .error e) (he : e ≠ .errno .noEntry)
    (hother : p.HasNul ∨ s.kindOf? p ≠ some .directory) : Fails d (system.createDirs p) := by
  obtain ⟨missing, hcreate⟩ := createDirsFrom_eq_mkdirOr hp p.ancestors
  rw [System.createDirs, hcreate]
  refine fails_mkdirOr hmkdir he ?_
  rw [h.runFrom_isDir hp, decide_eq_false]
  tauto

/-- What is there and is no directory is not made one; anything else is tried. -/
theorem runFrom_storeMkdir : runFrom d (system.storeMkdir p true).run =
    if (s.onDisk? p).isSome ∧ (p.HasNul ∨ s.kindOf? p ≠ some .directory) then
      (.error (.notADirectory p), d)
    else runFrom d (System.blaming p (system.createDirs p)).run := by
  unfold System.storeMkdir
  simp only [if_true, runFrom_run_bind, runFrom_run_lift, h.runFrom_isThere hp, h.runFrom_isDir hp]
  by_cases hthere : (s.onDisk? p).isSome ∧ (p.HasNul ∨ s.kindOf? p ≠ some .directory)
  · have hdir : ¬(¬p.HasNul ∧ s.kindOf? p = some .directory) := by tauto
    rw [if_pos hthere, hthere.1, decide_eq_false hdir]
    rfl
  · rw [if_neg hthere, if_neg]
    simpa [or_iff_not_imp_left] using hthere

theorem fails_storeMkdir (hcreate : Fails d (system.createDirs p)) :
    Fails d (system.storeMkdir p true) := by
  obtain ⟨e, he⟩ := hcreate.blaming p
  by_cases hthere : (s.onDisk? p).isSome ∧ (p.HasNul ∨ s.kindOf? p ≠ some .directory)
  · exact ⟨.notADirectory p, by rw [h.runFrom_storeMkdir hp, if_pos hthere]⟩
  · exact ⟨e, by rw [h.runFrom_storeMkdir hp, if_neg hthere, he]⟩

end Creating

/-- **Making a directory** follows the store, on a path without a NUL. -/
theorem follows_mkdir {recursive : Bool} (h : Mirrors W loc s d) (hp : W.Leads p init name)
    (hnul : ¬p.HasNul) (hmkdir : s.mkdir p recursive = .ok s') :
    Follows W loc s' d ((System.backend system).mkdir p recursive) := by
  rcases recursive with - | -
  · obtain ⟨⟨hnone, hdir⟩, rfl⟩ := (MemoryStore.mkdir_false_eq_ok_iff hp).mp hmkdir
    have hmade : Follows W loc (s.insert p .dir) d (system.mkdir p) :=
      ⟨_, runFrom_changing (h.mkdir_of_free hp hnul hdir hnone),
        h.insert hp hnul hdir fun _ ↦ rfl⟩
    exact hmade.blaming p
  · show Follows W loc s' d (system.storeMkdir p true)
    have hmade : Follows W loc s' d (system.createDirs p) ∧
        ¬((s.onDisk? p).isSome ∧ (p.HasNul ∨ s.kindOf? p ≠ some .directory)) := by
      rcases (MemoryStore.mkdir_true_eq_ok_iff hp (h.isAbsolute_of_leads hp)).mp hmkdir with
        ⟨hdir, rfl⟩ | ⟨⟨hnone, hfree⟩, rfl⟩
      · obtain ⟨missing, hcreate⟩ := createDirsFrom_eq_mkdirOr hp p.ancestors
        have hthere : s.node? p ≠ none := by
          intro hnone
          simp [hp.kindOf?_eq s, hnone] at hdir
        refine ⟨⟨d, ?_, h⟩, by simp [hnul, hdir]⟩
        rw [System.createDirs, hcreate]
        refine runFrom_mkdirOr_of_isDir (h.mkdir_of_there hp hnul hthere) (by decide) ?_
        rw [h.runFrom_isDir hp, decide_eq_true ⟨hnul, hdir⟩]
      · refine ⟨h.follows_createDirs hp hnul hnone hfree, ?_⟩
        rw [MemoryStore.onDisk?, hnone]
        simp
    obtain ⟨d', hrun, hd'⟩ := hmade.1.blaming p
    refine ⟨d', ?_, hd'⟩
    rw [h.runFrom_storeMkdir hp, if_neg hmade.2]
    exact hrun

/-- Where the store makes no directory, the disk makes none. -/
theorem fails_mkdir {recursive : Bool} (h : Mirrors W loc s d) (hp : W.Leads p init name)
    (hfails : p.HasNul ∨ ∀ s', s.mkdir p recursive ≠ .ok s') :
    Fails d ((System.backend system).mkdir p recursive) := by
  -- it is enough that the call of the operating system fails, in one of these ways
  have henough : (∃ e, d.mkdir p = .error e ∧ (recursive = true → e ≠ .errno .noEntry ∧
      (p.HasNul ∨ s.kindOf? p ≠ some .directory))) →
      Fails d ((System.backend system).mkdir p recursive) := by
    rintro ⟨e, hmkdir, he⟩
    rcases recursive with - | -
    · exact (fails_changing hmkdir).blaming p
    · exact h.fails_storeMkdir hp (h.fails_createDirs hp hmkdir (he rfl).1 (he rfl).2)
  refine henough ?_
  by_cases hnul : p.HasNul
  · refine ⟨.refused "file name contained an unexpected NUL byte", ?_, by simp [hnul]⟩
    rw [mkdir, lastHop, checkPath_of_hasNul hnul]
    rfl
  have hrefused := hfails.resolve_left hnul
  by_cases hthere : s.node? p = none
  · have hother : s.kindOf? p ≠ some .directory := by simp [hp.kindOf?_eq s, hthere]
    rcases recursive with - | -
    · have hdir : s.kindOf? (W.under init) ≠ some .directory := fun hdir ↦
        hrefused _ ((MemoryStore.mkdir_false_eq_ok_iff hp).mpr ⟨⟨hthere, hdir⟩, rfl⟩)
      rcases h.mkdir_of_not_directory hp hnul hdir with ⟨-, he⟩ | ⟨-, he⟩
      · exact ⟨_, he, nofun⟩
      · exact ⟨_, he, nofun⟩
    · have hbarred : s.IsBarred (W.under init) := by
        by_contra hfree
        exact hrefused _ ((MemoryStore.mkdir_true_eq_ok_iff hp (h.isAbsolute_of_leads hp)).mpr
          (.inr ⟨⟨hthere, hfree⟩, rfl⟩))
      have hdir : s.kindOf? (W.under init) ≠ some .directory :=
        fun hdir ↦ h.closed.not_isBarred hdir hbarred
      rcases h.mkdir_of_not_directory hp hnul hdir with ⟨-, he⟩ | ⟨hfree, -⟩
      · exact ⟨_, he, fun _ ↦ ⟨by decide, .inr hother⟩⟩
      · exact absurd hbarred hfree
  · refine ⟨_, h.mkdir_of_there hp hnul hthere, fun hrecursive ↦ ⟨by decide, .inr fun hdir ↦ ?_⟩⟩
    subst hrecursive
    exact hrefused _ ((MemoryStore.mkdir_true_eq_ok_iff hp (h.isAbsolute_of_leads hp)).mpr
      (.inl ⟨hdir, rfl⟩))

/-! ### Writing files -/

section Writing

variable {bytes : ByteArray} (h : Mirrors W loc s d) (hp : W.Leads p init name)
include h hp

/-- A file is written where nothing or a file is, in a directory. -/
theorem write_eq_ok (hnul : ¬p.HasNul) (htail : p.tail = "")
    (hkind : s.kindOf? p ≠ some .directory)
    (hdir : s.kindOf? (W.under init) = some .directory) :
    d.write p bytes = .ok (d.insert (loc ++ init ++ [name]) (.file bytes)) := by
  have hnode := h.node?_eq hp
  have hpkind := hp.kindOf?_eq s
  unfold write
  rw [h.lastHop_of_directory hp hnul hdir, htail]
  simp only [bind, Except.bind, show (!"".isEmpty) = false from rfl, Bool.false_eq_true, if_false]
  rcases hstored : s.node? p with _ | _ | found
  all_goals rw [hstored] at hnode hpkind
  · rw [walk_missing hp.name_short hnode]
    rfl
  · exact absurd hpkind hkind
  · rw [walk_file hp.name_short hnode]
    rfl

theorem write_eq_error (hrefused : p.HasNul ∨ p.tail ≠ "" ∨ s.kindOf? p = some .directory ∨
    s.kindOf? (W.under init) ≠ some .directory) : ∃ e, d.write p bytes = .error e := by
  unfold write
  by_cases hnul : p.HasNul
  · exact ⟨_, by rw [lastHop, checkPath_of_hasNul hnul]; rfl⟩
  by_cases hdir : s.kindOf? (W.under init) = some .directory
  · rw [h.lastHop_of_directory hp hnul hdir]
    by_cases htail : p.tail = ""
    · have hpkind : s.kindOf? p = some .directory := by tauto
      have hnode : d.node? (loc ++ init ++ [name]) = some .dir := by
        rw [h.node?_eq hp, MemoryStore.node?_of_directory hp.isRoot_eq_false hpkind]
        rfl
      rw [htail]
      simp only [bind, Except.bind, show (!"".isEmpty) = false from rfl, Bool.false_eq_true,
        if_false]
      rw [walk_dir hp.name_short hnode, walk]
      exact ⟨_, rfl⟩
    · have hempty : p.tail.isEmpty = false := by simpa using htail
      rw [hempty]
      exact ⟨_, rfl⟩
  · rcases h.lastHop_of_not_directory hp hnul hdir with ⟨-, he⟩ | ⟨-, he⟩
    · exact ⟨_, by rw [he]; rfl⟩
    · exact ⟨_, by rw [he]; rfl⟩

/-- **Writing a file** follows the store, on a path as it should be spelled. -/
theorem follows_write (hnul : ¬p.HasNul) (htail : p.tail = "")
    (hwrite : s.write p bytes = .ok s') :
    Follows W loc s' d ((System.backend system).write p bytes) := by
  obtain ⟨⟨hkind, hdir⟩, rfl⟩ := (MemoryStore.write_eq_ok_iff hp).mp hwrite
  have hinserted := h.insert (n := .file bytes) hp hnul hdir fun hp ↦ absurd hp hkind
  refine .behind (h.runFrom_refuseDir hp (.inr hkind)) (.blaming ⟨_, ?_, hinserted⟩ p)
  exact runFrom_changing (h.write_eq_ok hp hnul htail hkind hdir)

theorem fails_write (hfails : p.HasNul ∨ p.tail ≠ "" ∨ ∀ s', s.write p bytes ≠ .ok s') :
    Fails d ((System.backend system).write p bytes) := by
  by_cases hisDir : ¬p.HasNul ∧ s.kindOf? p = some .directory
  · exact (h.fails_refuseDir hp hisDir.1 hisDir.2).bind _
  · have hrefused : ∃ e, d.write p bytes = .error e := by
      refine h.write_eq_error hp (hfails.imp_right (Or.imp_right fun hstore ↦ ?_))
      by_contra hdir
      push Not at hdir
      exact hstore _ ((MemoryStore.write_eq_ok_iff hp).mpr ⟨hdir, rfl⟩)
    obtain ⟨e, he⟩ := hrefused
    exact .behind (h.runFrom_refuseDir hp (by tauto)) ((fails_changing he).blaming p)

end Writing

/-! ### Copying files -/

section Copying

variable {source : Path} {sourceInit : List EntryName} {sourceName : EntryName}
  (h : Mirrors W loc s d) (hsource : W.Leads source sourceInit sourceName)
  (hp : W.Leads p init name)

theorem runFrom_systemRead {bytes : ByteArray} (h : Mirrors W loc s d) (hp : W.Leads p init name)
    (hfile : s.onDisk? p = some (.file bytes)) :
    runFrom d (system.read p).run = (.ok bytes, d) := by
  refine runFrom_asking (?_ : (d.read p).toOption = _)
  rw [h.toOption_read hp, hfile]
  rfl

include h hsource hp

/-- The target is emptied before the source is read again, which changes nothing about the source
when it is another file. -/
theorem follows_copy {bytes : ByteArray} (hne : ¬source ≈ p) (hnul : ¬p.HasNul)
    (htail : p.tail = "") (hfile : s.onDisk? source = some (.file bytes))
    (hkind : s.kindOf? p ≠ some .directory)
    (hdir : s.kindOf? (W.under init) = some .directory) :
    Follows W loc (s.insert p (.file bytes)) d (system.copy source p) := by
  have hempty : Mirrors W loc (s.insert p (.file ByteArray.empty))
      (d.insert (loc ++ init ++ [name]) (.file ByteArray.empty)) :=
    h.insert hp hnul hdir fun hp ↦ absurd hp hkind
  set s₁ := s.insert p (.file ByteArray.empty)
  have hview : ∀ q, s₁.node? q = if p ≈ q then some (.file ByteArray.empty) else s.node? q :=
    fun q ↦ s.node?_insert p q _
  have hkind₁ : s₁.kindOf? p ≠ some .directory := by
    rw [hp.kindOf?_eq, hview, if_pos rfl]
    simp [StoredNode.kind]
  have hdir₁ : s₁.kindOf? (W.under init) = some .directory := by
    refine MemoryStore.kindOf?_directory_of (fun hstored ↦ ?_) hdir
    rw [hview, if_neg, hstored]
    intro hsame
    have hlength := congrArg List.length (Path.equiv_iff.mp hsame)
    simp [hp.parts_around] at hlength
  have hfile₁ : s₁.onDisk? source = some (.file bytes) := by
    have hnode : s₁.node? source = s.node? source := by
      rw [hview, if_neg fun hsame ↦ hne (Eq.symm hsame)]
    have hmisspells : s₁.Misspells source ↔ s.Misspells source := by
      unfold MemoryStore.Misspells
      rw [hsource.kindOf?_eq, hsource.kindOf?_eq, hnode]
    simp only [MemoryStore.onDisk?, hmisspells, hnode]
    exact hfile
  have hfilled := hempty.insert (n := .file bytes) hp hnul hdir₁ fun hp ↦ absurd hp hkind₁
  refine ⟨_, ?_, hfilled.congr fun q ↦ ?_⟩
  · rw [System.copy, runFrom_run_bind, h.runFrom_systemRead hsource hfile]
    dsimp only
    rw [runFrom_run_bind, show runFrom d (system.write p ByteArray.empty).run = _ from
      runFrom_changing (h.write_eq_ok hp hnul htail hkind hdir)]
    dsimp only
    rw [runFrom_run_bind, hempty.runFrom_systemRead hsource hfile₁]
    exact runFrom_changing (hempty.write_eq_ok hp hnul htail hkind₁ hdir₁)
  · rw [MemoryStore.node?_insert, MemoryStore.node?_insert, hview]
    split <;> rfl

/-- **Copying a file** follows the store, on paths as they should be spelled. -/
theorem follows_copyFile (hne : ¬source ≈ p) (hspelled : ¬s.Misspells source)
    (hnul : ¬p.HasNul) (htail : p.tail = "") (hcopy : s.copyFile source p = .ok s') :
    Follows W loc s' d ((System.backend system).copyFile source p) := by
  obtain ⟨bytes, hread, hwrite⟩ := MemoryStore.copyFile_cases hcopy
  obtain ⟨⟨hkind, hdir⟩, rfl⟩ := (MemoryStore.write_eq_ok_iff hp).mp hwrite
  have hfile : s.onDisk? source = some (.file bytes) := by
    rw [MemoryStore.onDisk?, if_neg hspelled, MemoryStore.read_eq_ok_iff.mp hread]
  have hother : s.kindOf? source ≠ some .directory := by
    rw [hsource.kindOf?_eq, MemoryStore.read_eq_ok_iff.mp hread]
    simp [StoredNode.kind]
  obtain ⟨d', hrun, hd'⟩ :=
    (h.follows_copy hsource hp hne hnul htail hfile hkind hdir).blaming p
  refine ⟨d', ?_, hd'⟩
  show runFrom d (system.storeCopyFile source p).run = _
  unfold System.storeCopyFile
  simp only [runFrom_run_bind, h.runFrom_refuseDir hsource (.inr hother), runFrom_run_lift,
    h.runFrom_isThere hsource, hfile]
  exact hrun

/-- Where the store copies no file, the disk copies none. -/
theorem fails_copyFile (hfails : s.Misspells source ∨ p.HasNul ∨ p.tail ≠ "" ∨
    ∀ s', s.copyFile source p ≠ .ok s') :
    Fails d ((System.backend system).copyFile source p) := by
  show Fails d (system.storeCopyFile source p)
  by_cases hisDir : ¬source.HasNul ∧ s.kindOf? source = some .directory
  · exact (h.fails_refuseDir hsource hisDir.1 hisDir.2).bind _
  have hrefuse := h.runFrom_refuseDir hsource (by tauto)
  rcases hnode : s.onDisk? source with _ | _ | bytes
  · refine .behind hrefuse ⟨.notFound source, ?_⟩
    simp only [runFrom_run_bind, runFrom_run_lift, h.runFrom_isThere hsource, hnode]
    rfl
  · exact absurd ((MemoryStore.onDisk?_eq_dir_iff hsource.isRoot_eq_false).mp hnode) hisDir
  -- the source can be read, so the target cannot be written
  · have hspelled : ¬s.Misspells source := by
      intro hmisspelled
      rw [MemoryStore.onDisk?, if_pos hmisspelled] at hnode
      cases hnode
    rw [MemoryStore.onDisk?, if_neg hspelled] at hnode
    have hrefused : p.HasNul ∨ p.tail ≠ "" ∨ s.kindOf? p = some .directory ∨
        s.kindOf? (W.under init) ≠ some .directory := by
      refine (hfails.resolve_left hspelled).imp_right (Or.imp_right fun hstore ↦ ?_)
      by_contra hdir
      push Not at hdir
      have hwrite : s.write p bytes = .ok (s.insert p (.file bytes)) :=
        (MemoryStore.write_eq_ok_iff hp).mpr ⟨hdir, rfl⟩
      exact hstore _ (bind_eq_ok_iff.mpr ⟨bytes, MemoryStore.read_eq_ok_iff.mpr hnode, hwrite⟩)
    have hseen : s.onDisk? source = some (.file bytes) := by
      rw [MemoryStore.onDisk?, if_neg hspelled, hnode]
    have hread := h.runFrom_systemRead hsource hseen
    obtain ⟨e, he⟩ : ∃ e, d.write p ByteArray.empty = .error e := h.write_eq_error hp hrefused
    have hcopy : Fails d (system.copy source p) :=
      .behind hread (Fails.bind (fails_changing he) _)
    obtain ⟨e', he'⟩ := hcopy.blaming p
    refine .behind hrefuse ⟨e', ?_⟩
    simp only [runFrom_run_bind, runFrom_run_lift, h.runFrom_isThere hsource,
      MemoryStore.onDisk?, if_neg hspelled, hnode]
    exact he'

end Copying

end Mirrors

end Disk

end Scaffold
