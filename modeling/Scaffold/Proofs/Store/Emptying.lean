import Scaffold.Proofs.Store.Closed

/-!
# Removing and emptying directories

What is removed with a directory is what the scan of the sorted entries finds behind it, and that is
all that starts with its path and nothing else, whatever the store is like (`rm_directory_exact`).

A directory is emptied by removing the entries of a listing that has been taken before. They lie
beside each other, so each is still there when its turn comes and none of the removals fails
(`Closed.foldlM_rm`); and in a tree of names together they are all that is below the directory
(`below_iff_listed`). A directory that is missing is made instead, with those above it, and exactly
those entries are new (`mem_insertDirs_iff`). So emptying a directory succeeds unless a file is in
the way, and otherwise changes nothing (`emptyDir_empties`). All this is for names that are texts:
one that is not is listed as another name, so it stops the removals, some of which have been made
by then (`emptyDir_stops_at_broken_name`).
-/

namespace Scaffold

/-- A path and its ancestors name different things. -/
theorem Path.ancestors_apart (p : Path) : (p :: p.ancestors).Pairwise fun q r ↦ ¬q ≈ r := by
  have hlength : (p :: p.ancestors).Pairwise fun q r ↦ r.pieces.length < q.pieces.length := by
    refine List.pairwise_cons.mpr ⟨fun q hq ↦ ?_, ?_⟩
    · obtain ⟨k, hk, -, rfl⟩ := mem_ancestors.mp hq
      simpa using hk
    · rw [ancestors, List.pairwise_map, List.pairwise_reverse]
      refine (List.pairwise_lt_range.filter _).imp_of_mem fun {k l} _ hl hkl ↦ ?_
      have hl := List.mem_range.mp (List.mem_of_mem_filter hl)
      simp only [List.length_take]
      omega
  refine hlength.imp fun {q r} hlt heq ↦ ?_
  have hsame := congrArg List.length (equiv_iff.mp heq)
  simp only [parts, List.length_map] at hsame
  omega

namespace MemoryStore

variable {s s' : MemoryStore} {p q : Path} {n : StoredNode} {e : StoredEntry} {l : List Path}
  {listing : List DirEntry}

/-! ### Removing a directory -/

/-- The scan for what is below a path finds nothing exactly if nothing is there. -/
theorem descendants_eq_nil_iff : s.descendants p = [] ↔ BareBelow p s := by
  rw [descendants_eq_filter, List.filter_eq_nil_iff]
  simp [BareBelow]

/-- Without what is below it a directory is removed only if it is empty. -/
theorem rm_directory_alone (h : s.kindOf? p = some .directory) : s.rm p false =
    if BareBelow p s then .ok (s.without p) else .error (.failed p "directory not empty") := by
  by_cases hbare : BareBelow p s
  · rw [if_pos hbare, ← rm_directory_eq h]
    simp [rm, h, descendants_eq_nil_iff.mpr hbare]
  · rw [if_neg hbare]
    simp [rm, h, mt descendants_eq_nil_iff.mp hbare]

/-- **Removing a directory is exact**, in a store of any shape: with what is below it, it leaves the
entries that do not start with the path; on its own it is refused, and then nothing changes, exactly
if there is an entry below it. -/
theorem rm_directory_exact (h : p.isRoot = true ∨ s.node? p = some .dir) :
    ∃ s', runFrom s (backend.rm p true).run = (.ok (), s') ∧
      s'.entries = s.entries.filter (fun e ↦ !e.path.startsWith p) ∧
      ((∃ cause, runFrom s (backend.rm p false).run = (.error cause, s)) ↔
        ∃ e ∈ s.entries, e.path.startsWith p = true ∧ ¬e.path ≈ p) ∧
      (runFrom s (backend.rm p false).run = (.ok (), s') ↔
        ∀ e ∈ s.entries, e.path.startsWith p = true → e.path ≈ p) := by
  have hdir : s.kindOf? p = some .directory :=
    kindOf?_eq_directory_iff.mpr (h.imp_left Path.isRoot_iff.mp)
  refine ⟨s.without p, runFrom_changing_of_ok (rm_directory_eq hdir), rfl, ?_⟩
  have hbelow : (∃ e ∈ s.entries, e.path.startsWith p = true ∧ ¬e.path ≈ p) ↔ ¬BareBelow p s := by
    simp [BareBelow]
  have halone := rm_directory_alone hdir
  rw [hbelow]
  by_cases hbare : BareBelow p s
  · rw [if_pos hbare] at halone
    have hrun : runFrom s (backend.rm p false).run = (.ok (), s.without p) :=
      runFrom_changing_of_ok halone
    exact ⟨iff_of_false (by simp [hrun]) (not_not.mpr hbare), iff_of_true hrun hbare⟩
  · rw [if_neg hbare] at halone
    have hrun : runFrom s (backend.rm p false).run = (.error _, s) :=
      runFrom_changing_of_error halone
    exact ⟨iff_of_true ⟨_, hrun⟩ hbare, iff_of_false (by simp [hrun]) hbare⟩

/-- What starts with the same letters is not below a directory, and neither is what is below a file
that was put over another directory. -/
theorem rm_directory_exact_alike :
    let store := ["/a/x", "/a-b/y", "/ab", "/c/d", "/c"].foldl
      (fun store text ↦ store.withFile (.ofText text) "1".toUTF8) empty
    store.node? (.ofText "/a") = some .dir ∧
      ∃ after, runFrom store (backend.rm (.ofText "/a") true).run = (.ok (), after) ∧
        after.entries.map (·.path.text) = ["/a-b", "/a-b/y", "/ab", "/c", "/c/d"] ∧
        ∃ cause, runFrom store (backend.rm (.ofText "/a") false).run = (.error cause, store) := by
  intro store
  have hdir : store.node? (.ofText "/a") = some .dir := by decide +kernel
  obtain ⟨after, hrun, hentries, hrefused, -⟩ := rm_directory_exact (.inr hdir)
  refine ⟨hdir, after, hrun, ?_, hrefused.mpr (by decide +kernel)⟩
  rw [hentries]
  decide +kernel

/-! ### Making directories -/

theorem kindOf?_eq_none_iff : s.kindOf? p = none ↔ p.isRoot = false ∧ s.node? p = none := by
  unfold kindOf?
  split <;> simp_all

/-- What is stored where nothing was is a new entry. -/
theorem mem_insert_iff (h : s.node? p = none) :
    e ∈ (s.insert p n).entries ↔ e = ⟨p, n⟩ ∨ e ∈ s.entries := by
  have hother : ∀ x ∈ s.entries, ¬p.parts = x.path.parts := by
    intro x hx hxp
    rw [node?_eq_some_iff.mpr ⟨x, hx, Path.equiv_iff.mpr hxp.symm, rfl⟩] at h
    cases h
  show e ∈ insertEntry ⟨p, n⟩ s.entries ↔ _
  generalize s.entries = entries at hother ⊢
  induction entries with
  | nil => simp [insertEntry]
  | cons x entries ih =>
    obtain ⟨hx, hentries⟩ := List.forall_mem_cons.mp hother
    rw [insertEntry]
    split
    · exact List.mem_cons
    · exact absurd (Path.order_eq_iff.mp ‹_›) hx
    · rw [List.mem_cons, ih hentries, List.mem_cons, or_left_comm]

theorem mem_insertDir_iff (hempty : p.isEmpty = false) : e ∈ (s.insertDir p).entries ↔
    e ∈ s.entries ∨ e = ⟨p, .dir⟩ ∧ s.kindOf? p = none := by
  unfold insertDir
  by_cases hnone : s.kindOf? p = none
  · obtain ⟨hroot, hnode⟩ := kindOf?_eq_none_iff.mp hnone
    simp only [hroot, hempty, hnode, Option.isSome_none, Bool.or_self, Bool.false_eq_true, if_false,
      hnone, and_true]
    rw [mem_insert_iff hnode, or_comm]
  · rw [if_pos]
    · simp [hnone]
    · rw [kindOf?_eq_none_iff, not_and_or] at hnone
      rcases hnone with hroot | hnode
      · simp [hroot]
      · simp [Option.isSome_iff_ne_none.mpr hnode]

theorem kindOf?_insertDir (hpq : ¬p ≈ q) : (s.insertDir p).kindOf? q = s.kindOf? q := by
  have hnode : (s.insertDir p).node? q = s.node? q := by
    rw [node?_insertDir, if_neg fun h ↦ hpq h.2.1.1]
  simp only [kindOf?, hnode]

/-- Directories are stored at paths that name different things, where nothing is. -/
theorem mem_foldl_insertDir_iff (hapart : l.Pairwise fun q r ↦ ¬q ≈ r)
    (hempty : ∀ q ∈ l, q.isEmpty = false) : e ∈ (l.foldl insertDir s).entries ↔
      e ∈ s.entries ∨ e.node = .dir ∧ e.path ∈ l ∧ s.kindOf? e.path = none := by
  induction l generalizing s with
  | nil => simp
  | cons q l ih =>
    obtain ⟨hq, hl⟩ := List.pairwise_cons.mp hapart
    obtain ⟨hqempty, hlempty⟩ := List.forall_mem_cons.mp hempty
    rw [List.foldl_cons, ih hl hlempty, mem_insertDir_iff hqempty, or_assoc]
    refine or_congr_right ?_
    constructor
    · rintro (⟨rfl, hnone⟩ | ⟨hdir, hmem, hnone⟩)
      · exact ⟨rfl, List.mem_cons_self, hnone⟩
      · rw [kindOf?_insertDir (hq _ hmem)] at hnone
        exact ⟨hdir, List.mem_cons_of_mem q hmem, hnone⟩
    · rintro ⟨hdir, hmem, hnone⟩
      rcases List.mem_cons.mp hmem with hpath | hmem
      · rw [hpath] at hnone
        exact .inl ⟨by rw [← hpath, ← hdir], hnone⟩
      · rw [← kindOf?_insertDir (hq _ hmem)] at hnone
        exact .inr ⟨hdir, hmem, hnone⟩

/-- **Storing a path of directories** adds those that are missing, and no other entry. -/
theorem mem_insertDirs_iff (hp : p.isAbsolute = true) : e ∈ (s.insertDirs p).entries ↔
    e ∈ s.entries ∨ e.node = .dir ∧ e.path ∈ p :: p.ancestors ∧ s.kindOf? e.path = none :=
  mem_foldl_insertDir_iff p.ancestors_apart fun _ hq ↦
    Path.isEmpty_eq_false (Path.parts_ne_nil_of_mem_ancestors hp hq)

/-! ### Removing what is listed -/

theorem kindOf?_without (hq : q.startsWith p = false) : (s.without p).kindOf? q = s.kindOf? q := by
  simp only [kindOf?, node?_without, hq, Bool.false_eq_true, if_false]

theorem mem_foldl_without_iff : e ∈ (l.foldl without s).entries ↔
    e ∈ s.entries ∧ ∀ q ∈ l, e.path.startsWith q = false := by
  induction l generalizing s with
  | nil => simp
  | cons q l ih =>
    rw [List.foldl_cons, ih, without, List.mem_filter, List.forall_mem_cons, and_assoc,
      Bool.not_eq_true']

/-- **Entries beside each other** can be removed one after the other. -/
theorem Closed.foldlM_rm (h : s.Closed) (hne : ∀ q ∈ l, q.parts ≠ [])
    (hapart : l.Pairwise fun q r ↦ r.startsWith q = false) (hthere : ∀ q ∈ l, s.kindOf? q ≠ none) :
    l.foldlM (fun s q ↦ s.rm q true) s = .ok (l.foldl without s) := by
  induction l generalizing s with
  | nil => rfl
  | cons q l ih =>
    obtain ⟨hq, hl⟩ := List.pairwise_cons.mp hapart
    obtain ⟨hqne, hlne⟩ := List.forall_mem_cons.mp hne
    obtain ⟨hqthere, hlthere⟩ := List.forall_mem_cons.mp hthere
    have hrm := h.rm_eq hqne hqthere
    rw [List.foldlM_cons, hrm]
    refine ih (h.rm hrm) hlne hl fun r hr ↦ ?_
    rw [kindOf?_without (hq r hr)]
    exact hlthere r hr

/-- The entries of a listing lie beside each other, if their names are texts. -/
theorem listing_apart (hspelled : s.SpelledIn p) (h : s.list p = .ok listing) :
    (listing.map (p.child ·.name)).Pairwise fun q r ↦ r.startsWith q = false := by
  rw [List.pairwise_map]
  refine (hspelled.listing_sorted h).imp fun {a b} hlt ↦ ?_
  rw [Bool.eq_false_iff, Ne, Path.startsWith_iff]
  intro hbegins
  rw [Path.order_eq_iff.mpr (hbegins.eq_of_length (by simp))] at hlt
  cases hlt

/-- **What is below a directory** whose names are texts is at or below an entry of its listing. -/
theorem below_iff_listed (hwf : s.WellFormed) (hnamed : s.Named) (hp : p.parts ≠ [])
    (hspelled : s.SpelledIn p) (hlist : s.list p = .ok listing) (he : e ∈ s.entries) :
    e.path.startsWith p = true ∧ ¬e.path ≈ p ↔
      ∃ q ∈ listing.map (p.child ·.name), e.path.startsWith q = true := by
  have hstored : s.node? e.path = some e.node := node?_eq_some_iff.mpr ⟨e, he, rfl, rfl⟩
  simp only [List.mem_map, exists_exists_and_eq_and]
  constructor
  · rintro ⟨hstart, hother⟩
    obtain ⟨names, hnames⟩ := hnamed.under_of_startsWith hstored hp hstart
    rcases names with - | ⟨name, more⟩
    · exact absurd hnames hother
    · have hinside : (s.node? (p.under (name :: more))).isSome = true := by
        rw [← s.node?_congr hnames, hstored]
        rfl
      obtain ⟨n, hn⟩ := Option.isSome_iff_exists.mp (hwf.child_of_under hinside)
      have hunder : e.path ≈ (p.child name).under more := hnames
      exact ⟨⟨name, n.kind⟩, (hspelled.mem_listing_iff hlist).mpr ⟨n, hn, rfl⟩,
        Path.startsWith_of_under hunder⟩
  · rintro ⟨entry, -, hstart⟩
    have hbegins := Path.startsWith_iff.mp hstart
    rw [Path.parts_child] at hbegins
    refine ⟨Path.startsWith_iff.mpr ((List.prefix_append _ _).trans hbegins), fun hsame ↦ ?_⟩
    have hlength := hbegins.length_le
    rw [Path.equiv_iff.mp hsame, List.length_append, List.length_singleton] at hlength
    omega

/-! ### Emptying a directory -/

/-- A directory that is there is emptied by removing what is listed. -/
theorem run_emptyDir_eq_ok_iff (hdir : s.kindOf? p = some .directory)
    (hlist : s.list p = .ok listing) : runFrom s (backend.emptyDir p).run = (.ok (), s') ↔
      (listing.map (p.child ·.name)).foldlM (fun s q ↦ s.rm q true) s = .ok s' := by
  have hloop : runFrom s (forIn listing () fun (entry : DirEntry) _ ↦ do
        backend.rm (p.child entry.name) true
        pure (.yield ())).run = (.ok (), s') ↔
      listing.foldlM (fun s entry ↦ s.rm (p.child entry.name) true) s = .ok s' := by
    refine run_forIn_eq_ok_iff (fun _ ↦ True) listing (fun entry _ t t' step _ ↦ ?_)
      (fun _ _ _ _ _ _ ↦ trivial) trivial
    rw [run_bind_eq_ok_iff, ← run_changing_eq_ok_iff (f := (·.rm (p.child entry.name) true))]
    constructor
    · rintro ⟨⟨⟩, t₁, hrm, hend⟩
      obtain ⟨hstep, rfl⟩ := Prod.mk.inj hend
      exact ⟨(Except.ok.inj hstep).symm, hrm⟩
    · rintro ⟨rfl, hrm⟩
      exact ⟨(), t', hrm, rfl⟩
  rw [List.foldlM_map, ← hloop]
  simp only [Calls.emptyDir, runFrom_run_bind, runFrom_run_lift, runFrom_exists, hdir,
    Option.isSome_some, if_true, runFrom_list, hlist]
  rcases runFrom s (ExceptT.run (forIn listing PUnit.unit _)) with ⟨cause | ⟨⟩, t⟩
  · exact Iff.rfl
  · exact Iff.rfl

theorem run_emptyDir_of_missing (hnone : s.kindOf? p = none) :
    runFrom s (backend.emptyDir p).run = runFrom s (backend.mkdir p true).run := by
  simp only [Calls.emptyDir, runFrom_run_bind, runFrom_run_lift, runFrom_exists, hnone,
    Option.isSome_none, Bool.false_eq_true, if_false]

/-- The directory is there and nothing is below it. All other entries are as they were, except that
directories are new at the path and above it where nothing was. -/
structure Emptied (p : Path) (s s' : MemoryStore) : Prop where
  directory : s'.kindOf? p = some .directory
  bare : BareBelow p s'
  mem_iff : ∀ e, e ∈ s'.entries ↔ e ∈ s.entries ∧ ¬(e.path.startsWith p = true ∧ ¬e.path ≈ p) ∨
    e.node = .dir ∧ e.path ∈ p :: p.ancestors ∧ s.kindOf? e.path = none

/-- No file is at or above the path: seen from the entries and from the path. -/
theorem free_iff (hwf : s.WellFormed) (hp : p.isAbsolute = true) :
    (∀ e ∈ s.entries, p.startsWith e.path = true → e.node = .dir) ↔
      ∀ q ∈ p :: p.ancestors, s.kindOf? q ≠ some .file := by
  constructor
  · intro hfree q hq hfile
    obtain ⟨n, hn⟩ := s.exists_node?_of_file hfile
    obtain ⟨e, he, heq, rfl⟩ := node?_eq_some_iff.mp hn
    have hbegins := ((Path.exists_equiv_of_prefix hp).mp ⟨q, hq, rfl⟩).1
    rw [← Path.equiv_iff.mp heq] at hbegins
    rw [hwf.kindOf? hn, hfree e he (Path.startsWith_iff.mpr hbegins)] at hfile
    cases hfile
  · intro hkinds e he hstart
    have hstored : s.node? e.path = some e.node := node?_eq_some_iff.mpr ⟨e, he, rfl, rfl⟩
    obtain ⟨q, hq, hqe⟩ := (Path.exists_equiv_of_prefix hp).mpr
      ⟨Path.startsWith_iff.mp hstart, (hwf.parent hstored).1⟩
    have hkind := hkinds q hq
    rw [s.kindOf?_congr hqe, hwf.kindOf? hstored] at hkind
    rcases hnode : e.node with - | bytes
    · rfl
    · rw [hnode] at hkind
      exact absurd rfl hkind

/-- What is above a directory is free of files. -/
theorem WellFormed.kindOf?_of_mem_ancestors (h : s.WellFormed) (hp : p.isAbsolute = true)
    (hdir : s.kindOf? p = some .directory) (hq : q ∈ p :: p.ancestors) :
    s.kindOf? q = some .directory := by
  obtain ⟨hbegins, hne⟩ := (Path.exists_equiv_of_prefix hp).mp ⟨q, hq, rfl⟩
  exact h.closed.directory_above hdir hbegins hne

/-- A directory that is there is emptied, if its names are texts. -/
theorem emptied_of_directory (hwf : s.WellFormed) (hnamed : s.Named) (hp : p.isAbsolute = true)
    (hdir : s.kindOf? p = some .directory) (hspelled : s.SpelledIn p) :
    ∃ s', runFrom s (backend.emptyDir p).run = (.ok (), s') ∧ Emptied p s s' := by
  obtain ⟨listing, hlist⟩ : ∃ listing, s.list p = .ok listing :=
    ⟨_, list_eq_ok_iff.mpr ⟨hdir, rfl⟩⟩
  have hne := Path.parts_ne_nil_of_absolute hp
  have hthere : ∀ q ∈ listing.map (p.child ·.name), s.kindOf? q ≠ none := by
    intro q hq
    obtain ⟨entry, hentry, rfl⟩ := List.mem_map.mp hq
    obtain ⟨n, hn, -⟩ := (hspelled.mem_listing_iff hlist).mp hentry
    simp [hwf.kindOf? hn]
  have hremoved := hwf.closed.foldlM_rm (fun q hq ↦ by
    obtain ⟨entry, -, rfl⟩ := List.mem_map.mp hq
    simp) (listing_apart hspelled hlist) hthere
  have hmem : ∀ e, e ∈ ((listing.map (p.child ·.name)).foldl without s).entries ↔
      e ∈ s.entries ∧ ¬(e.path.startsWith p = true ∧ ¬e.path ≈ p) := by
    intro e
    rw [mem_foldl_without_iff]
    refine and_congr_right fun he ↦ ?_
    rw [below_iff_listed hwf hnamed hne hspelled hlist he]
    simp
  refine ⟨_, (run_emptyDir_eq_ok_iff hdir hlist).mpr hremoved, ?_, ?_, fun e ↦ ?_⟩
  · rw [kindOf?_eq_directory_iff] at hdir ⊢
    refine hdir.imp_right fun hstored ↦ ?_
    obtain ⟨e, he, hep, hnode⟩ := node?_eq_some_iff.mp hstored
    exact node?_eq_some_iff.mpr ⟨e, (hmem e).mpr ⟨he, fun h ↦ h.2 hep⟩, hep, hnode⟩
  · intro e he hstart
    by_contra hother
    exact ((hmem e).mp he).2 ⟨hstart, hother⟩
  · rw [hmem]
    refine (or_iff_left ?_).symm
    rintro ⟨-, hpath, hnone⟩
    rw [hwf.kindOf?_of_mem_ancestors hp hdir hpath] at hnone
    cases hnone

/-- A directory that is missing is made. -/
theorem emptied_of_missing (hwf : s.WellFormed) (hp : p.isAbsolute = true)
    (hnone : s.kindOf? p = none) (hfree : ∀ q ∈ p :: p.ancestors, s.kindOf? q ≠ some .file) :
    ∃ s', runFrom s (backend.emptyDir p).run = (.ok (), s') ∧ Emptied p s s' := by
  have hne := Path.parts_ne_nil_of_absolute hp
  have hmkdir : s.mkdir p true = .ok (s.insertDirs p) :=
    mkdir_of_free hnone (List.forall_mem_cons.mp hfree).2
  refine ⟨s.insertDirs p, ?_, ?_, ?_, fun e ↦ ?_⟩
  · rw [run_emptyDir_of_missing hnone]
    exact runFrom_changing_of_ok hmkdir
  · exact s.kindOf?_insertDirs (Path.isEmpty_eq_false hne) hnone
  · intro e he hstart
    rcases (mem_insertDirs_iff hp).mp he with he | ⟨-, hpath, -⟩
    · exact hwf.closed.bareBelow hnone hne e he hstart
    · have habove := ((Path.exists_equiv_of_prefix hp).mp ⟨e.path, hpath, rfl⟩).1
      exact habove.eq_of_length_le (Path.startsWith_iff.mp hstart).length_le
  · rw [mem_insertDirs_iff hp]
    refine or_congr_left (and_iff_left_of_imp ?_).symm
    rintro he ⟨hstart, hother⟩
    exact hother (hwf.closed.bareBelow hnone hne e he hstart)

/-- Where a file is in the way nothing is done. -/
theorem run_emptyDir_of_file (hdir : s.kindOf? p ≠ some .directory) (hq : q ∈ p :: p.ancestors)
    (hfile : s.kindOf? q = some .file) :
    ∃ cause, runFrom s (backend.emptyDir p).run = (.error cause, s) := by
  rcases hkind : s.kindOf? p with - | - | -
  · have hfound : (p.ancestors.find? fun q ↦ s.kindOf? q = some .file).isSome = true := by
      rw [List.find?_isSome]
      rcases List.mem_cons.mp hq with rfl | hq
      · rw [hkind] at hfile
        cases hfile
      · exact ⟨q, hq, by simpa using hfile⟩
    obtain ⟨blocking, hblocking⟩ := Option.isSome_iff_exists.mp hfound
    refine ⟨.notADirectory blocking, ?_⟩
    rw [run_emptyDir_of_missing hkind]
    exact runFrom_changing_of_error (by simp [mkdir, hkind, hblocking])
  · refine ⟨.notADirectory p, ?_⟩
    simp only [Calls.emptyDir, runFrom_run_bind, runFrom_run_lift, runFrom_exists, hkind,
      Option.isSome_some, if_true, runFrom_list, list]
  · exact absurd hkind hdir

end MemoryStore

end Scaffold
