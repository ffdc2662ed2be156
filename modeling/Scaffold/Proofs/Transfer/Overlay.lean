import Scaffold.Proofs.Store.Closed
import Scaffold.Proofs.Transfer.Agreement

/-!
# Laying a directory over another

A copy of a directory is made entry by entry, so the target changes under its hands. Where the
directory fits over the target (`FitsOver`) this does no harm: when the entries `done` have been
laid over (`LaidOver`), a directory can be made in one that was made before (`LaidOver.made`), and a
file can be copied into it (`LaidOver.copied`). By induction all entries can be laid over
(`FitsOver.exists_laidOver`). Then what was below the source is below the target, and all else that
is new are directories above it that were missing (`Overlaid`).

Where the directory does not fit the copy fails, since what it makes is of the kind of what it
copies, and nothing that was there changes its kind (`fits_of_carryAll`). So copying is an overlay
(`copyFolder_overlays`), if all names in the directory are texts; any other name stops the copy
(`copyFolder_stops_at_broken_name`). A copy that breaks off is still confined to the target, also
when a gate refuses its calls.
-/

namespace Scaffold

namespace Transfer

open MemoryStore

variable {store s s' : MemoryStore} {source target q : Path} {all done : List Entry}
  {names dir : List EntryName} {name : EntryName}

/-- A directory can be laid over another: no file is at or above the target, and what is in both
directories is of one kind. -/
structure FitsOver (store : MemoryStore) (source target : Path) : Prop where
  clear : ∀ q bytes, q.parts <+: target.parts → store.node? q ≠ some (.file bytes)
  agrees : ∀ names n m, store.node? (source.under names) = some n →
    store.node? (target.under names) = some m → n.kind = m.kind

/-- The entries `done` have been laid over the target, and nothing else has changed but that the
target and the directories above it are there. -/
structure LaidOver (store : MemoryStore) (source target : Path) (done : List Entry)
    (s : MemoryStore) : Prop where
  carried : ∀ x ∈ done, s.node? (target.under x.1) = store.node? (source.under x.1)
  elsewhere : ∀ q, (∀ x ∈ done, ¬target.under x.1 ≈ q) →
    s.node? q = if done ≠ [] ∧ store.node? q = none ∧ q.Supports target then some .dir
      else store.node? q

theorem LaidOver.start : LaidOver store source target [] store where
  carried := nofun
  elsewhere q _ := by rw [if_neg fun h ↦ h.1 rfl]

/-- One entry more, behind the target. -/
theorem LaidOver.next {x : Entry} (h : LaidOver store source target done s) (hne : done ≠ [])
    (htarget : s'.node? (target.under x.1) = store.node? (source.under x.1))
    (hview : ∀ q, ¬target.under x.1 ≈ q → s'.node? q = s.node? q) :
    LaidOver store source target (done ++ [x]) s' where
  carried y hy := by
    by_cases hsame : target.under x.1 ≈ target.under y.1
    · rw [← (target.under_equiv_iff _ _).mp hsame, htarget]
    · rcases List.mem_append.mp hy with hy | hy
      · rw [hview _ hsame, h.carried y hy]
      · rw [List.mem_singleton.mp hy] at hsame
        exact absurd rfl hsame
  elsewhere q hq := by
    rw [hview q (hq x (by simp)), h.elsewhere q fun y hy ↦ hq y (List.mem_append_left _ hy)]
    simp [hne]

section Entries

variable (hfits : FitsOver store source target) (h : LaidOver store source target done s)
include hfits h

/-- No file gets in the way of the target. -/
theorem LaidOver.clear (hdir : store.node? source = some .dir) (hq : q.Supports target) :
    s.node? q = none ∨ s.node? q = some .dir := by
  by_cases hmem : ∃ x ∈ done, target.under x.1 ≈ q
  · obtain ⟨x, hx, hsame⟩ := hmem
    -- only the target itself is both in the target and above it
    have hlength := hq.1.length_le
    rw [← Path.equiv_iff.mp hsame, Path.parts_under, List.length_append, List.length_map] at hlength
    have hnil : x.1 = [] := List.length_eq_zero_iff.mp (by omega)
    have hcarried := h.carried x hx
    rw [hnil, Path.under_nil, Path.under_nil, hdir] at hcarried
    rw [hnil, Path.under_nil] at hsame
    exact .inr (s.node?_congr hsame ▸ hcarried)
  · rw [h.elsewhere q fun x hx hsame ↦ hmem ⟨x, hx, hsame⟩]
    split
    · exact .inr rfl
    · rcases hnode : store.node? q with - | - | bytes
      · exact .inl rfl
      · exact .inr rfl
      · exact absurd hnode (hfits.clear q bytes hq.1)

/-- What is in both directories is of one kind as long as entries are laid over. -/
theorem LaidOver.agrees {n m : StoredNode}
    (hn : store.node? (source.under (dir ++ [name])) = some n)
    (hm : s.node? (target.under (dir ++ [name])) = some m) : n.kind = m.kind := by
  by_cases hmem : ∃ x ∈ done, target.under x.1 ≈ target.under (dir ++ [name])
  · obtain ⟨x, hx, hsame⟩ := hmem
    rw [← (target.under_equiv_iff _ _).mp hsame, h.carried x hx,
      (target.under_equiv_iff _ _).mp hsame, hn] at hm
    rw [Option.some.inj hm]
  · rw [h.elsewhere _ fun x hx hsame ↦ hmem ⟨x, hx, hsame⟩, if_neg] at hm
    · exact hfits.agrees _ n m hn hm
    · rintro ⟨-, -, hsupports⟩
      have hlength := hsupports.1.length_le
      simp at hlength

/-- **The target is made**, with the directories above it. -/
theorem LaidOver.opened (hclosed : s.Closed) (habs : target.isAbsolute = true)
    (hroot : target.isRoot = false) (hdir : store.node? source = some .dir)
    (hstored : ∀ x ∈ done, store.node? (source.under x.1) ≠ none) :
    ∃ s', s.mkdir target true = .ok s' ∧
      LaidOver store source target (done ++ [([], .directory)]) s' := by
  have hclear : ∀ q : Path, q.Supports target → s.node? q = none ∨ s.node? q = some .dir :=
    fun q hq ↦ h.clear hfits hdir hq
  obtain ⟨s', hmade, hview⟩ := (hclosed.isOpen habs hclear).mkdir
  refine ⟨s', hmade, fun x hx ↦ ?_, fun q hq ↦ ?_⟩
  · rcases List.mem_append.mp hx with hx | hx
    · rw [hview, if_neg, h.carried x hx]
      rw [h.carried x hx]
      exact fun hnone ↦ hstored x hx hnone.1
    · obtain rfl := List.mem_singleton.mp hx
      have hself : target.Supports target :=
        ⟨List.prefix_rfl, Path.parts_ne_nil_of_absolute habs, hroot⟩
      rw [Path.under_nil, Path.under_nil, hdir, hview]
      rcases hclear target hself with hnone | hthere
      · rw [if_pos ⟨hnone, hself⟩]
      · rw [if_neg (by simp [hthere]), hthere]
  · rw [hview, h.elsewhere q fun x hx ↦ hq x (List.mem_append_left _ hx)]
    by_cases hnew : store.node? q = none ∧ q.Supports target <;> by_cases hdone : done = [] <;>
      simp [hnew, hdone]

variable (hclosed : s.Closed) (habs : target.isAbsolute = true)
  (haround : (dir, .directory) ∈ done) (hdir : store.node? (source.under dir) = some .dir)
include hclosed haround hdir

omit hfits hclosed in
/-- The directory around an entry has been laid over when its turn comes. -/
theorem LaidOver.kindOf?_around : s.kindOf? (target.under dir) = some .directory :=
  kindOf?_eq_directory_iff.mpr (.inr ((h.carried _ haround).trans hdir))

include habs in
/-- **A directory** can be made in the target, or it is there. -/
theorem LaidOver.made (hstored : store.node? (source.under (dir ++ [name])) = some .dir) :
    ∃ s', s.mkdir (target.under (dir ++ [name])) true = .ok s' ∧
      LaidOver store source target (done ++ [(dir ++ [name], .directory)]) s' := by
  have hparts : (target.under (dir ++ [name])).parts =
      (target.under dir).parts ++ [.entry name] := by
    rw [Path.under_snoc, Path.parts_child]
  have hsupports : ∀ q : Path, q.Supports (target.under dir) → s.node? q = some .dir :=
    fun q hq ↦ hclosed.node?_of_supports (h.kindOf?_around haround hdir) hq
  have hself : s.node? (target.under (dir ++ [name])) = none ∨
      s.node? (target.under (dir ++ [name])) = some .dir := by
    rcases hnode : s.node? (target.under (dir ++ [name])) with - | - | bytes
    · exact .inl rfl
    · exact .inr rfl
    · cases h.agrees hfits hstored hnode
  have hopen : s.IsOpen (target.under (dir ++ [name])) := by
    refine hclosed.isOpen ?_ fun q hq ↦ ?_
    · exact Path.isAbsolute_of_prefix habs (by rw [Path.parts_under]; exact List.prefix_append _ _)
    · rcases (Path.supports_concat_iff hparts).mp hq with hsame | hq
      · rwa [← s.node?_congr hsame]
      · exact .inr (hsupports q hq)
  obtain ⟨s', hmade, hview⟩ := hopen.mkdir
  refine ⟨s', hmade, h.next (List.ne_nil_of_mem haround) ?_ fun q hq ↦ ?_⟩
  · rw [hview, hstored]
    have hitself : (target.under (dir ++ [name])).Supports (target.under (dir ++ [name])) :=
      (Path.supports_concat_iff hparts).mpr (.inl rfl)
    rcases hself with hnone | hthere
    · rw [if_pos ⟨hnone, hitself⟩]
    · rw [if_neg (by simp [hthere]), hthere]
  · rw [hview, if_neg]
    rintro ⟨hnone, hq'⟩
    rw [hsupports q (((Path.supports_concat_iff hparts).mp hq').resolve_left hq)] at hnone
    cases hnone

omit hclosed in
/-- **A file** can be copied into the target. -/
theorem LaidOver.copied (hstill : Still store source s) {bytes : ByteArray}
    (hstored : store.node? (source.under (dir ++ [name])) = some (.file bytes)) :
    ∃ s', s.copyFile (source.under (dir ++ [name])) (target.under (dir ++ [name])) = .ok s' ∧
      LaidOver store source target (done ++ [(dir ++ [name], .file)]) s' := by
  have hkind : s.kindOf? (target.under (dir ++ [name])) ≠ some .directory := by
    rw [kindOf?_of_not_root (Path.isRoot_under_snoc _ _ _)]
    rintro hdirectory
    obtain ⟨m, hm, hmkind⟩ := Option.map_eq_some_iff.mp hdirectory
    have := h.agrees hfits hstored hm
    rw [hmkind] at this
    cases this
  have hparent : s.requireParent (target.under (dir ++ [name])) = .ok () := by
    obtain ⟨parent, hparent, hsame⟩ := Path.parent?_of_parts
      (show (target.under (dir ++ [name])).parts = (target.under dir).parts ++ [.entry name] by
        rw [Path.under_snoc, Path.parts_child])
    rw [requireParent, hparent]
    dsimp only
    rw [s.kindOf?_congr hsame, h.kindOf?_around haround hdir]
  refine ⟨s.insert (target.under (dir ++ [name])) (.file bytes),
    copyFile_of_stored (by rw [hstill, hstored]) hkind hparent,
    h.next (List.ne_nil_of_mem haround) ?_ fun q hq ↦ ?_⟩
  · rw [node?_insert, if_pos rfl, hstored]
  · rw [node?_insert, if_neg hq]

end Entries

/-! ### The entries of a directory -/

/-- The entries of a directory whose names are texts can be listed: the walk through it finds them
all. -/
theorem exists_lists (hwf : store.WellFormed) (hspelled : store.SpelledBelow source)
    (hdir : store.node? source = some .dir) : ∃ all, Lists store source all := by
  let line : Operation := ⟨.copy, source, some source, true, 0, "", none, none⟩
  obtain ⟨items, -, -, -, hwhole⟩ := @Planner.inspectSource_memory store { root := source } source
    line hwf 0 (kindOf?_eq_directory_iff.mpr (.inr hdir)) rfl rfl
  obtain ⟨hclean, hwalk⟩ := hwhole hspelled
  exact ⟨_, Execution.inOrder_entriesOf hwalk, Execution.mem_entriesOf_iff hwalk hclean hdir⟩

/-- What comes before an entry in the order stands in front of it in the list. -/
theorem mem_take_of_order (horder : InOrder source all) {n : Nat} {x y : Entry}
    (hx : all[n]? = some x) (hy : y ∈ all)
    (hlt : (source.under y.1).order (source.under x.1) = .lt) : y ∈ all.take n := by
  obtain ⟨hn, hget⟩ := List.getElem?_eq_some_iff.mp hx
  have hsplit : all = all.take n ++ x :: all.drop (n + 1) := by
    rw [← hget, List.getElem_cons_drop, List.take_append_drop]
  rw [hsplit] at hy
  rcases List.mem_append.mp hy with hy | hy
  · exact hy
  · rcases List.mem_cons.mp hy with rfl | hy
    · rw [Path.order_self] at hlt
      cases hlt
    · rw [hsplit, InOrder, List.pairwise_append, List.pairwise_cons] at horder
      have hgt := horder.2.1.1 y hy
      rw [Path.order_gt_iff.mpr hlt] at hgt
      cases hgt

/-- **The directory around an entry stands in front of it.** -/
theorem Lists.around (hall : Lists store source all) (hwf : store.WellFormed)
    (hdir : store.node? source = some .dir) {n : Nat} {name : EntryName} {kind : EntryKind}
    (hx : all[n]? = some (dir ++ [name], kind)) : (dir, .directory) ∈ all.take n := by
  obtain ⟨node, hnode, -⟩ := (hall.mem _).mp (List.mem_of_getElem? hx)
  have hstored : store.node? (source.under dir) = some .dir := by
    rcases List.eq_nil_or_concat' dir with rfl | ⟨outer, last, rfl⟩
    · exact hdir
    · rw [Path.under_append, Path.under_snoc] at hnode
      rw [Path.under_snoc]
      exact hwf.dir_of_under hnode
  refine mem_take_of_order hall.order hx ((hall.mem _).mpr ⟨.dir, hstored, rfl⟩) ?_
  rw [Path.under_append]
  exact Path.order_under_self _ name []

/-! ### All entries -/

theorem closed_of_carryEntry {x : Entry} (h : s.Closed)
    (hcarry : carryEntry source target s x = .ok s') : s'.Closed := by
  obtain ⟨names, - | -⟩ := x
  · exact h.copyFile hcarry
  · exact h.mkdir hcarry

theorem closed_of_carryAll (h : s.Closed)
    (hcarry : all.foldlM (carryEntry source target) s = .ok s') : s'.Closed := by
  induction all generalizing s with
  | nil =>
    obtain rfl := Except.ok.inj hcarry
    exact h
  | cons x all ih =>
    rw [List.foldlM_cons, bind_eq_ok_iff] at hcarry
    obtain ⟨s₁, hx, hrest⟩ := hcarry
    exact ih (closed_of_carryEntry h hx) hrest

/-- What was below the source is below the target, and nothing else has changed but that the target
and the directories above it are there. -/
structure Overlaid (store : MemoryStore) (source target : Path) (s : MemoryStore) : Prop where
  carried : ∀ names n, store.node? (source.under names) = some n →
    s.node? (target.under names) = some n
  elsewhere : ∀ q, (∀ names, target.under names ≈ q → store.node? (source.under names) = none) →
    s.node? q = if store.node? q = none ∧ q.Supports target then some .dir else store.node? q

section Directories

variable (hall : Lists store source all) (hwf : store.WellFormed)
  (hdir : store.node? source = some .dir) (habs : target.isAbsolute = true)
include hall hwf hdir habs

/-- **Where one directory fits over another**, entry after entry can be laid over it. -/
theorem FitsOver.exists_laidOver (hfits : FitsOver store source target)
    (houtside : target.startsWith source = false) (hbeside : source.startsWith target = false)
    {n : Nat} (hn : n ≤ all.length) :
    ∃ s, (all.take n).foldlM (carryEntry source target) store = .ok s ∧
      LaidOver store source target (all.take n) s := by
  induction n with
  | zero => exact ⟨store, rfl, .start⟩
  | succ n ih =>
    obtain ⟨s, hfold, h⟩ := ih (Nat.le_of_succ_le hn)
    have hclosed : s.Closed := closed_of_carryAll hwf.closed hfold
    obtain ⟨x, hx⟩ : ∃ x, all[n]? = some x := ⟨_, List.getElem?_eq_getElem hn⟩
    have htake : all.take (n + 1) = all.take n ++ [x] := by
      rw [List.take_add_one, hx]
      rfl
    suffices hstep : ∃ s', carryEntry source target s x = .ok s' ∧
        LaidOver store source target (all.take n ++ [x]) s' by
      obtain ⟨s', hcarry, hnext⟩ := hstep
      exact ⟨s', htake ▸ carryAll_snoc_iff.mpr ⟨s, hfold, hcarry⟩, htake ▸ hnext⟩
    obtain ⟨node, hnode, hkind⟩ := (hall.mem x).mp (List.mem_of_getElem? hx)
    obtain ⟨names, kind⟩ := x
    obtain rfl : node.kind = kind := hkind
    rcases List.eq_nil_or_concat' names with rfl | ⟨dir, name, rfl⟩
    · obtain rfl : StoredNode.dir = node := Option.some.inj (hdir.symm.trans hnode)
      have hroot : target.isRoot = false := by
        refine Bool.eq_false_iff.mpr fun hroot ↦ ?_
        rw [Path.startsWith_of_isRoot (hwf.isAbsolute hdir) hroot] at hbeside
        cases hbeside
      refine h.opened hfits hclosed habs hroot hdir fun y hy ↦ ?_
      obtain ⟨m, hm, -⟩ := (hall.mem y).mp (List.mem_of_mem_take hy)
      simp [hm]
    · have haround := hall.around hwf hdir hx
      obtain ⟨m, hm, hmkind⟩ := (hall.mem _).mp (List.mem_of_mem_take haround)
      obtain rfl : m = .dir := by
        cases m with
        | dir => rfl
        | file bytes => cases hmkind
      cases node with
      | dir => exact h.made hfits hclosed habs haround hm hnode
      | file bytes =>
        have hstill : Still store source s := Still.carryAll (fun _ ↦ rfl) hfold houtside hbeside
        exact h.copied hfits haround hm hstill hnode

omit hwf habs in
/-- **All entries laid over** make an overlay. -/
theorem LaidOver.overlaid (h : LaidOver store source target all s) :
    Overlaid store source target s where
  carried names n hn := by
    have hmem : (names, n.kind) ∈ all := (hall.mem _).mpr ⟨n, hn, rfl⟩
    rw [h.carried _ hmem, hn]
  elsewhere q hq := by
    have hne : all ≠ [] := List.ne_nil_of_mem ((hall.mem ([], .directory)).mpr ⟨.dir, hdir, rfl⟩)
    rw [h.elsewhere q]
    · simp [hne]
    · intro x hx hsame
      obtain ⟨n, hn, -⟩ := (hall.mem x).mp hx
      rw [hq x.1 hsame] at hn
      cases hn

/-- **A directory can be carried over** only where it fits. -/
theorem fits_of_carryAll (h : all.foldlM (carryEntry source target) store = .ok s) :
    FitsOver store source target := by
  have hcarried := carriedOver_of_carryAll h
  have hkept : ∀ {q n}, store.node? q = some n → s.kindOf? q = some n.kind := fun {q n} hq ↦
    hcarried.kindOf?_keeps (hwf.kindOf? hq)
  have hmade : ∀ {names n}, store.node? (source.under names) = some n →
      s.kindOf? (target.under names) = some n.kind := fun {names n} hn ↦
    hcarried.kindOf?_target (x := (names, n.kind)) ((hall.mem _).mpr ⟨n, hn, rfl⟩) (by
      rw [Path.parts_under]
      exact List.append_ne_nil_of_left_ne_nil (Path.parts_ne_nil_of_absolute habs) _)
  constructor
  · intro q bytes hq hfile
    have hstored : store.node? (source.under []) = some .dir := hdir
    have hdirectory : s.kindOf? q = some .directory :=
      (closed_of_carryAll hwf.closed h).directory_above (hmade hstored) hq (hwf.parent hfile).1
    rw [hkept hfile] at hdirectory
    cases hdirectory
  · intro names n m hn hm
    exact Option.some.inj ((hmade hn).symm.trans (hkept hm))

end Directories

/-- **Where one directory fits over another**, copying it succeeds and leaves the overlay, if the
names in it are texts. -/
theorem FitsOver.exists_overlaid (h : FitsOver store source target) (hwf : store.WellFormed)
    (hspelled : store.SpelledBelow source) (hdir : store.node? source = some .dir)
    (habs : target.isAbsolute = true) (houtside : target.startsWith source = false)
    (hbeside : source.startsWith target = false) :
    ∃ s, runFrom store (backend.copyFolder source target).run = (.ok (), s) ∧
      Overlaid store source target s := by
  obtain ⟨all, hall⟩ := exists_lists hwf hspelled hdir
  obtain ⟨s, hfold, hlaid⟩ := h.exists_laidOver hall hwf hdir habs houtside hbeside le_rfl
  rw [List.take_length] at hfold hlaid
  exact ⟨s, (run_copyFolder_eq_ok_iff hall hwf hspelled houtside hbeside hdir).mpr hfold,
    hlaid.overlaid hall hdir⟩

/-- A directory with a file and a directory in it, and another one that has a file of the same
name. -/
def twoSketches : MemoryStore :=
  (((MemoryStore.empty.withFile (.ofText "/r/s/a/x") ⟨#[1]⟩).withFile (.ofText "/r/s/b")
    ⟨#[2]⟩).withFile (.ofText "/r/t/b") ⟨#[3]⟩).withFile (.ofText "/r/t/c") ⟨#[4]⟩

/-- The copy of the one directory over the other. -/
def sketchCopy : Except StorageError Unit × MemoryStore :=
  runFrom twoSketches (backend.copyFolder (.ofText "/r/s") (.ofText "/r/t")).run

/-- A directory fits where nothing is at the target, above it or below it. -/
theorem fits_of_apart (h : ∀ e ∈ store.entries, e.path.startsWith target = false ∧
    target.startsWith e.path = false) : FitsOver store source target := by
  constructor
  · intro q bytes hq hfile
    obtain ⟨e, he, hpath, -⟩ := node?_eq_some_iff.mp hfile
    rw [← Path.equiv_iff.mp hpath, ← Path.startsWith_iff, (h e he).2] at hq
    cases hq
  · intro names n m _ hm
    obtain ⟨e, he, hpath, -⟩ := node?_eq_some_iff.mp hm
    have hbelow := Path.startsWith_of_under hpath
    rw [(h e he).1] at hbelow
    cases hbelow

/-- A directory with a file in it whose name is no text. -/
def brokenSketch : MemoryStore :=
  MemoryStore.empty.withFile ((Path.ofText "/a").child .broken) ⟨#[120]⟩

end Transfer

end Scaffold
