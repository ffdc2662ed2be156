import Scaffold.Proofs.Lists
import Scaffold.Proofs.Paths

/-!
# Looking things up in a changed store

A store is seen through `MemoryStore.node?`, which depends on the parts of a path only. Every change
of the entries is one equation on that view: inserting and erasing change it at one path
(`node?_insert`, `node?_erase`), storing directories adds directories and nothing else (`Grows`),
and removing a directory empties the view at and below it (`rm_directory`), because it leaves
exactly the entries that do not start with its path (`rm_directory_eq`).

The last one rests on the order of the entries. `descendants` is a scan that stops at the first
entry that is not below, and because a monotone condition cuts a sorted list into two pieces it
finds all that is below (`descendants_eq_filter`).
-/

namespace Scaffold

namespace MemoryStore

variable {s s' : MemoryStore} {p q r : Path} {n : StoredNode}

/-! ### The view -/

/-- A store is its entries. -/
theorem eq_of_entries (h : s.entries = s'.entries) : s = s' := by
  cases s
  cases s'
  rw [mk.injEq]
  exact h

/-- Two spellings of a path show the same. -/
theorem node?_congr (s : MemoryStore) (h : p ≈ q) : s.node? p = s.node? q := by
  have hpq : p.parts = q.parts := h
  unfold node?
  simp only [Path.equiv_iff, hpq]

/-- The root is a directory. -/
theorem kindOf?_of_isRoot (h : p.isRoot = true) : s.kindOf? p = some .directory := if_pos h

theorem kindOf?_of_not_root (h : p.isRoot = false) :
    s.kindOf? p = (s.node? p).map StoredNode.kind := if_neg (by simp [h])

theorem kindOf?_of_node? (hroot : p.isRoot = false) {n : StoredNode} (h : s.node? p = some n) :
    s.kindOf? p = some n.kind := by
  rw [kindOf?_of_not_root hroot, h]
  rfl

/-- A file is read by looking it up. -/
theorem read_eq_ok_iff {bytes : ByteArray} :
    s.read p = .ok bytes ↔ s.node? p = some (.file bytes) := by
  rw [read]
  rcases hnode : s.node? p with _ | _ | found
  · simp only [reduceCtorEq, iff_false]
    split <;> simp
  · simp
  · simp

/-- What is not a directory is not the root. -/
theorem isRoot_eq_false (h : s.kindOf? p ≠ some .directory) : p.isRoot = false := by
  by_contra hroot
  exact h (kindOf?_of_isRoot (Bool.not_eq_false _ ▸ hroot))

theorem kindOf?_congr (s : MemoryStore) (h : p ≈ q) : s.kindOf? p = s.kindOf? q := by
  have hpq : p.parts = q.parts := h
  unfold kindOf?
  rw [s.node?_congr h, Path.isRoot, Path.isRoot, hpq]

/-- Entries of one path are one entry. -/
theorem eq_of_path_equiv {e e' : StoredEntry} (he : e ∈ s.entries) (he' : e' ∈ s.entries)
    (h : e.path ≈ e'.path) : e = e' := by
  have hne : s.entries.Pairwise fun a b ↦ ¬a.path ≈ b.path := by
    refine s.sorted.imp fun {a b} hlt heq ↦ ?_
    rw [Path.order_eq_iff.mpr heq] at hlt
    cases hlt
  refine List.Pairwise.forall_of_forall_of_flip (R := fun a b ↦ a.path ≈ b.path → a = b)
    (fun _ _ _ ↦ rfl) ?_ ?_ he he' h
  · exact hne.imp fun hab heq ↦ absurd heq hab
  · exact hne.imp fun hab heq ↦ absurd (Eq.symm heq) hab

/-- **The view shows the entries.** -/
theorem node?_eq_some_iff :
    s.node? p = some n ↔ ∃ e ∈ s.entries, e.path ≈ p ∧ e.node = n := by
  unfold node?
  rw [Option.map_eq_some_iff]
  constructor
  · rintro ⟨e, he, rfl⟩
    exact ⟨e, List.mem_of_find?_eq_some he, by simpa using List.find?_some he, rfl⟩
  · rintro ⟨e, he, hep, rfl⟩
    have hsome : (s.entries.find? fun x ↦ decide (x.path ≈ p)).isSome := by
      rw [List.find?_isSome]
      exact ⟨e, he, by simpa using hep⟩
    obtain ⟨e', he'⟩ := Option.isSome_iff_exists.mp hsome
    have hep' : e'.path ≈ p := by simpa using List.find?_some he'
    have heq : e.path ≈ e'.path := Eq.trans hep hep'.symm
    rw [eq_of_path_equiv he (List.mem_of_find?_eq_some he') heq]
    exact ⟨e', he', rfl⟩

/-! ### Inserting and erasing -/

/-- **Inserting changes the view at one path.** -/
theorem node?_insert (s : MemoryStore) (p q : Path) (n : StoredNode) :
    (s.insert p n).node? q = if p ≈ q then some n else s.node? q := by
  simp only [node?, insert, Path.equiv_iff]
  generalize s.entries = l
  induction l with
  | nil => by_cases hpq : p.parts = q.parts <;> simp [insertEntry, hpq]
  | cons x l ih =>
    rw [insertEntry]
    split
    · by_cases hpq : p.parts = q.parts <;> simp [List.find?_cons, hpq]
    · rename_i heq
      have hpx : p.parts = x.path.parts := Path.order_eq_iff.mp heq
      by_cases hxq : x.path.parts = q.parts <;> simp [hpx, hxq]
    · rename_i hgt
      by_cases hxq : x.path.parts = q.parts
      · have hpq : p.parts ≠ q.parts := by
          intro hpq
          rw [Path.order_eq_iff.mpr (hpq.trans hxq.symm)] at hgt
          cases hgt
        simp [hxq, hpq]
      · simpa [List.find?_cons, hxq] using ih

/-- **Erasing empties the view at one path.** -/
theorem node?_erase (s : MemoryStore) (p q : Path) :
    (s.erase p).node? q = if p ≈ q then none else s.node? q := by
  simp only [node?, erase, Path.equiv_iff, List.find?_filter]
  split
  · rename_i hpq
    simp [hpq]
  · rename_i hpq
    congr 2
    funext e
    by_cases he : e.path.parts = q.parts
    · simp [he, Ne.symm hpq]
    · simp [he]

/-! ### Storing directories -/

/-- `s'` has everything that `s` has, and beyond that only directories, at or above `p`. -/
structure Grows (p : Path) (s s' : MemoryStore) : Prop where
  keeps : ∀ {q n}, s.node? q = some n → s'.node? q = some n
  adds : ∀ {q n}, s'.node? q = some n → s.node? q = some n ∨ n = .dir ∧ q.parts <+: p.parts

theorem Grows.congr (h : Grows p s s') (hpq : p ≈ q) : Grows q s s' where
  keeps := h.keeps
  adds hr := by
    rw [← Path.equiv_iff.mp hpq]
    exact h.adds hr

theorem Grows.refl (p : Path) (s : MemoryStore) : Grows p s s := ⟨id, .inl⟩

theorem Grows.trans {t : MemoryStore} (h : Grows p s s') (h' : Grows p s' t) : Grows p s t where
  keeps hq := h'.keeps (h.keeps hq)
  adds hq := (h'.adds hq).elim h.adds .inr

/-- What is added at or above a parent is added above the path. -/
theorem Grows.below (h : Grows q s s') (hparent : p.parent? = some q) : Grows p s s' where
  keeps := h.keeps
  adds hr := by
    refine (h.adds hr).imp_right (And.imp_right fun hstarts ↦ hstarts.trans ?_)
    rw [(Path.parent?_eq_some hparent).1]
    exact List.dropLast_prefix _

theorem Grows.kindOf?_keeps (h : Grows p s s') {kind : EntryKind} (hq : s.kindOf? q = some kind) :
    s'.kindOf? q = some kind := by
  rcases hroot : q.isRoot with - | -
  · rw [kindOf?_of_not_root hroot] at hq
    obtain ⟨n, hn, rfl⟩ := Option.map_eq_some_iff.mp hq
    exact kindOf?_of_node? hroot (h.keeps hn)
  · rw [kindOf?_of_isRoot hroot] at hq ⊢
    exact hq

/-- Growing does not touch files. -/
theorem Grows.file_iff (h : Grows p s s') {bytes : ByteArray} :
    s'.node? q = some (.file bytes) ↔ s.node? q = some (.file bytes) := by
  constructor
  · intro hq
    rcases h.adds hq with hold | ⟨hdir, -⟩
    · exact hold
    · cases hdir
  · exact h.keeps

/-- Storing a directory, unless something is there. -/
theorem grows_insertDir (hq : q.parts <+: p.parts) : Grows p s (s.insertDir q) := by
  unfold insertDir
  split
  · exact .refl p s
  · rename_i habsent
    have hnone : s.node? q = none := by
      rw [Bool.or_eq_true, not_or] at habsent
      simpa using habsent.2
    constructor
    · intro r n hr
      rw [node?_insert, if_neg]
      · exact hr
      · intro hqr
        rw [s.node?_congr hqr, hr] at hnone
        cases hnone
    · intro r n hr
      rw [node?_insert] at hr
      split at hr
      · rename_i hqr
        exact .inr ⟨(Option.some.inj hr).symm, Path.equiv_iff.mp hqr ▸ hq⟩
      · exact .inl hr

/-- **Storing a path of directories** changes nothing that is there. -/
theorem grows_insertDirs (s : MemoryStore) (p : Path) : Grows p s (s.insertDirs p) := by
  have hall : ∀ q ∈ p :: p.ancestors, q.parts <+: p.parts := by
    intro q hq
    rcases List.mem_cons.mp hq with rfl | hq
    · exact List.prefix_rfl
    · exact Path.isPrefix_of_mem_ancestors hq
  unfold insertDirs
  generalize p :: p.ancestors = l at hall
  induction l generalizing s with
  | nil => exact .refl p s
  | cons q l ih =>
    have hq := List.forall_mem_cons.mp hall
    exact (grows_insertDir hq.1).trans (ih _ hq.2)

/-! ### Removing -/

/-- **The scan for what is below a path finds all of it.** -/
theorem descendants_eq_filter (s : MemoryStore) (p : Path) :
    s.descendants p = s.entries.filter fun e ↦ e.path.startsWith p && !decide (e.path ≈ p) := by
  have hbehind : s.entries.dropWhile (fun e ↦ e.path.order p == .lt) =
      s.entries.filter fun e ↦ !(e.path.order p == .lt) := by
    refine dropWhile_eq_filter_not (s.sorted.imp fun {a b} hab hb ↦ ?_)
    exact beq_iff_eq.mpr (Path.order_lt_trans hab (beq_iff_eq.mp hb))
  unfold descendants
  simp only
  rw [hbehind, takeWhile_eq_filter, List.filter_filter, List.filter_filter]
  · refine List.filter_congr fun e _ ↦ ?_
    rcases hstart : e.path.startsWith p
    · rfl
    · simp [Path.not_order_lt_of_startsWith hstart]
  -- between `p` and something below it there is only what is below it
  · rw [List.pairwise_filter, List.pairwise_filter]
    refine s.sorted.imp fun {a b} hab ha _ _ _ hb ↦ ?_
    rw [Path.startsWith_iff] at hb ⊢
    refine Path.isPrefix_of_between hb ?_ (Ordering.isLE_of_eq_lt hab)
    by_contra hnle
    have hlt : compare a.path.parts p.parts = .lt := Std.OrientedCmp.lt_of_not_isLE hnle
    rw [← Path.order] at hlt
    simp [hlt] at ha

theorem mem_descendants {e : StoredEntry} :
    e ∈ s.descendants p ↔ e ∈ s.entries ∧ e.path.startsWith p = true ∧ ¬e.path ≈ p := by
  rw [descendants_eq_filter]
  simp

/-- The store without what is at or below a path. -/
def without (s : MemoryStore) (p : Path) : MemoryStore :=
  ⟨s.entries.filter fun e ↦ !e.path.startsWith p, s.sorted.filter _⟩

theorem node?_without (s : MemoryStore) (p q : Path) :
    (s.without p).node? q = if q.startsWith p then none else s.node? q := by
  -- whether an entry starts with `p` depends on its parts only
  have hstart : ∀ e : StoredEntry, e.path.parts = q.parts →
      e.path.startsWith p = q.startsWith p := by
    intro e he
    rw [Path.startsWith, he, Path.startsWith]
  simp only [node?, without, Path.equiv_iff, List.find?_filter]
  split
  · rename_i hq
    rw [Option.map_eq_none_iff, List.find?_eq_none]
    rintro e - he
    simp only [decide_eq_true_eq] at he
    rw [hstart e he.2, hq] at he
    cases he.1
  · rename_i hq
    congr 2
    funext e
    by_cases he : e.path.parts = q.parts
    · simp [he, hstart e he, hq]
    · simp [he]

theorem entries_erase (s : MemoryStore) (p : Path) :
    (s.erase p).entries = s.entries.filter fun e ↦ !decide (e.path ≈ p) := rfl

/-- Erasing entries one after the other. -/
theorem entries_foldl_erase (s : MemoryStore) (l : List StoredEntry) :
    (l.foldl (fun s e ↦ s.erase e.path) s).entries =
      s.entries.filter fun e ↦ !l.any fun x ↦ decide (e.path ≈ x.path) := by
  induction l generalizing s with
  | nil => exact (List.filter_eq_self.mpr fun _ _ ↦ rfl).symm
  | cons x l ih =>
    rw [List.foldl_cons, ih, entries_erase, List.filter_filter]
    refine List.filter_congr fun e _ ↦ ?_
    rw [List.any_cons, Bool.not_or, Bool.and_comm]

/-- **Removing a directory with what is below it** leaves the other entries as they are. -/
theorem rm_directory_eq (h : s.kindOf? p = some .directory) : s.rm p true = .ok (s.without p) := by
  simp only [rm, h, Bool.not_true, Bool.and_false, Bool.false_eq_true, if_false]
  refine congrArg Except.ok (eq_of_entries ?_)
  rw [entries_erase, entries_foldl_erase, List.filter_filter]
  refine List.filter_congr fun e he ↦ ?_
  by_cases hep : e.path ≈ p
  · simp [hep, Path.startsWith_of_equiv hep]
  · have hfound : ((s.descendants p).any fun x ↦ decide (e.path ≈ x.path)) =
        e.path.startsWith p := by
      rw [Bool.eq_iff_iff, List.any_eq_true]
      constructor
      · rintro ⟨x, hx, hex⟩
        rw [Path.startsWith, Path.equiv_iff.mp (of_decide_eq_true hex)]
        exact (mem_descendants.mp hx).2.1
      · exact fun hstart ↦ ⟨e, mem_descendants.mpr ⟨he, hstart, hep⟩, decide_eq_true rfl⟩
    rw [hfound, decide_eq_false hep]
    rfl

/-- Removing a directory empties the view there, and nowhere else. -/
theorem rm_directory (h : s.kindOf? p = some .directory) :
    ∃ s', s.rm p true = .ok s' ∧
      ∀ q, s'.node? q = if q.startsWith p then none else s.node? q :=
  ⟨s.without p, rm_directory_eq h, s.node?_without p⟩

end MemoryStore

end Scaffold
