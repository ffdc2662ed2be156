import Mathlib.Data.List.Induction
import Scaffold.Proofs.Listings
import Scaffold.Proofs.Store.Lookup

/-!
# Stores that are trees

A store is well formed when every entry lies in a directory (`WellFormed`). It follows that every
stored path is absolute and not the root (`WellFormed.isAbsolute`, `WellFormed.parent`) and that all
that is above an entry are directories (`WellFormed.directory_above`).

In a store that is also `Named`, every stored path is the root followed by names, so what lies below
a directory is reached from it along names (`Named.under_of_startsWith`).

What is in a directory are the names under which something is stored in it (`mem_contents_iff`), in
the order of the names (`contents_sorted`). The listing shows them as texts (`mem_listing_iff`), and
where they are texts it shows them as they are (`SpelledIn.list_eq`). Otherwise a listed name need
not lead back, and two names may be listed as one. A path that is stored is no longer than the store
is deep (`length_le_depth`), so walks that follow listings end.
-/

namespace Scaffold

namespace MemoryStore

variable {s s' : MemoryStore} {p q : Path} {n : StoredNode}

/-- Every entry lies in the root or in a stored directory. -/
def WellFormed (s : MemoryStore) : Prop :=
  ∀ e ∈ s.entries, ∃ parent, e.path.parent? = some parent ∧ s.kindOf? parent = some .directory

instance (s : MemoryStore) : Decidable s.WellFormed :=
  inferInstanceAs (Decidable (∀ e ∈ s.entries, ∃ parent, parent ∈ e.path.parent? ∧
    s.kindOf? parent = some .directory))

/-- What it is to be a directory: the root is one, and others are stored as such. -/
theorem kindOf?_eq_directory_iff :
    s.kindOf? p = some .directory ↔ p.parts = [.root] ∨ s.node? p = some .dir := by
  unfold kindOf?
  split
  · rename_i hroot
    simp [Path.isRoot_iff.mp hroot]
  · rename_i hroot
    rw [Path.isRoot_iff] at hroot
    rcases s.node? p with - | ⟨- | bytes⟩ <;> simp [StoredNode.kind, hroot]

/-- A directory other than the root is stored. -/
theorem node?_of_directory (hroot : p.isRoot = false) (h : s.kindOf? p = some .directory) :
    s.node? p = some .dir := by
  rcases kindOf?_eq_directory_iff.mp h with hparts | hstored
  · rw [Path.isRoot_iff.mpr hparts] at hroot
    cases hroot
  · exact hstored

namespace WellFormed

/-- The parent of what is stored is a directory. -/
theorem parent (h : s.WellFormed) (hp : s.node? p = some n) :
    p.parts ≠ [] ∧ p.parts ≠ [.root] ∧
      ∀ q : Path, q.parts = p.parts.dropLast → s.kindOf? q = some .directory := by
  obtain ⟨e, he, hep, -⟩ := node?_eq_some_iff.mp hp
  obtain ⟨parent, hparent, hdir⟩ := h e he
  have hparts : e.path.parts = p.parts := hep
  obtain ⟨hdrop, hne, hroot⟩ := Path.parent?_eq_some hparent
  rw [hparts] at hdrop hne hroot
  refine ⟨hne, hroot, fun q hq ↦ ?_⟩
  rw [s.kindOf?_congr (q := parent) (hq.trans hdrop.symm)]
  exact hdir

/-- The root is not stored. -/
theorem isRoot_eq_false (h : s.WellFormed) (hp : s.node? p = some n) : p.isRoot = false := by
  rw [Bool.eq_false_iff, Ne, Path.isRoot_iff]
  exact (h.parent hp).2.1

/-- What is stored is of the kind of what is stored. -/
theorem kindOf? (h : s.WellFormed) (hp : s.node? p = some n) : s.kindOf? p = some n.kind :=
  kindOf?_of_node? (h.isRoot_eq_false hp) hp

/-- **What is above an entry is a directory.** -/
theorem directory_above (h : s.WellFormed) {rest : List Part} (hp : s.node? p = some n)
    (hq : q.parts ≠ []) (hrest : rest ≠ []) (hparts : p.parts = q.parts ++ rest) :
    s.kindOf? q = some .directory := by
  induction rest using List.reverseRecOn generalizing p n with
  | nil => exact absurd rfl hrest
  | append_singleton rest part ih =>
    have hdrop : p.parts.dropLast = q.parts ++ rest := by
      rw [hparts, ← List.append_assoc, List.dropLast_concat]
    obtain ⟨-, -, hparent⟩ := h.parent hp
    rcases List.eq_nil_or_concat' rest with rfl | ⟨rest', part', rfl⟩
    · exact hparent q (by rw [hdrop, List.append_nil])
    -- the parent is stored too, since it is longer than the root
    · let parent : Path := ⟨p.pieces.dropLast, ""⟩
      have hparentParts : parent.parts = q.parts ++ (rest' ++ [part']) := by
        rw [← hdrop]
        simp [parent, Path.parts]
      have hdir := hparent parent (by rw [hparentParts, hdrop])
      rcases kindOf?_eq_directory_iff.mp hdir with hroot | hstored
      · rw [hparentParts] at hroot
        have hlength := congrArg List.length hroot
        have := List.length_pos_iff.mpr hq
        simp at hlength
        omega
      · exact ih hstored (by simp) hparentParts

/-- What has something in it is stored as a directory. -/
theorem dir_of_under (h : s.WellFormed) {name next : EntryName} {more : List EntryName}
    (hp : s.node? ((p.child name).under (next :: more)) = some n) :
    s.node? (p.child name) = some .dir := by
  have hparts := Path.parts_under (p.child name) (next :: more)
  exact node?_of_directory (Path.isRoot_child p name)
    (h.directory_above hp (by simp) (by simp) hparts)

/-- The first step towards something that is stored leads to something stored. -/
theorem child_of_under (h : s.WellFormed) {name : EntryName} {more : List EntryName}
    (hp : (s.node? (p.under (name :: more))).isSome = true) :
    (s.node? (p.child name)).isSome = true := by
  rcases more with - | ⟨next, more⟩
  · exact hp
  · obtain ⟨n, hn⟩ := Option.isSome_iff_exists.mp hp
    rw [h.dir_of_under hn]
    rfl

/-- **What is stored is absolute**, and longer than the root. -/
theorem isAbsolute (h : s.WellFormed) (hp : s.node? p = some n) : p.isAbsolute = true := by
  -- nothing is stored under a single part, because its parent would be the empty path
  have hsingle : ∀ (q : Path) (part : Part) (n' : StoredNode), q.parts = [part] →
      s.node? q ≠ some n' := by
    intro q part n' hq hstored
    have hdir := (h.parent hstored).2.2 ⟨[], ""⟩ (by rw [hq]; rfl)
    rcases kindOf?_eq_directory_iff.mp hdir with hroot | hempty
    · cases hroot
    · exact (h.parent hempty).1 rfl
  obtain ⟨hne, -, -⟩ := h.parent hp
  rcases hparts : p.parts with - | ⟨part, rest⟩
  · exact absurd hparts hne
  · let first : Path := ⟨p.pieces.take 1, ""⟩
    have hfirst : first.parts = [part] := by
      simp only [first, Path.parts, List.map_take]
      rw [show p.pieces.map Piece.part = part :: rest from hparts]
      rfl
    have hrest : rest ≠ [] := by
      rintro rfl
      exact hsingle p part n hparts hp
    have hne : first.parts ≠ [] := by simp [hfirst]
    have hdir := h.directory_above hp hne hrest (by simp [hparts, hfirst])
    rcases kindOf?_eq_directory_iff.mp hdir with hroot | hstored
    · rw [hfirst] at hroot
      simp [Path.isAbsolute, hparts, (List.cons.inj hroot).1]
    · exact absurd hstored (hsingle first part .dir hfirst)

end WellFormed

/-! ### Names -/

/-- Every stored path is the root followed by names. -/
def Named (s : MemoryStore) : Prop := ∀ e ∈ s.entries, e.path.isNamed = true

instance (s : MemoryStore) : Decidable s.Named :=
  inferInstanceAs (Decidable (∀ e ∈ s.entries, e.path.isNamed = true))

/-- **What is stored below a directory** is reached from it along names. -/
theorem Named.under_of_startsWith (h : s.Named) (hp : s.node? p = some n) (hq : q.parts ≠ [])
    (hstart : p.startsWith q = true) : ∃ names, p ≈ q.under names := by
  obtain ⟨e, he, hep, -⟩ := node?_eq_some_iff.mp hp
  obtain ⟨names, hnames⟩ := Path.isNamed_iff.mp (h e he)
  have hparts : p.parts = .root :: names.map .entry := by
    rw [← Path.equiv_iff.mp hep, Path.equiv_iff.mp hnames, Path.parts_under]
    rfl
  obtain ⟨rest, hrest⟩ := Path.startsWith_iff.mp hstart
  obtain ⟨first, more, hfirst⟩ := List.exists_cons_of_ne_nil hq
  rw [hparts, hfirst, List.cons_append] at hrest
  -- behind the root there are only names
  obtain ⟨above, below, -, -, hbelow⟩ := List.map_eq_append_iff.mp (List.cons.inj hrest).2.symm
  refine ⟨below, ?_⟩
  rw [Path.equiv_iff, Path.parts_under, hparts, ← hrest, hfirst, hbelow, List.cons_append]

/-! ### Listings -/

/-- The entry of the directory `p` that a stored path is, if it is a child of it. -/
theorem entryIn?_eq_some_iff {e : StoredEntry} {entry : DirEntry} :
    entryIn? p e = some entry ↔
      e.path.parts = p.parts ++ [.entry entry.name] ∧ e.node.kind = entry.kind := by
  unfold entryIn?
  constructor
  · intro h
    split at h
    · rename_i parent hparent
      split at h
      · rename_i heq
        obtain ⟨hdrop, hne, -⟩ := Path.parent?_eq_some hparent
        obtain ⟨name, hname, rfl⟩ := Option.map_eq_some_iff.mp h
        have hlast : e.path.parts.getLast? = some (.entry name) := by
          unfold Path.fileName? at hname
          split at hname
          · rename_i name' hlast
            rwa [Option.some.inj hname] at hlast
          · cases hname
        rw [← Path.equiv_iff.mp heq, hdrop]
        exact ⟨(List.dropLast_append_getLast? _ hlast).symm, rfl⟩
      · cases h
    · cases h
  · rintro ⟨hparts, hkind⟩
    obtain ⟨parent, hparent, heq⟩ := Path.parent?_of_parts hparts
    rw [hparent]
    simp only [if_pos heq, Path.fileName?, hparts, List.getLast?_concat, Option.map_some, hkind]

/-- **What is in a directory** are the names under which something is stored in it. -/
theorem mem_contents_iff {entry : DirEntry} :
    entry ∈ s.contents p ↔ ∃ n, s.node? (p.child entry.name) = some n ∧ n.kind = entry.kind := by
  simp only [contents, List.mem_filterMap, entryIn?_eq_some_iff, node?_eq_some_iff, Path.equiv_iff,
    Path.parts_child]
  constructor
  · rintro ⟨e, he, hparts, hkind⟩
    exact ⟨e.node, ⟨e, he, hparts, rfl⟩, hkind⟩
  · rintro ⟨-, ⟨e, he, hparts, rfl⟩, hkind⟩
    exact ⟨e, he, hparts, hkind⟩

/-- **What is in a directory is sorted by name**, and no name is in it twice. -/
theorem contents_sorted (s : MemoryStore) (p : Path) :
    (s.contents p).Pairwise fun a b ↦ (p.child a.name).order (p.child b.name) = .lt := by
  rw [contents, List.pairwise_filterMap]
  refine s.sorted.imp fun {x y} hxy a ha b hb ↦ ?_
  have hax := (entryIn?_eq_some_iff.mp ha).1
  have hby := (entryIn?_eq_some_iff.mp hb).1
  rw [Path.order, Path.parts_child, Path.parts_child, ← hax, ← hby]
  exact hxy

/-- A directory is listed as what is in it. -/
theorem list_eq_ok_iff {listing : List DirEntry} :
    s.list p = .ok listing ↔ s.kindOf? p = some .directory ∧
      listing = DirEntry.sortByName ((s.contents p).map DirEntry.listed) := by
  unfold list
  rcases s.kindOf? p with - | ⟨- | -⟩ <;> simp [eq_comm]

/-- **A listing shows the names under which something is stored**, as texts. -/
theorem mem_listing_iff {listing : List DirEntry} (h : s.list p = .ok listing) (entry : DirEntry) :
    entry ∈ listing ↔
      ∃ name n, s.node? (p.child name) = some n ∧ entry = ⟨name.listed, n.kind⟩ := by
  rw [(list_eq_ok_iff.mp h).2, DirEntry.mem_sortByName, List.mem_map]
  constructor
  · rintro ⟨e, he, rfl⟩
    obtain ⟨n, hn, hkind⟩ := mem_contents_iff.mp he
    exact ⟨e.name, n, hn, by rw [DirEntry.listed, hkind]⟩
  · rintro ⟨name, n, hn, rfl⟩
    exact ⟨⟨name, n.kind⟩, mem_contents_iff.mpr ⟨n, hn, rfl⟩, rfl⟩

theorem isText_of_mem_listing {listing : List DirEntry} (h : s.list p = .ok listing)
    {entry : DirEntry} (hentry : entry ∈ listing) : entry.name.isText = true := by
  obtain ⟨name, n, -, rfl⟩ := (mem_listing_iff h entry).mp hentry
  rfl

/-- Listings show what is stored. -/
theorem list_congr {listing : List DirEntry} (hs : s.list p = .ok listing)
    (hdir : s'.kindOf? p = some .directory)
    (h : ∀ name, s'.node? (p.child name) = s.node? (p.child name)) : s'.list p = .ok listing := by
  have hcontents : s'.contents p = s.contents p := by
    refine Path.eq_of_ordered (fun e : DirEntry ↦ (p.child e.name).parts)
      (contents_sorted s' p) (contents_sorted s p) fun entry ↦ ?_
    rw [mem_contents_iff, mem_contents_iff, h]
  rw [list_eq_ok_iff, hcontents]
  exact ⟨hdir, (list_eq_ok_iff.mp hs).2⟩

/-! ### Names that are texts -/

/-- Every name in the directory `p` is a text. -/
def SpelledIn (s : MemoryStore) (p : Path) : Prop :=
  ∀ e ∈ s.contents p, e.name.isText = true

instance (s : MemoryStore) (p : Path) : Decidable (s.SpelledIn p) :=
  inferInstanceAs (Decidable (∀ e ∈ s.contents p, e.name.isText = true))

/-- Every name on the way from `p` to what is stored below it is a text. -/
def SpelledBelow (s : MemoryStore) (p : Path) : Prop :=
  ∀ e ∈ s.entries, e.path.startsWith p = true →
    ∀ part ∈ e.path.parts.drop p.parts.length, part.isText = true

instance (s : MemoryStore) (p : Path) : Decidable (s.SpelledBelow p) :=
  inferInstanceAs (Decidable (∀ e ∈ s.entries, e.path.startsWith p = true →
    ∀ part ∈ e.path.parts.drop p.parts.length, part.isText = true))

/-- **Names that lead to something stored** are texts, where all names are. -/
theorem SpelledBelow.isText (h : s.SpelledBelow p) {names : List EntryName}
    (hp : s.node? (p.under names) = some n) {name : EntryName} (hname : name ∈ names) :
    name.isText = true := by
  obtain ⟨e, he, hpath, -⟩ := node?_eq_some_iff.mp hp
  have hparts := Path.equiv_iff.mp hpath
  refine h e he (Path.startsWith_of_under hpath) (.entry name) ?_
  rw [hparts, Path.parts_under, List.drop_left]
  exact List.mem_map_of_mem hname

theorem SpelledBelow.under (h : s.SpelledBelow p) (names : List EntryName) :
    s.SpelledBelow (p.under names) := by
  intro e he hstart part hpart
  rw [Path.startsWith_iff, Path.parts_under] at hstart
  refine h e he (Path.startsWith_iff.mpr ((List.prefix_append _ _).trans hstart)) part ?_
  rw [Path.parts_under, List.length_append, ← List.drop_drop] at hpart
  exact List.mem_of_mem_drop hpart

theorem SpelledBelow.child (h : s.SpelledBelow p) (name : EntryName) :
    s.SpelledBelow (p.child name) :=
  h.under [name]

theorem SpelledBelow.spelledIn (h : s.SpelledBelow p) : s.SpelledIn p := by
  intro e he
  obtain ⟨n, hn, -⟩ := mem_contents_iff.mp he
  have hnode : s.node? (p.under [e.name]) = some n := hn
  exact h.isText hnode List.mem_cons_self

/-- **A directory whose names are texts** is listed as what is in it. -/
theorem SpelledIn.list_eq (h : s.SpelledIn p) {listing : List DirEntry}
    (hlist : s.list p = .ok listing) : listing = s.contents p := by
  rw [(list_eq_ok_iff.mp hlist).2]
  refine DirEntry.sortByName_listed ((contents_sorted s p).imp fun {a b} hlt ↦ ?_) h
  rw [Path.order_child] at hlt
  exact Ordering.isLE_of_eq_lt hlt

theorem SpelledIn.mem_listing_iff (h : s.SpelledIn p) {listing : List DirEntry}
    (hlist : s.list p = .ok listing) {entry : DirEntry} :
    entry ∈ listing ↔ ∃ n, s.node? (p.child entry.name) = some n ∧ n.kind = entry.kind := by
  rw [h.list_eq hlist, mem_contents_iff]

/-- Such a listing is sorted by name, and no name is in it twice. -/
theorem SpelledIn.listing_sorted (h : s.SpelledIn p) {listing : List DirEntry}
    (hlist : s.list p = .ok listing) :
    listing.Pairwise fun a b ↦ (p.child a.name).order (p.child b.name) = .lt := by
  rw [h.list_eq hlist]
  exact contents_sorted s p

/-! ### Depth -/

/-- **What is stored is no longer than the store is deep.** -/
theorem length_le_depth (hp : s.node? p = some n) : p.parts.length ≤ s.depth := by
  obtain ⟨e, he, hep, -⟩ := node?_eq_some_iff.mp hp
  rw [← Path.equiv_iff.mp hep]
  have hfold : ∀ (l : List StoredEntry) (m : Nat),
      m ≤ l.foldl (fun n e ↦ max n e.path.parts.length) m ∧
        ∀ e ∈ l, e.path.parts.length ≤ l.foldl (fun n e ↦ max n e.path.parts.length) m := by
    intro l
    induction l with
    | nil => simp
    | cons x l ih =>
      intro m
      obtain ⟨hm, hl⟩ := ih (max m x.path.parts.length)
      refine ⟨Nat.le_trans (Nat.le_max_left _ _) hm, fun e he ↦ ?_⟩
      rcases List.mem_cons.mp he with rfl | he
      · exact Nat.le_trans (Nat.le_max_right _ _) hm
      · exact hl e he
  exact (hfold s.entries 0).2 e he

end MemoryStore

end Scaffold
