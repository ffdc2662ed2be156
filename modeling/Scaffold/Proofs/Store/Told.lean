import Scaffold.Proofs.Store.Tree

/-!
# What a walk is told

A walk through a directory knows it from listings, and goes on wherever one says that there is a
directory. Names are listed as texts, so what it is told (`MemoryStore.told`) may differ from what
is stored: a text need not lead back to what has the name, and two names may be told as one.

Four things hold all the same. What is stored under names that are texts is told
(`mem_told_of_texts`). Of what is told under some names, whatever else is stored under them is told
too (`mem_told_of_node?`), so a text that leads to something of another kind is told with both
kinds. All names that are told are texts (`isText_of_mem_told`). And nothing is told before the
directory around it (`behind_told`).
-/

namespace Scaffold

/-! ### Behind its directory -/

/-- Each of the entries stands behind the directory around it, when those in `seen` stand in front
of all of them. -/
def Behind (seen : List (List EntryName × EntryKind)) : List (List EntryName × EntryKind) → Prop
  | [] => True
  | x :: rest => (x.1.dropLast, .directory) ∈ seen ∧ Behind (seen ++ [x]) rest

namespace Behind

variable {seen seen' l l' : List (List EntryName × EntryKind)}

theorem mono (h : Behind seen l) (hmore : seen ⊆ seen') : Behind seen' l := by
  induction l generalizing seen seen' with
  | nil => trivial
  | cons x l ih =>
    refine ⟨hmore h.1, ih h.2 fun y hy ↦ ?_⟩
    rw [List.mem_append] at hy ⊢
    exact hy.imp_left fun hy ↦ hmore hy

theorem append (h : Behind seen l) (h' : Behind seen l') : Behind seen (l ++ l') := by
  induction l generalizing seen with
  | nil => exact h'
  | cons x l ih => exact ⟨h.1, ih h.2 (h'.mono (List.subset_append_left _ _))⟩

theorem flatMap {α : Type} {blocks : α → List (List EntryName × EntryKind)} {items : List α}
    (h : ∀ a ∈ items, Behind seen (blocks a)) : Behind seen (items.flatMap blocks) := by
  induction items with
  | nil => trivial
  | cons a items ih =>
    rw [List.flatMap_cons]
    exact (h a List.mem_cons_self).append (ih fun a ha ↦ h a (List.mem_cons_of_mem _ ha))

/-- **The directory around an entry** is among those in front of it. -/
theorem mem_take (h : Behind seen l) {n : Nat} {x : List EntryName × EntryKind}
    (hx : l[n]? = some x) : (x.1.dropLast, .directory) ∈ seen ++ l.take n := by
  induction l generalizing seen n with
  | nil => simp at hx
  | cons y l ih =>
    rcases n with - | n
    · obtain rfl : y = x := by simpa using hx
      exact List.mem_append_left _ h.1
    · have hlater := ih h.2 (by simpa using hx)
      rwa [List.append_assoc] at hlater

end Behind

namespace MemoryStore

variable {s : MemoryStore} {source : Path} {depth : Nat} {dir : List EntryName}
  {listing : List DirEntry} {x : List EntryName × EntryKind}

/-! ### Walking along listings -/

/-- What a listed entry adds to a walk: the entry, and behind it what is told of what is inside. -/
def toldOf (inside : List EntryName → List (List EntryName × EntryKind)) (dir : List EntryName)
    (e : DirEntry) : List (List EntryName × EntryKind) :=
  (dir ++ [e.name], e.kind) ::
    match e.kind with
    | .directory => inside (dir ++ [e.name])
    | .file => []

/-- What a walk is told that starts at `dir` in the directory `source` and goes through at most
`depth` directories on its way down: the names that lead from `source` to each entry, and the kind
under which it is listed. -/
def told (s : MemoryStore) (source : Path) :
    (depth : Nat) → List EntryName → List (List EntryName × EntryKind)
  | 0, _ => []
  | depth + 1, dir =>
    match s.list (source.under dir) with
    | .ok listing => listing.flatMap (toldOf (s.told source depth) dir)
    | .error _ => []

theorem told_of_list (h : s.list (source.under dir) = .ok listing) :
    s.told source (depth + 1) dir = listing.flatMap (toldOf (s.told source depth) dir) := by
  rw [told, h]

theorem mem_toldOf {inside : List EntryName → List (List EntryName × EntryKind)} {e : DirEntry} :
    x ∈ toldOf inside dir e ↔
      x = (dir ++ [e.name], e.kind) ∨ e.kind = .directory ∧ x ∈ inside (dir ++ [e.name]) := by
  rw [toldOf, List.mem_cons]
  cases e.kind <;> simp

/-- What is told comes from a listing, and so does what is listed beside it. -/
theorem exists_list_of_mem_told (h : x ∈ s.told source depth dir) :
    ∃ names listing, s.list (source.under names) = .ok listing ∧
      (∃ e ∈ listing, x = (names ++ [e.name], e.kind)) ∧
      ∀ e ∈ listing, (names ++ [e.name], e.kind) ∈ s.told source depth dir := by
  induction depth generalizing dir with
  | zero => cases h
  | succ depth ih =>
    rcases hlist : s.list (source.under dir) with e | listing
    · simp [told, hlist] at h
    rw [told_of_list hlist, List.mem_flatMap] at h
    obtain ⟨e, he, h⟩ := h
    rcases mem_toldOf.mp h with rfl | ⟨hdir, h⟩
    · refine ⟨dir, listing, hlist, ⟨e, he, rfl⟩, fun e' he' ↦ ?_⟩
      rw [told_of_list hlist, List.mem_flatMap]
      exact ⟨e', he', mem_toldOf.mpr (.inl rfl)⟩
    · obtain ⟨names, listing', hlist', hx, hbeside⟩ := ih h
      refine ⟨names, listing', hlist', hx, fun e' he' ↦ ?_⟩
      rw [told_of_list hlist, List.mem_flatMap]
      exact ⟨e, he, mem_toldOf.mpr (.inr ⟨hdir, hbeside e' he'⟩)⟩

/-- **What is stored under names that are texts** is told. -/
theorem mem_told_of_texts (h : s.WellFormed) (hdir : s.kindOf? (source.under dir) = some .directory)
    {names : List EntryName} (hne : names ≠ []) (htext : ∀ name ∈ names, name.isText = true)
    (hdepth : names.length ≤ depth) {n : StoredNode}
    (hn : s.node? (source.under (dir ++ names)) = some n) :
    (dir ++ names, n.kind) ∈ s.told source depth dir := by
  induction names generalizing dir depth with
  | nil => exact absurd rfl hne
  | cons name more ih =>
    obtain ⟨depth, rfl⟩ : ∃ k, depth = k + 1 := ⟨depth - 1, by simp at hdepth; omega⟩
    obtain ⟨listing, hlist⟩ : ∃ listing, s.list (source.under dir) = .ok listing :=
      ⟨_, list_eq_ok_iff.mpr ⟨hdir, rfl⟩⟩
    obtain ⟨hname, hmore⟩ := List.forall_mem_cons.mp htext
    have hlisted : ∀ {m}, s.node? (source.under (dir ++ [name])) = some m →
        (⟨name, m.kind⟩ : DirEntry) ∈ listing := fun {m} hm ↦
      (mem_listing_iff hlist _).mpr ⟨name, m, by rwa [← Path.under_snoc],
        by rw [EntryName.listed_eq_self_iff.mpr hname]⟩
    rw [told_of_list hlist, List.mem_flatMap]
    rcases more with - | ⟨next, more⟩
    · exact ⟨_, hlisted hn, mem_toldOf.mpr (.inl rfl)⟩
    · rw [List.append_cons] at hn ⊢
      have hinside : s.node? (source.under (dir ++ [name])) = some .dir := by
        rw [Path.under_append, Path.under_snoc] at hn
        rw [Path.under_snoc]
        exact h.dir_of_under hn
      refine ⟨_, hlisted hinside, mem_toldOf.mpr (.inr ⟨rfl, ?_⟩)⟩
      exact ih (kindOf?_eq_directory_iff.mpr (.inr hinside)) (List.cons_ne_nil _ _) hmore
        (Nat.le_of_succ_le_succ hdepth) hn

/-- **What is stored under names that are told** is told, with its kind. -/
theorem mem_told_of_node? (h : x ∈ s.told source depth dir) {n : StoredNode}
    (hn : s.node? (source.under x.1) = some n) : (x.1, n.kind) ∈ s.told source depth dir := by
  obtain ⟨names, listing, hlist, ⟨e, he, rfl⟩, hbeside⟩ := exists_list_of_mem_told h
  refine hbeside ⟨e.name, n.kind⟩ ((mem_listing_iff hlist _).mpr ⟨e.name, n, ?_, ?_⟩)
  · rwa [Path.under_snoc] at hn
  · rw [EntryName.listed_eq_self_iff.mpr (isText_of_mem_listing hlist he)]

/-- **Names that are told** are texts. -/
theorem isText_of_mem_told (h : x ∈ s.told source depth dir)
    (hdir : ∀ name ∈ dir, name.isText = true) : ∀ name ∈ x.1, name.isText = true := by
  induction depth generalizing dir with
  | zero => cases h
  | succ depth ih =>
    rcases hlist : s.list (source.under dir) with e | listing
    · simp [told, hlist] at h
    rw [told_of_list hlist, List.mem_flatMap] at h
    obtain ⟨e, he, h⟩ := h
    have hnames : ∀ name ∈ dir ++ [e.name], name.isText = true := by
      intro name hname
      rcases List.mem_append.mp hname with hname | hname
      · exact hdir name hname
      · obtain rfl := List.mem_singleton.mp hname
        exact isText_of_mem_listing hlist he
    rcases mem_toldOf.mp h with rfl | ⟨-, h⟩
    · exact hnames
    · exact ih h hnames

theorem ne_nil_of_mem_told (h : x ∈ s.told source depth dir) : x.1 ≠ [] := by
  obtain ⟨names, listing, -, ⟨e, -, rfl⟩, -⟩ := exists_list_of_mem_told h
  simp

/-- **What is told stands behind the directory around it.** -/
theorem behind_told (s : MemoryStore) (source : Path) (depth : Nat) (dir : List EntryName) :
    Behind [(dir, .directory)] (s.told source depth dir) := by
  induction depth generalizing dir with
  | zero => trivial
  | succ depth ih =>
    rcases hlist : s.list (source.under dir) with e | listing
    · rw [told, hlist]
      trivial
    rw [told_of_list hlist]
    refine Behind.flatMap fun e _ ↦ ⟨by simp, ?_⟩
    cases e.kind with
    | directory => exact (ih (dir ++ [e.name])).mono (by simp)
    | file => trivial

end MemoryStore

end Scaffold
