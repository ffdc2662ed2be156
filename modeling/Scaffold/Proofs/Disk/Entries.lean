import Mathlib.Data.List.Basic
import Mathlib.Data.List.Nodup
import Scaffold.Disk.Model

/-!
# The entries of a disk

A disk is seen through `Disk.node?`. Each change of its entries is one equation on that view: what
is inserted or erased changes it at one location (`node?_insert`, `node?_erase`). The entries are
kept in the order of their locations (`Disk.Sorted`), so no location has two of them, and then the
names in a directory are exactly those at which the view shows something (`mem_children`), each of
them once (`nodup_children`). In a listing they are entries (`Disk.entriesIn`).
-/

namespace Scaffold

/-- The kind of a node in a listing, where a link is a file. -/
def DiskNode.kind (node : DiskNode) : EntryKind := .ofIsDirectory (node.type == .directory)

theorem DiskNode.kind_eq_directory_iff {node : DiskNode} :
    node.kind = .directory ↔ node = .dir := by
  cases node <;> simp [DiskNode.kind, DiskNode.type, EntryKind.ofIsDirectory]

namespace Disk

variable {d : Disk} {loc l : Location} {node n : DiskNode} {name : EntryName} {type : FileType}
  {entries : List (Location × DiskNode)}

/-! ### The order of locations -/

theorem map_bytes_injective : Function.Injective fun l : Location ↦ l.map EntryName.bytes :=
  List.map_injective_iff.mpr fun _ _ h ↦ EntryName.bytes_inj h

/-- Only a location itself compares equal to it. -/
theorem locationOrder_eq_iff : locationOrder loc l = .eq ↔ loc = l := by
  rw [locationOrder, Std.LawfulEqOrd.compare_eq_iff_eq]
  exact map_bytes_injective.eq_iff

theorem locationOrder_lt_trans {a b c : Location} (h : locationOrder a b = .lt)
    (h' : locationOrder b c = .lt) : locationOrder a c = .lt := by
  unfold locationOrder at *
  exact Std.TransCmp.lt_trans h h'

theorem locationOrder_gt_iff : locationOrder loc l = .gt ↔ locationOrder l loc = .lt := by
  unfold locationOrder
  exact Std.OrientedCmp.gt_iff_lt

theorem ne_of_locationOrder_lt (h : locationOrder loc l = .lt) : loc ≠ l := by
  intro hsame
  rw [locationOrder_eq_iff.mpr hsame] at h
  cases h

/-! ### The view -/

theorem lookup_cons_eq_ite (x : Location) (m : DiskNode) (entries : List (Location × DiskNode))
    (l : Location) :
    ((x, m) :: entries).lookup l = if l = x then some m else entries.lookup l := by
  rw [List.lookup_cons]
  by_cases hl : l = x
  · simp [hl]
  · rw [if_neg hl, beq_eq_false_iff_ne.mpr hl]

theorem lookup_insertSorted (loc : Location) (node : DiskNode)
    (entries : List (Location × DiskNode)) (l : Location) :
    (insertSorted loc node entries).lookup l = if l = loc then some node else entries.lookup l := by
  induction entries with
  | nil => rw [insertSorted, lookup_cons_eq_ite]
  | cons e entries ih =>
    obtain ⟨x, m⟩ := e
    rw [insertSorted]
    split
    · rw [lookup_cons_eq_ite]
    · rename_i heq
      obtain rfl := locationOrder_eq_iff.mp heq
      rw [lookup_cons_eq_ite, lookup_cons_eq_ite]
      split <;> rfl
    · rename_i hgt
      have hne : x ≠ loc := ne_of_locationOrder_lt (locationOrder_gt_iff.mp hgt)
      rw [lookup_cons_eq_ite, lookup_cons_eq_ite, ih]
      by_cases hl : l = x
      · simp [hl, hne]
      · simp [hl]

/-- Inserting changes the view at one location. -/
theorem node?_insert (d : Disk) (hne : loc ≠ []) (node : DiskNode) (l : Location) :
    (d.insert loc node).node? l = if l = loc then some node else d.node? l := by
  unfold node? insert
  rcases l with - | ⟨name, l⟩
  · rw [if_neg (Ne.symm hne)]
    rfl
  · exact lookup_insertSorted loc node d.entries (name :: l)

theorem lookup_filter_ne (entries : List (Location × DiskNode)) (loc l : Location) :
    (entries.filter (·.1 != loc)).lookup l = if l = loc then none else entries.lookup l := by
  induction entries with
  | nil => simp
  | cons e entries ih =>
    obtain ⟨x, m⟩ := e
    rw [List.filter_cons, lookup_cons_eq_ite]
    by_cases hx : x = loc
    · simp only [hx, bne_self_eq_false, Bool.false_eq_true, if_false, ih]
      split <;> rfl
    · have hkept : (x != loc) = true := by simpa using hx
      simp only [hkept, if_true, lookup_cons_eq_ite, ih]
      by_cases hl : l = x
      · simp [hl, hx]
      · simp [hl]

/-- Erasing changes the view at one location. -/
theorem node?_erase (d : Disk) (hne : loc ≠ []) (l : Location) :
    (d.erase loc).node? l = if l = loc then none else d.node? l := by
  unfold node? erase
  rcases l with - | ⟨name, l⟩
  · rw [if_neg (Ne.symm hne)]
    rfl
  · exact lookup_filter_ne d.entries loc (name :: l)

/-! ### Sorted entries -/

/-- The entries are in the order of their locations, no two of which are the same. -/
def Sorted (d : Disk) : Prop := d.entries.Pairwise fun a b ↦ locationOrder a.1 b.1 = .lt

instance (d : Disk) : Decidable d.Sorted :=
  inferInstanceAs (Decidable (d.entries.Pairwise fun a b ↦ locationOrder a.1 b.1 = .lt))

theorem mem_insertSorted {e : Location × DiskNode} (h : e ∈ insertSorted loc node entries) :
    e = (loc, node) ∨ e ∈ entries := by
  induction entries with
  | nil => exact .inl (List.mem_singleton.mp h)
  | cons x entries ih =>
    rw [insertSorted] at h
    split at h
    · exact List.mem_cons.mp h
    · exact (List.mem_cons.mp h).imp_right (List.mem_cons_of_mem _)
    · rcases List.mem_cons.mp h with rfl | h
      · exact .inr List.mem_cons_self
      · exact (ih h).imp_right (List.mem_cons_of_mem _)

/-- Entries stay sorted when one is inserted. -/
theorem Sorted.insert (h : d.Sorted) (loc : Location) (node : DiskNode) :
    (d.insert loc node).Sorted := by
  show (insertSorted loc node d.entries).Pairwise _
  have hsorted : d.entries.Pairwise fun a b ↦ locationOrder a.1 b.1 = .lt := h
  generalize d.entries = entries at hsorted
  induction entries with
  | nil => exact List.pairwise_singleton _ _
  | cons x entries ih =>
    obtain ⟨hx, hentries⟩ := List.pairwise_cons.mp hsorted
    rw [insertSorted]
    split
    · rename_i hlt
      refine List.pairwise_cons.mpr ⟨fun y hy ↦ ?_, hsorted⟩
      rcases List.mem_cons.mp hy with rfl | hy
      · exact hlt
      · exact locationOrder_lt_trans hlt (hx y hy)
    · rename_i heq
      obtain rfl := locationOrder_eq_iff.mp heq
      exact List.pairwise_cons.mpr ⟨hx, hentries⟩
    · rename_i hgt
      refine List.pairwise_cons.mpr ⟨fun y hy ↦ ?_, ih hentries⟩
      rcases mem_insertSorted hy with rfl | hy
      · exact locationOrder_gt_iff.mp hgt
      · exact hx y hy

theorem Sorted.erase (h : d.Sorted) (loc : Location) : (d.erase loc).Sorted :=
  List.Pairwise.filter _ h

/-- What is stored is what the view shows. -/
theorem Sorted.lookup_eq_some_iff (h : d.Sorted) :
    d.entries.lookup l = some n ↔ (l, n) ∈ d.entries := by
  have hsorted : d.entries.Pairwise fun a b ↦ locationOrder a.1 b.1 = .lt := h
  generalize d.entries = entries at hsorted
  induction entries with
  | nil => simp
  | cons x entries ih =>
    obtain ⟨hx, hentries⟩ := List.pairwise_cons.mp hsorted
    obtain ⟨k, m⟩ := x
    rw [lookup_cons_eq_ite, List.mem_cons]
    by_cases hl : l = k
    · have hnew : (l, n) ∉ entries := fun hmem ↦ ne_of_locationOrder_lt (hx _ hmem) hl.symm
      rw [hl] at hnew
      simp [hl, hnew, eq_comm]
    · simp [hl, ih hentries]

/-! ### Directories -/

/-- Nothing is listed below a location where the view shows nothing. -/
theorem below_isEmpty_iff :
    (d.below loc).isEmpty = true ↔ ∀ rest ≠ [], d.node? (loc ++ rest) = none := by
  unfold below node?
  rw [List.isEmpty_iff, List.filter_eq_nil_iff]
  constructor
  · intro hnone rest hrest
    rw [if_neg (by simp [hrest]), List.lookup_eq_none_iff]
    intro e he
    by_contra hsame
    have hsame : loc ++ rest = e.1 := by simpa using hsame
    have := hnone e he
    rw [← hsame] at this
    simp [hrest] at this
  · rintro hnone e he hbelow
    simp only [Bool.and_eq_true, bne_iff_ne, List.isPrefixOf_iff_prefix] at hbelow
    obtain ⟨⟨rest, hrest⟩, hne⟩ := hbelow
    have hrestNe : rest ≠ [] := by
      rintro rfl
      exact hne (by rw [← hrest, List.append_nil])
    have hlookup := hnone rest hrestNe
    rw [if_neg (by simp [hrestNe]), List.lookup_eq_none_iff] at hlookup
    have hother := hlookup e he
    rw [hrest] at hother
    simp at hother

/-- What is in a directory is one name further down. -/
theorem eq_concat_of_child {child : EntryName × FileType}
    (h : (match l.getLast? with
      | some name => if l.dropLast = loc then some (name, n.type) else none
      | none => none) = some child) : l = loc ++ [child.1] ∧ n.type = child.2 := by
  split at h
  · rename_i last hlast
    split at h
    · rename_i hdrop
      obtain rfl := Option.some.inj h
      refine ⟨?_, rfl⟩
      rw [← hdrop]
      exact (List.dropLast_append_getLast? _ hlast).symm
    · cases h
  · cases h

theorem mem_children_iff_mem :
    (name, type) ∈ d.children loc ↔ ∃ n, (loc ++ [name], n) ∈ d.entries ∧ n.type = type := by
  unfold children
  rw [List.mem_filterMap]
  constructor
  · rintro ⟨⟨l, n⟩, he, hchild⟩
    obtain ⟨rfl, htype⟩ := eq_concat_of_child hchild
    exact ⟨n, he, htype⟩
  · rintro ⟨n, he, rfl⟩
    exact ⟨_, he, by simp⟩

/-- **The names in a directory** are those at which something is. -/
theorem mem_children (h : d.Sorted) :
    (name, type) ∈ d.children loc ↔ ∃ n, d.node? (loc ++ [name]) = some n ∧ n.type = type := by
  rw [mem_children_iff_mem]
  refine exists_congr fun n ↦ and_congr_left fun _ ↦ ?_
  rw [← h.lookup_eq_some_iff, node?, if_neg (by simp)]

/-- No name is in a directory twice. -/
theorem nodup_children (h : d.Sorted) (loc : Location) :
    ((d.children loc).map Prod.fst).Nodup := by
  rw [List.Nodup, List.pairwise_map]
  unfold children
  rw [List.pairwise_filterMap]
  refine List.Pairwise.imp (fun {a b} hab x hx y hy hsame ↦ ne_of_locationOrder_lt hab ?_) h
  rw [(eq_concat_of_child hx).1, (eq_concat_of_child hy).1, hsame]

/-- The entries of a directory. -/
def entriesIn (d : Disk) (loc : Location) : List DirEntry :=
  (d.children loc).map fun (name, type) ↦ ⟨name, .ofIsDirectory (type == .directory)⟩

theorem mem_entriesIn (h : d.Sorted) {entry : DirEntry} : entry ∈ d.entriesIn loc ↔
    ∃ node, d.node? (loc ++ [entry.name]) = some node ∧ node.kind = entry.kind := by
  rw [entriesIn, List.mem_map]
  constructor
  · rintro ⟨⟨name, type⟩, hchild, rfl⟩
    obtain ⟨node, hnode, rfl⟩ := (mem_children h).mp hchild
    exact ⟨node, hnode, rfl⟩
  · rintro ⟨node, hnode, hkind⟩
    refine ⟨(entry.name, node.type), (mem_children h).mpr ⟨node, hnode, rfl⟩, ?_⟩
    exact congrArg (DirEntry.mk entry.name) hkind

theorem nodup_entriesIn (h : d.Sorted) (loc : Location) :
    ((d.entriesIn loc).map DirEntry.name).Nodup := by
  rw [entriesIn, List.map_map]
  exact nodup_children h loc

end Disk

end Scaffold
