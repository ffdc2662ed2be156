import Mathlib.Data.List.Basic
import Mathlib.Data.List.Sort
import Scaffold.Storage.Memory

/-!
# The parts of paths

What a path names is the list of its parts, so every operation on paths is described by what it
does to that list, and the spelling is left behind: a child adds a name (`parts_child`), a parent
drops the last part (`parent?_eq_some`), the ancestors are the initial segments (`mem_ancestors`).

The order of paths is the lexicographic order of their parts. What lies below a directory follows it
without a gap (`isPrefix_of_between`), which is what lets a sorted store be cut into subtrees.
-/

namespace Scaffold

/-! ### Reading a name -/

namespace Text

/-- A text without the separator is one segment. -/
theorem splitOn_of_not_mem {sep : Char} {s : List Char} (h : sep ∉ s) : splitOn sep s = [s] := by
  induction s with
  | nil => rfl
  | cons c s ih =>
    rw [List.mem_cons, not_or] at h
    rw [splitOn_cons, if_neg (Ne.symm h.1), ih h.2]
    rfl

end Text

namespace EntryName

theorem slash_not_mem (name : EntryName) : '/' ∉ name.text.toList := by
  have h := name.valid
  simp only [isEntryName, Bool.and_eq_true, Bool.not_eq_true', List.contains_eq_mem,
    decide_eq_false_iff_not] at h
  exact h.1.1.2

theorem text_ne_dot (name : EntryName) : name.text ≠ "." := by
  have h := name.valid
  simp only [isEntryName, Bool.and_eq_true, bne_iff_ne] at h
  exact h.1.2

@[simp]
theorem isText_listed (name : EntryName) : name.listed.isText = true := rfl

@[simp]
theorem text_listed (name : EntryName) : name.listed.text = name.text := rfl

/-- **The names that are texts** are those that are listed as themselves. -/
theorem listed_eq_self_iff {name : EntryName} : name.listed = name ↔ name.isText = true := by
  constructor
  · intro h
    rw [← h]
    rfl
  · intro h
    cases name with
    | spelled text valid => rfl
    | raw bytes broken valid => cases h

/-- A name that is no text: one byte, with which no character starts. -/
def broken : EntryName := .raw ⟨#[0xFF]⟩ (by decide) (by decide +kernel)

/-- It is listed as the text that has a replacement for the byte. -/
theorem listed_broken : broken.listed = .spelled "\uFFFD" (by decide) := by decide +kernel

end EntryName

namespace Path

variable {p q r base : Path} {name : EntryName}

/-- Two paths are the same when they have the same parts. -/
@[simp]
theorem equiv_iff : p ≈ q ↔ p.parts = q.parts := Iff.rfl

/-- The text of a name read as a path is the path of the name that is that text. -/
theorem ofText_name (name : EntryName) : ofText name.text = ofName name.listed := by
  have hslash := name.slash_not_mem
  have hsplit : (Text.splitOn '/' name.text.toList).map String.ofList = [name.text] := by
    rw [Text.splitOn_of_not_mem hslash]
    simp
  have hread : readSegments "" [name.text] = ([⟨"", .entry name.listed⟩], "") := by
    simp [EntryName.listed, readSegments, Part.ofSegment?, name.valid]
  unfold ofText
  split
  · rename_i rest hrest
    rw [hrest] at hslash
    exact absurd List.mem_cons_self hslash
  · rw [hsplit]
    split
    · rename_i segs heq
      exact absurd (List.cons.inj heq).1 name.text_ne_dot
    · rename_i heq
      rw [hread]
      rfl

theorem parts_ofText_name (name : EntryName) :
    (ofText name.text).parts = [.entry name.listed] := by
  rw [ofText_name]
  rfl

/-! ### Building -/

/-- Joining a relative path that does not start with a dot appends its parts. -/
theorem parts_join (hq : q.isAbsolute = false) (hdot : q.parts.head? ≠ some .here) :
    (p.join q).parts = p.parts ++ q.parts := by
  unfold join
  rw [hq, Bool.false_or]
  split
  · rename_i hempty
    have hp : p.pieces = [] := by
      simp only [isEmpty, Bool.and_eq_true, List.isEmpty_iff] at hempty
      exact hempty.1
    simp [parts, hp]
  · simp only
    split
    · rename_i hpieces
      simp [parts, hpieces] at hdot
    · cases hpieces : q.pieces <;> simp [extend, parts, hpieces]

/-- **A child adds its name.** -/
@[simp]
theorem parts_child (p : Path) (name : EntryName) :
    (p.child name).parts = p.parts ++ [.entry name] :=
  parts_join rfl (by simp [ofName, parts])

/-- Joining the text of a name is going to the child that has this text as its name. -/
@[simp]
theorem parts_join_name (p : Path) (name : EntryName) :
    (p.join (ofText name.text)).parts = p.parts ++ [.entry name.listed] := by
  have hparts := parts_ofText_name name
  rw [parts_join, hparts]
  · simp [isAbsolute, hparts]
  · simp [hparts]

/-- The entry that is reached from the directory `p` along names. -/
def under (p : Path) (names : List EntryName) : Path := names.foldl child p

@[simp]
theorem under_nil (p : Path) : p.under [] = p := rfl

/-- Names lead one after the other. -/
theorem under_append (p : Path) (names more : List EntryName) :
    p.under (names ++ more) = (p.under names).under more :=
  List.foldl_append

theorem under_snoc (p : Path) (names : List EntryName) (name : EntryName) :
    p.under (names ++ [name]) = (p.under names).child name :=
  under_append p names [name]

@[simp]
theorem parts_under (p : Path) (names : List EntryName) :
    (p.under names).parts = p.parts ++ names.map .entry := by
  induction names generalizing p with
  | nil => simp
  | cons name names ih =>
    show ((p.child name).under names).parts = _
    rw [ih]
    simp

/-! ### Taking apart -/

theorem isRoot_iff : p.isRoot = true ↔ p.parts = [.root] := by
  simp [isRoot]

/-- What is below a path is not the root. -/
theorem isRoot_under_snoc (p : Path) (names : List EntryName) (name : EntryName) :
    (p.under (names ++ [name])).isRoot = false := by
  rw [Bool.eq_false_iff, Ne, isRoot_iff, parts_under]
  intro hparts
  have hlast := congrArg List.getLast? hparts
  simp at hlast

theorem isRoot_child (p : Path) (name : EntryName) : (p.child name).isRoot = false :=
  isRoot_under_snoc p [] name

theorem startsWith_iff : p.startsWith base = true ↔ base.parts <+: p.parts :=
  List.isPrefixOf_iff_prefix

theorem startsWith_of_equiv (h : p ≈ base) : p.startsWith base = true :=
  startsWith_iff.mpr (equiv_iff.mp h ▸ List.prefix_rfl)

/-- Every absolute path starts at the root. -/
theorem startsWith_of_isRoot (hp : p.isAbsolute = true) (hq : q.isRoot = true) :
    p.startsWith q = true := by
  rw [isAbsolute, beq_iff_eq] at hp
  rw [startsWith_iff, isRoot_iff.mp hq]
  rcases hparts : p.parts with - | ⟨part, rest⟩
  · simp [hparts] at hp
  · obtain rfl : part = .root := by simpa [hparts] using hp
    simp

/-- **A parent drops the last part**; the root and the empty path have none. -/
theorem parent?_eq_some (h : p.parent? = some q) :
    q.parts = p.parts.dropLast ∧ p.parts ≠ [] ∧ p.parts ≠ [.root] := by
  unfold parent? at h
  split at h
  · cases h
  · rename_i hne
    obtain rfl := Option.some.inj h
    rw [not_or] at hne
    exact ⟨by simp [parts, List.map_dropLast], hne⟩

/-- What ends in a name has the rest as its parent. -/
theorem parent?_of_parts (h : p.parts = q.parts ++ [.entry name]) :
    ∃ parent, p.parent? = some parent ∧ parent ≈ q := by
  unfold parent?
  rw [if_neg]
  · refine ⟨_, rfl, ?_⟩
    have hdrop : p.parts.dropLast = q.parts := by simp [h]
    rw [parts, ← List.map_dropLast] at hdrop
    exact hdrop
  · rw [h]
    rcases q.parts with - | ⟨part, rest⟩ <;> simp

/-- **The ancestors are the initial segments**, from the root on if the path is absolute. -/
theorem mem_ancestors : q ∈ p.ancestors ↔
    ∃ k < p.pieces.length, (p.isAbsolute = true → 1 ≤ k) ∧ q = ⟨p.pieces.take k, ""⟩ := by
  unfold ancestors
  simp only [List.mem_map, List.mem_reverse, List.mem_filter, List.mem_range, decide_eq_true_eq]
  constructor
  · rintro ⟨k, ⟨hk, hfirst⟩, rfl⟩
    exact ⟨k, hk, fun habs ↦ by simpa [habs] using hfirst, rfl⟩
  · rintro ⟨k, hk, hfirst, rfl⟩
    refine ⟨k, ⟨hk, ?_⟩, rfl⟩
    split
    · exact hfirst ‹_›
    · exact Nat.zero_le k

/-- What an ancestor names starts the path. -/
theorem isPrefix_of_mem_ancestors (h : q ∈ p.ancestors) : q.parts <+: p.parts := by
  obtain ⟨k, -, -, rfl⟩ := mem_ancestors.mp h
  rw [parts, List.map_take]
  exact List.take_prefix k _

/-- What is reached along more names is below. -/
theorem under_startsWith_iff (p : Path) (names names' : List EntryName) :
    (p.under names').startsWith (p.under names) = true ↔ names <+: names' := by
  rw [startsWith_iff, parts_under, parts_under, List.prefix_append_right_inj]
  exact List.prefix_map_iff_of_injective fun _ _ h ↦ Part.entry.inj h

/-- What names lead to from a path starts with it. -/
theorem startsWith_of_under {names : List EntryName} (h : p ≈ base.under names) :
    p.startsWith base = true := by
  rw [startsWith_iff, equiv_iff.mp h, parts_under]
  exact List.prefix_append _ _

/-- What is below one of two paths beside each other is not below the other. -/
theorem startsWith_of_beside (h : p.startsWith base = false) (h' : base.startsWith p = false)
    (hq : p.parts <+: q.parts) : q.startsWith base = false := by
  rw [Bool.eq_false_iff, Ne, startsWith_iff] at h h' ⊢
  intro hstart
  rcases List.prefix_or_prefix_of_prefix hstart hq with hp | hp
  · exact h hp
  · exact h' hp

theorem under_startsWith_of_beside (h : p.startsWith base = false) (h' : base.startsWith p = false)
    (names : List EntryName) : (p.under names).startsWith base = false :=
  startsWith_of_beside h h' (by rw [parts_under]; exact List.prefix_append _ _)

/-! ### Names behind the root -/

/-- Whether the path is the root followed by names, so that no part of it leads upwards. -/
def isNamed (p : Path) : Bool :=
  p.isAbsolute && p.parts.tail.all fun part ↦ match part with
    | .entry _ => true
    | _ => false

theorem isNamed_iff : p.isNamed = true ↔ ∃ names, p ≈ root.under names := by
  have hnames : ∀ rest : List Part, (rest.all fun part ↦ match part with
      | .entry _ => true
      | _ => false) = true ↔ ∃ names : List EntryName, rest = names.map .entry := by
    intro rest
    induction rest with
    | nil => exact iff_of_true rfl ⟨[], rfl⟩
    | cons part rest ih =>
      rw [List.all_cons, Bool.and_eq_true, ih]
      constructor
      · rintro ⟨hpart, names, rfl⟩
        cases part with
        | entry name => exact ⟨name :: names, rfl⟩
        | root => cases hpart
        | here => cases hpart
        | up => cases hpart
      · rintro ⟨names, hrest⟩
        rcases names with - | ⟨name, names⟩
        · cases hrest
        · obtain ⟨rfl, rfl⟩ := List.cons.inj hrest
          exact ⟨rfl, names, rfl⟩
  have hroot : root.parts = [.root] := rfl
  simp only [isNamed, Bool.and_eq_true, hnames, equiv_iff, parts_under, hroot]
  rcases hparts : p.parts with - | ⟨part, rest⟩ <;> simp [isAbsolute, hparts]

/-! ### Order -/

theorem order_self (p : Path) : p.order p = .eq := order_eq_iff.mpr rfl

/-- **What lies below a directory follows it without a gap**: between a list of parts and one that
it starts there are only lists that it starts. -/
theorem isPrefix_of_between {a x y : List Part} (h : a <+: y) (hax : (compare a x).isLE)
    (hxy : (compare x y).isLE) : a <+: x := by
  induction a generalizing x y with
  | nil => exact List.nil_prefix
  | cons c a ih =>
    obtain ⟨rest, rfl⟩ := h
    rcases x with - | ⟨d, x⟩
    · cases hax
    · rw [List.compare_cons_cons, Ordering.isLE_then_iff_or] at hax
      rw [List.cons_append, List.compare_cons_cons, Ordering.isLE_then_iff_or] at hxy
      have hcd : c = d := by
        have hle : (compare c d).isLE := by
          rcases hax with h | h
          · exact Ordering.isLE_of_eq_lt h
          · exact Ordering.isLE_of_eq_eq h.1
        have hge : (compare d c).isLE := by
          rcases hxy with h | h
          · exact Ordering.isLE_of_eq_lt h
          · exact Ordering.isLE_of_eq_eq h.1
        exact Std.LawfulEqOrd.eq_of_compare (Std.OrientedCmp.isLE_antisymm hle hge)
      subst hcd
      have hself : compare c c = .eq := Std.ReflCmp.compare_self
      simp only [hself, reduceCtorEq, false_or, true_and] at hax hxy
      exact (List.prefix_cons_inj c).mpr (ih (List.prefix_append _ _) hax hxy)

/-- Lists in the strict order of a key are the same if they have the same members. -/
theorem eq_of_ordered {α : Type} (key : α → List Part) {l l' : List α}
    (h : l.Pairwise fun x y ↦ compare (key x) (key y) = .lt)
    (h' : l'.Pairwise fun x y ↦ compare (key x) (key y) = .lt) (hmem : ∀ x, x ∈ l ↔ x ∈ l') :
    l = l' := by
  have hself : ∀ x : List Part, compare x x = .eq := fun _ ↦ Std.ReflCmp.compare_self
  have : Std.Irrefl fun x y ↦ compare (key x) (key y) = .lt := ⟨fun x hx ↦ by simp at hx⟩
  have : Std.Antisymm fun x y ↦ compare (key x) (key y) = .lt :=
    ⟨fun x y hxy hyx ↦ by simpa [hself] using Std.TransCmp.lt_trans hxy hyx⟩
  exact h.eq_of_mem_iff h' hmem

/-- A common beginning does not matter to the order. -/
theorem compare_append_left (a x y : List Part) : compare (a ++ x) (a ++ y) = compare x y := by
  induction a with
  | nil => rfl
  | cons c a ih =>
    have hself : compare c c = .eq := Std.ReflCmp.compare_self
    rw [List.cons_append, List.cons_append, List.compare_cons_cons, ih, hself]
    rfl

/-- What is reached from one directory is in the order of the names that lead there. -/
theorem order_under (p : Path) (names names' : List EntryName) :
    (p.under names).order (p.under names') =
      compare (names.map Part.entry) (names'.map Part.entry) := by
  rw [order, parts_under, parts_under, compare_append_left]

/-- The children of a directory are in the order of their names. -/
theorem order_child (p : Path) (name name' : EntryName) :
    (p.child name).order (p.child name') = compare name.bytes name'.bytes := by
  have hparts : compare (Part.entry name) (.entry name') = compare name.bytes name'.bytes := by
    have hrank : compare (Part.entry name).rank (Part.entry name').rank = .eq := rfl
    show (compare (Part.entry name).rank (Part.entry name').rank).then _ = _
    rw [hrank]
    rfl
  have hunder := p.order_under [name] [name']
  rwa [List.map_singleton, List.map_singleton, List.compare_cons_cons, hparts,
    show compare ([] : List Part) [] = .eq from rfl, Ordering.then_eq] at hunder

/-- What is in an earlier child comes first. -/
theorem order_under_of_child {name name' : EntryName}
    (h : (p.child name).order (p.child name') = .lt) (names names' : List EntryName) :
    (p.under (name :: names)).order (p.under (name' :: names')) = .lt := by
  have hfirst : compare (Part.entry name) (Part.entry name') = .lt := by
    have hchild := order_under p [name] [name']
    rw [show p.under [name] = p.child name from rfl, show p.under [name'] = p.child name' from rfl,
      h, List.map_singleton, List.map_singleton, List.compare_cons_cons] at hchild
    simpa using hchild.symm
  rw [order_under, List.map_cons, List.map_cons, List.compare_cons_cons, hfirst]
  rfl

/-- A directory comes in front of what is in it. -/
theorem order_under_self (p : Path) (name : EntryName) (names : List EntryName) :
    p.order (p.under (name :: names)) = .lt := by
  have h := order_under p [] (name :: names)
  rwa [under_nil] at h

/-- Different names lead to different entries. -/
theorem under_equiv_iff (p : Path) (names names' : List EntryName) :
    p.under names ≈ p.under names' ↔ names = names' := by
  rw [equiv_iff, parts_under, parts_under, List.append_cancel_left_eq]
  exact List.map_inj_right fun _ _ h ↦ Part.entry.inj h

/-- What is at or below a path is not in front of it. -/
theorem not_order_lt_of_startsWith (h : p.startsWith base = true) : p.order base ≠ .lt := by
  obtain ⟨rest, hrest⟩ := startsWith_iff.mp h
  have hle := compare_append_left base.parts [] rest
  rw [List.append_nil, hrest] at hle
  have hle' : (compare base.parts p.parts).isLE := by
    rw [hle]
    exact List.isLE_compare_nil_left
  show compare p.parts base.parts ≠ .lt
  exact Std.OrientedCmp.not_lt_of_isLE hle'

end Path

end Scaffold
