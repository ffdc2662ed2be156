import Mathlib.Data.List.Forall2
import Scaffold.Proofs.Render.Tree

/-!
# Colours change nothing but colours

A style is switched on and off by sequences that start with an escape character; they are deleted
from a text from left to right (`TextStyle.unstyled`). Of what paints a text nothing is used but
that it puts one sequence in front of the text and one behind it (`Paints`), and of what prints
trees that what it puts in front of the labels depends on the shape of the trees (`Prints`).

A text fades to another one when deleting the sequences leaves that one in its place, whatever
follows it (`Fades`). A text without escape characters fades to itself, a painted one to what is
painted, and joined texts to what is joined. The labels with colours are made by branches of their
own, each of which fades to the one without (`fades_nodeLabel`), so whole trees fade as their labels
do (`unstyled_tree`).
-/

namespace Scaffold

namespace TextStyle

/-! ### Deleting sequences -/

/-- The number of characters of the sequence with which a text starts: an escape character, an
opening bracket, at least one digit and an `m`. -/
def sequenceLength? : List Char → Option Nat
  | '\x1b' :: '[' :: rest =>
    let digits := rest.takeWhile Char.isDigit
    if digits ≠ [] ∧ (rest.drop digits.length).head? = some 'm' then some (digits.length + 3)
    else none
  | _ => none

/-- A text without its sequences; the first `skip` characters belong to one already found. -/
def unstyledSkipping : Nat → List Char → List Char
  | _, [] => []
  | skip + 1, _ :: rest => unstyledSkipping skip rest
  | 0, c :: rest =>
    match sequenceLength? (c :: rest) with
    | some length => unstyledSkipping (length - 1) rest
    | none => c :: unstyledSkipping 0 rest

/-- A text without its sequences. -/
def unstyled (s : String) : String := String.ofList (unstyledSkipping 0 s.toList)

theorem unstyledSkipping_append (front rest : List Char) :
    unstyledSkipping front.length (front ++ rest) = unstyledSkipping 0 rest := by
  induction front with
  | nil => rfl
  | cons c front ih => exact ih

theorem unstyledSkipping_of_sequence {front rest : List Char} {c : Char}
    (h : sequenceLength? (c :: front ++ rest) = some (front.length + 1)) :
    unstyledSkipping 0 (c :: front ++ rest) = unstyledSkipping 0 rest := by
  rw [List.cons_append] at h ⊢
  rw [unstyledSkipping, h]
  exact unstyledSkipping_append front rest

/-- Without escape characters there is nothing to delete. -/
theorem unstyledSkipping_append_of_not_mem {s : List Char} (h : '\x1b' ∉ s) (rest : List Char) :
    unstyledSkipping 0 (s ++ rest) = s ++ unstyledSkipping 0 rest := by
  induction s with
  | nil => rfl
  | cons c s ih =>
    rw [List.mem_cons, not_or] at h
    have hnone : sequenceLength? (c :: (s ++ rest)) = none := by
      rw [sequenceLength?]
      rintro _ hc
      exact h.1 (List.cons.inj hc).1.symm
    rw [List.cons_append, unstyledSkipping, hnone, List.cons_append, ih h.2]

/-- **A sequence is deleted.** -/
theorem unstyledSkipping_sequence {digits : List Char} (hne : digits ≠ [])
    (hdigits : ∀ c ∈ digits, c.isDigit = true) (rest : List Char) :
    unstyledSkipping 0 ('\x1b' :: ('[' :: (digits ++ ['m'])) ++ rest) =
      unstyledSkipping 0 rest := by
  have htaken : (digits ++ 'm' :: rest).takeWhile Char.isDigit = digits := by
    rw [List.takeWhile_append_of_pos hdigits]
    exact List.append_nil _
  refine unstyledSkipping_of_sequence ?_
  simp [sequenceLength?, htaken, hne]

end TextStyle

/-! ### Texts that fade -/

/-- The text `styled` is `plain` but for sequences: when they are deleted, `plain` is left in its
place, whatever follows. There is no escape character in `plain`. -/
structure Fades (styled plain : String) : Prop where
  deleted : ∀ rest, TextStyle.unstyledSkipping 0 (styled.toList ++ rest) =
    plain.toList ++ TextStyle.unstyledSkipping 0 rest
  bare : '\x1b' ∉ plain.toList

variable {styled plain styled' plain' s t : String}

theorem bare_append (hs : '\x1b' ∉ s.toList) (ht : '\x1b' ∉ t.toList) :
    '\x1b' ∉ (s ++ t).toList := by
  rw [String.toList_append, List.mem_append, not_or]
  exact ⟨hs, ht⟩

namespace Fades

theorem refl (h : '\x1b' ∉ s.toList) : Fades s s :=
  ⟨TextStyle.unstyledSkipping_append_of_not_mem h, h⟩

theorem append (h : Fades styled plain) (h' : Fades styled' plain') :
    Fades (styled ++ styled') (plain ++ plain') where
  deleted rest := by
    rw [String.toList_append, String.toList_append, List.append_assoc, h.deleted, h'.deleted,
      List.append_assoc]
  bare := bare_append h.bare h'.bare

theorem join {styled plain : List String} (h : List.Forall₂ Fades styled plain) :
    Fades (String.join styled) (String.join plain) := by
  induction h with
  | nil => exact refl (by decide)
  | cons h _ ih =>
    rw [String.join_cons, String.join_cons]
    exact h.append ih

theorem unstyled_eq (h : Fades styled plain) : TextStyle.unstyled styled = plain := by
  have hdeleted := h.deleted []
  rw [List.append_nil, TextStyle.unstyledSkipping, List.append_nil] at hdeleted
  rw [TextStyle.unstyled, hdeleted, String.ofList_toList]

end Fades

/-! ### Painted texts -/

/-- A text is painted by a sequence in front of it and one behind it. -/
structure Paints (paint : TextStyle → String → String) : Prop where
  sequences : ∀ style s, ∃ on off : List Char, (on ≠ [] ∧ ∀ c ∈ on, c.isDigit = true) ∧
    (off ≠ [] ∧ ∀ c ∈ off, c.isDigit = true) ∧
    (paint style s).toList =
      '\x1b' :: ('[' :: (on ++ ['m'])) ++ (s.toList ++ '\x1b' :: ('[' :: (off ++ ['m'])))

/-- **A painted text fades to what is painted.** -/
theorem Paints.fades {paint : TextStyle → String → String} (hpaint : Paints paint)
    (style : TextStyle) (h : '\x1b' ∉ s.toList) : Fades (paint style s) s where
  deleted rest := by
    obtain ⟨on, off, ⟨hon, hondigits⟩, ⟨hoff, hoffdigits⟩, hpainted⟩ := hpaint.sequences style s
    rw [hpainted, List.append_assoc, TextStyle.unstyledSkipping_sequence hon hondigits,
      List.append_assoc, TextStyle.unstyledSkipping_append_of_not_mem h,
      TextStyle.unstyledSkipping_sequence hoff hoffdigits]
  bare := h

theorem TextStyle.paints : Paints TextStyle.paint where
  sequences style s := by
    have hdigits : ∀ code, Nat.toDigits 10 code ≠ [] ∧
        ∀ c ∈ Nat.toDigits 10 code, c.isDigit = true := fun code ↦
      ⟨Nat.toDigits_ne_nil, fun _ hc ↦ Nat.isDigit_of_mem_toDigits (by decide) (by decide) hc⟩
    refine ⟨_, _, hdigits style.onCode, hdigits style.offCode, ?_⟩
    simp [TextStyle.paint, TextStyle.sequence, Nat.toString_eq_repr, Nat.toList_repr]

/-! ### Printed trees -/

namespace LabelForest

/-- The shape of trees: the same trees with empty labels. -/
def shape : LabelForest → LabelForest
  | nil => nil
  | tree _ below next => tree "" below.shape next.shape

@[simp]
theorem isEmpty_shape (forest : LabelForest) : forest.shape.isEmpty = forest.isEmpty := by
  cases forest <;> rfl

/-- What stands in front of the labels. -/
def leads (lead : String) : LabelForest → List String
  | nil => []
  | tree _ below next =>
    (lead ++ if next.isEmpty then "└─ " else "├─ ") ::
      below.leads (lead ++ if next.isEmpty then "   " else "│  ") ++ next.leads lead

/-- There is one lead for each label. -/
theorem length_leads (forest : LabelForest) (lead : String) :
    (forest.leads lead).length = forest.labels.length := by
  induction forest generalizing lead with
  | nil => rfl
  | tree label below next ihBelow ihNext => simp [leads, labels, ihBelow, ihNext]

theorem leads_shape (forest : LabelForest) (lead : String) :
    forest.shape.leads lead = forest.leads lead := by
  induction forest generalizing lead with
  | nil => rfl
  | tree label below next ihBelow ihNext => simp [shape, leads, ihBelow, ihNext]

/-- **A row is a lead and a label.** -/
theorem rows_eq_zipWith (forest : LabelForest) (lead : String) :
    forest.rows lead = List.zipWith (· ++ ·) (forest.leads lead) forest.labels := by
  induction forest generalizing lead with
  | nil => rfl
  | tree label below next ihBelow ihNext =>
    rw [rows, leads, labels, List.cons_append, List.cons_append, List.cons_append,
      List.zipWith_cons_cons, List.zipWith_append (length_leads _ _), ihBelow, ihNext]

theorem bare_leads (forest : LabelForest) {lead : String} (hlead : '\x1b' ∉ lead.toList) :
    ∀ front ∈ forest.leads lead, '\x1b' ∉ front.toList := by
  induction forest generalizing lead with
  | nil => nofun
  | tree label below next ihBelow ihNext =>
    have hguide : '\x1b' ∉ (lead ++ if next.isEmpty then "   " else "│  ").toList :=
      bare_append hlead (by split <;> decide)
    intro front hfront
    rcases List.mem_append.mp hfront with hfront | hfront
    · rcases List.mem_cons.mp hfront with rfl | hfront
      · exact bare_append hlead (by split <;> decide)
      · exact ihBelow hguide front hfront
    · exact ihNext hlead front hfront

end LabelForest

/-- Trees are printed below their root, each label in a row of its own. What stands in front of the
labels depends on the shape of the trees only, and has no escape character. -/
structure Prints (print : String → LabelForest → String) : Prop where
  rows : ∃ leads : LabelForest → List String, ∀ root forest,
    print root forest = String.join ((root :: List.zipWith (· ++ ·) (leads forest.shape)
      forest.labels).map (· ++ "\n")) ∧
    ∀ lead ∈ leads forest.shape, '\x1b' ∉ lead.toList

theorem LabelForest.prints : Prints LabelForest.print where
  rows := by
    refine ⟨LabelForest.leads "", fun root forest ↦ ⟨?_, ?_⟩⟩
    · rw [LabelForest.print, LabelForest.rows_eq_zipWith, LabelForest.leads_shape]
    · exact LabelForest.bare_leads _ (by decide)

/-- **Printed trees fade** as their labels do, if the trees have one shape. -/
theorem Prints.fades {print : String → LabelForest → String} (hprint : Prints print)
    {forest forest' : LabelForest} (hshape : forest.shape = forest'.shape)
    (hlabels : List.Forall₂ Fades forest.labels forest'.labels) (hroot : Fades styled plain) :
    Fades (print styled forest) (print plain forest') := by
  obtain ⟨leads, hrows⟩ := hprint.rows
  rw [(hrows styled forest).1, (hrows plain forest').1, ← hshape]
  have hzip : ∀ {fronts styled plain : List String}, (∀ lead ∈ fronts, '\x1b' ∉ lead.toList) →
      List.Forall₂ Fades styled plain →
      List.Forall₂ Fades (List.zipWith (· ++ ·) fronts styled)
        (List.zipWith (· ++ ·) fronts plain) := by
    intro fronts styled plain hfronts h
    induction h generalizing fronts with
    | nil => simp
    | cons hrow _ ih =>
      cases fronts with
      | nil => exact .nil
      | cons front fronts =>
        obtain ⟨hfront, hfronts⟩ := List.forall_mem_cons.mp hfronts
        exact .cons ((Fades.refl hfront).append hrow) (ih hfronts)
  have hfeed : Fades "\n" "\n" := .refl (by decide)
  refine .join (List.forall₂_map_left_iff.mpr (List.forall₂_map_right_iff.mpr ?_))
  exact (List.Forall₂.cons hroot (hzip (hrows styled forest).2 hlabels)).imp
    fun _ _ hrow ↦ hrow.append hfeed

/-! ### Trees of plans -/

namespace Render

variable {op : Operation} {plan : Plan} {paint : TextStyle → String → String}

/-- No text that is shown of the operation has an escape character. -/
structure Bare (op : Operation) : Prop where
  name : '\x1b' ∉ op.name.toList
  source : ∀ source ∈ op.source, '\x1b' ∉ source.text.toList
  warning : ∀ warning ∈ op.warning, '\x1b' ∉ warning.toList

theorem fades_colorByExtension (hpaint : Paints paint) (h : '\x1b' ∉ s.toList) :
    Fades (colorByExtension paint s) s := by
  unfold colorByExtension
  split
  all_goals first | exact hpaint.fades _ h | exact .refl h

theorem fades_nameLabel (hpaint : Paints paint) (h : Bare op) :
    Fades (nameLabel paint op true) (nameLabel paint op false) := by
  unfold nameLabel
  cases op.isDirectory with
  | true => exact (hpaint.fades _ h.name).append (.refl (by decide))
  | false => exact fades_colorByExtension hpaint h.name

theorem fades_sourceNote (hpaint : Paints paint) (h : Bare op) :
    Fades (sourceNote paint op true) (sourceNote paint op false) := by
  unfold sourceNote
  split
  · rename_i source hsource
    have hkind : '\x1b' ∉ op.kind.label.toList := by cases op.kind <;> decide
    have hnote : '\x1b' ∉ s!"<- {source.text} ({op.kind.label})".toList :=
      bare_append (bare_append (bare_append (bare_append (by decide) (h.source source hsource))
        (by decide)) hkind) (by decide)
    exact (Fades.refl (by decide)).append (hpaint.fades _ hnote)
  · exact .refl (by decide)

theorem fades_warningNote (hpaint : Paints paint) (h : Bare op) :
    Fades (warningNote paint op true) (warningNote paint op false) := by
  unfold warningNote
  split
  · rename_i warning hwarning
    have hnote : '\x1b' ∉ s!"! {warning}".toList :=
      bare_append (by decide) (h.warning warning hwarning)
    exact (Fades.refl (by decide)).append (hpaint.fades _ hnote)
  · exact .refl (by decide)

/-- **A label fades** to the label without colours. -/
theorem fades_nodeLabel (hpaint : Paints paint) (h : Bare op) :
    Fades (nodeLabel paint op true) (nodeLabel paint op false) :=
  ((fades_nameLabel hpaint h).append (fades_sourceNote hpaint h)).append
    (fades_warningNote hpaint h)

/-- **The trees of a plan fade** label by label, and have one shape. -/
theorem fades_labelForest (hpaint : Paints paint) (h : ∀ op ∈ plan.operations, Bare op)
    (levels : Nat) (positions : List Nat) :
    (labelForest paint plan true levels positions).shape =
        (labelForest paint plan false levels positions).shape ∧
      List.Forall₂ Fades (labelForest paint plan true levels positions).labels
        (labelForest paint plan false levels positions).labels := by
  induction levels generalizing positions with
  | zero => exact ⟨rfl, .nil⟩
  | succ levels ih =>
    induction positions with
    | nil => exact ⟨rfl, .nil⟩
    | cons i positions ihNext =>
      rcases hop : plan.operations[i]? with - | op
      · simpa only [labelForest, List.foldr_cons, hop] using ihNext
      · obtain ⟨hshape, hlabels⟩ := ih (plan.children i)
        have hlabel := fades_nodeLabel hpaint (h op (List.mem_of_getElem? hop))
        simp only [labelForest_cons hop, LabelForest.shape, LabelForest.labels, List.cons_append]
        exact ⟨by rw [hshape, ihNext.1], .cons hlabel (List.rel_append hlabels ihNext.2)⟩

/-- **Colour changes nothing but colour.** However texts are painted by sequences and trees printed
with their labels: when there is no escape character in the root of a plan nor in the names, sources
and warnings of its operations, deleting the sequences from the tree with colours gives exactly the
tree without, in which there is no escape character. -/
theorem unstyled_tree {print : String → LabelForest → String} (hpaint : Paints paint)
    (hprint : Prints print) (plan : Plan) (hroot : '\x1b' ∉ plan.options.root.text.toList)
    (hops : ∀ op ∈ plan.operations, Bare op) :
    TextStyle.unstyled (treeBy paint print plan true) = treeBy paint print plan false ∧
      '\x1b' ∉ (treeBy paint print plan false).toList := by
  obtain ⟨hshape, hlabels⟩ := fades_labelForest hpaint hops plan.operations.length plan.roots
  have hfades := hprint.fades hshape hlabels (hpaint.fades .bold hroot)
  exact ⟨hfades.unstyled_eq, hfades.bare⟩

/-- A plan that moves a directory which is not there, and makes a file in it. -/
def paintedPlan : Plan where
  operations :=
    [⟨.move, .ofText "/r/docs", some (.ofText "/s"), true, 0, "docs", some "not there", none⟩,
      ⟨.create, .ofText "/r/docs/a.md", none, false, 1, "a.md", none, some 0⟩]
  options := { root := .ofText "/r" }
  frontMatter := none

theorem unstyled_tree_painted :
    tree paintedPlan true =
      "\x1b[1m/r\x1b[0m\n└─ \x1b[34mdocs\x1b[39m/ \x1b[2m<- /s (move)\x1b[0m " ++
        "\x1b[33m! not there\x1b[39m\n   └─ \x1b[37ma.md\x1b[39m\n" ∧
    tree paintedPlan false = "/r\n└─ docs/ <- /s (move) ! not there\n   └─ a.md\n" ∧
    '\x1b' ∉ paintedPlan.options.root.text.toList ∧ (∀ op ∈ paintedPlan.operations, Bare op) ∧
    TextStyle.unstyled (tree paintedPlan true) = tree paintedPlan false := by
  have hroot : '\x1b' ∉ paintedPlan.options.root.text.toList := by decide +kernel
  have hops : ∀ op ∈ paintedPlan.operations, Bare op := by
    intro op hop
    rcases List.mem_cons.mp hop with rfl | hop
    · exact ⟨by decide +kernel, by decide +kernel, by decide +kernel⟩
    · obtain rfl := List.mem_singleton.mp hop
      exact ⟨by decide +kernel, by decide +kernel, by decide +kernel⟩
  exact ⟨by decide +kernel, by decide +kernel, hroot, hops,
    (unstyled_tree TextStyle.paints LabelForest.prints paintedPlan hroot hops).1⟩

end Render

end Scaffold
