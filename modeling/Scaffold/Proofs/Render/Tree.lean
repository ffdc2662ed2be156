import Scaffold.Proofs.Expansion.Joining
import Scaffold.Proofs.Paths
import Scaffold.Proofs.Plan.Forest
import Scaffold.Render.Plan

/-!
# The tree of a plan shows the plan

A tree is drawn by going through the children of every operation, while the plan itself is one
sequence, and each operation only names its parent. Both have the same order: what is at or below an
operation are the operations behind it up to the next one that is not deeper (`Plan.Within`), so
going through the forest comes by the operations one by one, in the order of the plan
(`Plan.flatMap_visits_roots`).

Every level of the forest puts one guide of three characters in front of a row (`IsStem`), so each
row stands at the depth of its operation (`tree_shows_plan`).

A tree is drawn with as many levels as the plan has operations. Also a plan that was not made from a
text needs no more: going up from an operation comes by none of them twice
(`Plan.IsTrail.nodup`, `labelForest_roots_of_le`).
-/

namespace Scaffold

/-! ### Rows of a text -/

/-- A text of rows that end in a line feed each is cut into these rows, with nothing behind them. -/
theorem Text.splitOn_rows {rows : List String} (h : ∀ row ∈ rows, '\n' ∉ row.toList) :
    splitOn '\n' (String.join (rows.map (· ++ "\n"))).toList = rows.map String.toList ++ [[]] := by
  induction rows with
  | nil => rfl
  | cons row rows ih =>
    obtain ⟨hrow, hrows⟩ := List.forall_mem_cons.mp h
    have hfirst : (String.join ((row :: rows).map (· ++ "\n"))).toList =
        row.toList ++ '\n' :: (String.join (rows.map (· ++ "\n"))).toList := by
      simp [String.join_cons]
    rw [hfirst, splitOn_append_cons, splitOn_of_not_mem hrow, ih hrows]
    rfl

/-! ### Going through a forest -/

namespace Plan

variable {plan : Plan} {root : Path} {i j c m levels : Nat} {op dir : Operation}

theorem mem_positions {p : Operation → Bool} :
    i ∈ plan.positions p ↔ ∃ op, plan.operations[i]? = some op ∧ p op = true := by
  simp only [positions, List.mem_filterMap, Prod.exists, List.mem_zipIdx_iff_getElem?]
  constructor
  · rintro ⟨op, k, hop, hp⟩
    obtain ⟨hpop, hki⟩ := Option.ite_none_right_eq_some.mp hp
    obtain rfl := Option.some.inj hki
    exact ⟨op, hop, hpop⟩
  · rintro ⟨op, hop, hp⟩
    exact ⟨op, i, hop, if_pos hp⟩

/-- Positions come in the order of the plan. -/
theorem positions_pairwise (plan : Plan) (p : Operation → Bool) :
    (plan.positions p).Pairwise (· < ·) := by
  have hzip : (plan.operations.zipIdx.map Prod.snd).Pairwise (· < ·) := by
    rw [List.zipIdx_map_snd]
    exact List.pairwise_lt_range'
  refine List.Pairwise.filterMap _ (fun a b hab i hi j hj ↦ ?_) (List.pairwise_map.mp hzip)
  obtain rfl := Option.some.inj (Option.ite_none_right_eq_some.mp hi).2
  obtain rfl := Option.some.inj (Option.ite_none_right_eq_some.mp hj).2
  exact hab

theorem mem_children :
    j ∈ plan.children i ↔ ∃ op, plan.operations[j]? = some op ∧ op.parent = some i := by
  simp [children, mem_positions]

theorem mem_roots : j ∈ plan.roots ↔ ∃ op, plan.operations[j]? = some op ∧ op.parent = none := by
  simp [roots, mem_positions]

/-- The operation at a position and what is below it, at most `levels` levels deep, in the order in
which a tree is drawn. -/
def visits (plan : Plan) : (levels : Nat) → Nat → List Nat
  | 0, _ => []
  | levels + 1, i => i :: (plan.children i).flatMap (plan.visits levels)

/-- Going one level deeper comes by the same operations. -/
theorem mem_visits_succ (h : m ∈ plan.visits levels i) : m ∈ plan.visits (levels + 1) i := by
  induction levels generalizing i with
  | zero => cases h
  | succ levels ih =>
    rw [visits, List.mem_cons, List.mem_flatMap] at h ⊢
    exact h.imp_right fun ⟨c, hc, hm⟩ ↦ ⟨c, hc, ih hm⟩

theorem mem_visits_mono {levels' : Nat} (h : m ∈ plan.visits levels i) (hle : levels ≤ levels') :
    m ∈ plan.visits levels' i := by
  induction hle with
  | refl => exact h
  | step _ ih => exact mem_visits_succ ih

/-- What lies in an operation is visited one level deeper. -/
theorem mem_visits_child (h : m ∈ plan.visits levels i) (hc : c ∈ plan.children m) :
    c ∈ plan.visits (levels + 1) i := by
  induction levels generalizing i with
  | zero => cases h
  | succ levels ih =>
    rw [visits, List.mem_cons, List.mem_flatMap] at h ⊢
    refine .inr ?_
    rcases h with rfl | ⟨d, hd, hm⟩
    · exact ⟨c, hc, List.mem_cons_self⟩
    · exact ⟨d, hd, ih hm⟩

/-- Every operation of the plan has its place in the forest. -/
def IsForest (root : Path) (plan : Plan) : Prop :=
  ∀ i op, plan.operations[i]? = some op → Placed root plan.operations i op

/-- Position `m` is `i` or one of those behind it up to the next operation that is not deeper. -/
structure Within (plan : Plan) (i m : Nat) : Prop where
  le : i ≤ m
  lt_length : m < plan.operations.length
  deeper : ∀ j above below, i < j → j ≤ m → plan.operations[i]? = some above →
    plan.operations[j]? = some below → above.depth < below.depth

namespace IsForest

variable (h : plan.IsForest root)
include h

theorem hangsUnder (hop : plan.operations[i]? = some op) {p : Nat} (hp : op.parent = some p) :
    ∃ dir, HangsUnder plan.operations i op p dir := by
  have hplaced := h i op hop
  rwa [Placed, hp] at hplaced

theorem depth_of_root (hop : plan.operations[i]? = some op) (hp : op.parent = none) :
    op.depth = 0 := by
  have hplaced := h i op hop
  rw [Placed, hp] at hplaced
  exact hplaced.1

theorem depth_of_child (hdir : plan.operations[i]? = some dir) (hc : c ∈ plan.children i) :
    ∃ op, plan.operations[c]? = some op ∧ op.depth = dir.depth + 1 := by
  obtain ⟨op, hop, hparent⟩ := mem_children.mp hc
  obtain ⟨dir', hunder⟩ := h.hangsUnder hop hparent
  obtain rfl := Option.some.inj (hdir.symm.trans hunder.found)
  exact ⟨op, hop, hunder.depth_eq⟩

/-- What is within a child is within its parent. -/
theorem within_of_child (hc : c ∈ plan.children i) (hm : plan.Within c m) : plan.Within i m := by
  obtain ⟨op, hop, hparent⟩ := mem_children.mp hc
  obtain ⟨dir, hunder⟩ := h.hangsUnder hop hparent
  refine ⟨Nat.le_trans (Nat.le_of_lt hunder.before) hm.le, hm.lt_length,
    fun j above below hij hjm habove hbelow ↦ ?_⟩
  obtain rfl := Option.some.inj (habove.symm.trans hunder.found)
  have hdepth := hunder.depth_eq
  rcases Nat.lt_trichotomy j c with hjc | rfl | hcj
  · have hle := hunder.between j below hij hjc hbelow
    omega
  · obtain rfl := Option.some.inj (hop.symm.trans hbelow)
    omega
  · have hlt := hm.deeper j op below hcj hjm hop hbelow
    omega

/-- What is visited from an operation is within it. -/
theorem within_of_mem_visits (hi : i < plan.operations.length) (hm : m ∈ plan.visits levels i) :
    plan.Within i m := by
  induction levels generalizing i with
  | zero => cases hm
  | succ levels ih =>
    rw [visits, List.mem_cons, List.mem_flatMap] at hm
    rcases hm with rfl | ⟨c, hc, hm⟩
    · exact ⟨Nat.le_refl m, hi, fun j _ _ hmj hjm ↦ by omega⟩
    · obtain ⟨op, hop, -⟩ := mem_children.mp hc
      exact h.within_of_child hc (ih (List.getElem?_eq_some_iff.mp hop).1 hm)

/-- Operations of one depth are visited one after the other, each with all that is in it. -/
theorem flatMap_visits_pairwise {positions : List Nat} {depth : Nat}
    (hsorted : positions.Pairwise (· < ·))
    (hdepth : ∀ i ∈ positions, ∃ op, plan.operations[i]? = some op ∧ op.depth = depth) :
    (positions.flatMap (plan.visits levels)).Pairwise (· < ·) := by
  induction levels generalizing positions depth with
  | zero =>
    have hnil : positions.flatMap (plan.visits 0) = [] :=
      List.flatMap_eq_nil_iff.mpr fun _ _ ↦ rfl
    rw [hnil]
    exact .nil
  | succ levels ih =>
    have hlt : ∀ i ∈ positions, i < plan.operations.length := fun i hi ↦
      have ⟨_, hop, _⟩ := hdepth i hi
      (List.getElem?_eq_some_iff.mp hop).1
    refine List.pairwise_flatMap.mpr ⟨fun i hi ↦ ?_, ?_⟩
    · obtain ⟨dir, hdir, -⟩ := hdepth i hi
      rw [visits, List.pairwise_cons]
      refine ⟨fun m hm ↦ ?_, ih (plan.positions_pairwise _) fun c hc ↦ h.depth_of_child hdir hc⟩
      obtain ⟨c, hc, hm⟩ := List.mem_flatMap.mp hm
      obtain ⟨op, hop, hparent⟩ := mem_children.mp hc
      obtain ⟨around, hunder⟩ := h.hangsUnder hop hparent
      have hwithin := h.within_of_mem_visits (List.getElem?_eq_some_iff.mp hop).1 hm
      exact Nat.lt_of_lt_of_le hunder.before hwithin.le
    -- an operation that is not deeper ends what is in the one in front of it
    · refine hsorted.imp_of_mem fun {i j} hi hj hij m hm m' hm' ↦ ?_
      have hwithin := h.within_of_mem_visits (hlt i hi) hm
      have hwithin' := h.within_of_mem_visits (hlt j hj) hm'
      refine Nat.lt_of_lt_of_le (Nat.lt_of_not_le fun hjm ↦ ?_) hwithin'.le
      obtain ⟨above, habove, habovedepth⟩ := hdepth i hi
      obtain ⟨below, hbelow, hbelowdepth⟩ := hdepth j hj
      have hdeeper := hwithin.deeper j above below hij hjm habove hbelow
      omega

/-- Every operation is visited from some root, no deeper than it is far into the plan. -/
theorem exists_root (hi : i < plan.operations.length) :
    ∃ r ∈ plan.roots, i ∈ plan.visits (i + 1) r := by
  induction i using Nat.strong_induction_on with
  | _ i ih =>
    have hop := List.getElem?_eq_getElem hi
    rcases hparent : plan.operations[i].parent with - | p
    · exact ⟨i, mem_roots.mpr ⟨_, hop, hparent⟩, List.mem_cons_self⟩
    · obtain ⟨dir, hunder⟩ := h.hangsUnder hop hparent
      have hbefore := hunder.before
      obtain ⟨r, hr, hp⟩ := ih p hbefore (Nat.lt_trans hbefore hi)
      have hi := mem_visits_child hp (mem_children.mpr ⟨_, hop, hparent⟩)
      exact ⟨r, hr, mem_visits_mono hi (by omega)⟩

/-- **Going through the forest of a plan** comes by each operation once, in the order of the
plan. -/
theorem flatMap_visits_roots :
    plan.roots.flatMap (plan.visits plan.operations.length) =
      List.range plan.operations.length := by
  have hroots : ∀ i ∈ plan.roots, ∃ op, plan.operations[i]? = some op ∧ op.depth = 0 := by
    intro i hi
    obtain ⟨op, hop, hparent⟩ := mem_roots.mp hi
    exact ⟨op, hop, h.depth_of_root hop hparent⟩
  have hsorted : (plan.roots.flatMap (plan.visits plan.operations.length)).Pairwise (· < ·) :=
    h.flatMap_visits_pairwise (plan.positions_pairwise _) hroots
  refine hsorted.eq_of_mem_iff List.pairwise_lt_range fun m ↦ ?_
  rw [List.mem_flatMap, List.mem_range]
  constructor
  · rintro ⟨r, hr, hm⟩
    obtain ⟨op, hop, -⟩ := hroots r hr
    exact (h.within_of_mem_visits (List.getElem?_eq_some_iff.mp hop).1 hm).lt_length
  · intro hm
    obtain ⟨r, hr, hvisit⟩ := h.exists_root hm
    exact ⟨r, hr, mem_visits_mono hvisit hm⟩

end IsForest

/-! ### Trails to the root -/

variable {trail above : List Nat}

/-- The positions lead from the first one up to the root of the structure, each to its parent. -/
inductive IsTrail (plan : Plan) : List Nat → Prop
  | nil : IsTrail plan []
  | cons {i : Nat} {op : Operation} {above : List Nat} (h : IsTrail plan above)
    (hop : plan.operations[i]? = some op) (hparent : op.parent = above.head?) :
    IsTrail plan (i :: above)

namespace IsTrail

theorem lt_length (h : plan.IsTrail trail) : ∀ i ∈ trail, i < plan.operations.length := by
  induction h with
  | nil => simp
  | cons _ hop _ ih => exact List.forall_mem_cons.mpr ⟨(List.getElem?_eq_some_iff.mp hop).1, ih⟩

/-- The parent of an operation on a trail is the next one, or there is none and the trail ends. -/
theorem parent_eq (h : plan.IsTrail trail) {below : List Nat}
    (htrail : trail = below ++ i :: above) :
    ∃ op, plan.operations[i]? = some op ∧ op.parent = above.head? := by
  induction h generalizing below with
  | nil => simp at htrail
  | cons _ hop hparent ih =>
    rcases below with - | ⟨j, below⟩
    · obtain ⟨rfl, rfl⟩ := List.cons.inj htrail
      exact ⟨_, hop, hparent⟩
    · exact ih (List.cons.inj htrail).2

/-- A trail does not come by an operation twice, since it would go on in the same way. -/
theorem nodup (h : plan.IsTrail trail) : trail.Nodup := by
  induction h with
  | nil => exact .nil
  | @cons i op trail h hop hparent ih =>
    refine List.nodup_cons.mpr ⟨fun hi ↦ ?_, ih⟩
    obtain ⟨below, above, htrail⟩ := List.append_of_mem hi
    obtain ⟨op', hop', hparent'⟩ := h.parent_eq htrail
    obtain rfl := Option.some.inj (hop.symm.trans hop')
    -- the parent of `i` stands first on the trail, and behind `i`
    rw [htrail, List.append_cons] at ih hparent
    obtain ⟨first, hfirst⟩ : ∃ first, (below ++ [i]).head? = some first :=
      ⟨_, List.head?_eq_some_head (by simp)⟩
    rw [List.head?_append, hfirst, Option.some_or, hparent'] at hparent
    exact List.disjoint_of_nodup_append ih (List.mem_of_head? hfirst) (List.mem_of_head? hparent)

theorem length_le (h : plan.IsTrail trail) : trail.length ≤ plan.operations.length := by
  have hsub : trail ⊆ List.range plan.operations.length := fun i hi ↦
    List.mem_range.mpr (h.lt_length i hi)
  simpa using (h.nodup.subperm hsub).length_le

end IsTrail

end Plan

/-! ### Rows of a tree -/

namespace Render

variable {paint : TextStyle → String → String} {plan : Plan} {root : Path} {color : Bool}
  {levels : Nat} {stem : String}

/-- What stands in front of a label: a guide for each level around it, and a fork. -/
inductive IsStem : (levels : Nat) → String → Prop
  | fork (last : Bool) : IsStem 0 (if last then "└─ " else "├─ ")
  | guide (last : Bool) {levels : Nat} {stem : String} (h : IsStem levels stem) :
    IsStem (levels + 1) ((if last then "   " else "│  ") ++ stem)

/-- Each guide is three characters wide, and so is the fork. -/
theorem IsStem.length_eq (h : IsStem levels stem) : stem.length = 3 * (levels + 1) := by
  induction h with
  | fork last => cases last <;> rfl
  | guide last _ ih =>
    rw [String.length_append, ih]
    have hguide : (if last then "   " else "│  ").length = 3 := by cases last <;> rfl
    omega

theorem IsStem.not_mem (h : IsStem levels stem) : '\n' ∉ stem.toList := by
  induction h with
  | fork last => cases last <;> decide
  | guide last _ ih =>
    rw [String.toList_append, List.mem_append, not_or]
    exact ⟨by cases last <;> decide, ih⟩

/-- The row shows the operation at position `i`: behind `lead`, which is as wide as `depth` levels
are, come the levels that are left, and then the label. -/
def IsRow (paint : TextStyle → String → String) (plan : Plan) (color : Bool) (lead : String)
    (depth : Nat) (row : String) (i : Nat) : Prop :=
  ∃ op levels stem, plan.operations[i]? = some op ∧ op.depth = depth + levels ∧
    IsStem levels stem ∧ row = lead ++ stem ++ nodeLabel paint op color

theorem IsRow.of_guide {lead row : String} {depth i : Nat} (last : Bool)
    (h : IsRow paint plan color (lead ++ if last then "   " else "│  ") (depth + 1) row i) :
    IsRow paint plan color lead depth row i := by
  obtain ⟨op, levels, stem, hop, hdepth, hstem, rfl⟩ := h
  refine ⟨op, levels + 1, _, hop, by omega, .guide last hstem, ?_⟩
  simp only [String.append_assoc]

/-- What is drawn for positions of a plan: the first one, and then the others. -/
theorem labelForest_cons (hop : plan.operations[i]? = some op) (positions : List Nat) :
    labelForest paint plan color (levels + 1) (i :: positions) =
      .tree (nodeLabel paint op color) (labelForest paint plan color levels (plan.children i))
        (labelForest paint plan color (levels + 1) positions) := by
  rw [labelForest, List.foldr_cons, hop]
  rfl

/-- **Trees show what is visited**, row by row. -/
theorem rows_show (h : plan.IsForest root) (lead : String) {depth : Nat} {positions : List Nat}
    (hdepth : ∀ i ∈ positions, ∃ op, plan.operations[i]? = some op ∧ op.depth = depth) :
    List.Forall₂ (IsRow paint plan color lead depth)
      ((labelForest paint plan color levels positions).rows lead)
      (positions.flatMap (plan.visits levels)) := by
  induction levels generalizing lead depth positions with
  | zero => simp [labelForest, LabelForest.rows, Plan.visits]
  | succ levels ih =>
    induction positions with
    | nil => exact .nil
    | cons i positions ihNext =>
      obtain ⟨hfirst, hrest⟩ := List.forall_mem_cons.mp hdepth
      obtain ⟨op, hop, hopdepth⟩ := hfirst
      rw [labelForest_cons hop, LabelForest.rows, List.flatMap_cons, Plan.visits, List.cons_append]
      refine .cons ⟨op, 0, _, hop, hopdepth, .fork _, rfl⟩ (List.rel_append ?_ (ihNext hrest))
      refine (ih _ fun c hc ↦ ?_).imp fun row c hrow ↦ hrow.of_guide _
      rw [← hopdepth]
      exact h.depth_of_child hop hc

/-- Behind a trail that is as long as the plan there is no further level. -/
theorem labelForest_succ {trail : List Nat} (h : plan.IsTrail trail) {positions : List Nat}
    (hpositions : ∀ i ∈ positions, ∃ op, plan.operations[i]? = some op ∧ op.parent = trail.head?)
    (hlevels : plan.operations.length ≤ trail.length + levels) :
    labelForest paint plan color (levels + 1) positions =
      labelForest paint plan color levels positions := by
  induction levels generalizing trail positions with
  | zero =>
    have hnil : positions = [] := List.eq_nil_iff_forall_not_mem.mpr fun i hi ↦ by
      obtain ⟨op, hop, hparent⟩ := hpositions i hi
      have hlong := (h.cons hop hparent).length_le
      rw [List.length_cons] at hlong
      omega
    rw [hnil]
    rfl
  | succ levels ih =>
    induction positions with
    | nil => rfl
    | cons i positions ihNext =>
      obtain ⟨hfirst, hrest⟩ := List.forall_mem_cons.mp hpositions
      obtain ⟨op, hop, hparent⟩ := hfirst
      rw [labelForest_cons hop, labelForest_cons hop, ihNext hrest,
        ih (h.cons hop hparent) (fun c hc ↦ Plan.mem_children.mp hc)
          (by rw [List.length_cons]; omega)]

/-- **No tree is cut off.** In any plan, however its operations name their parents, what hangs on
the roots has no more levels than there are operations. -/
theorem labelForest_roots_of_le (h : plan.operations.length ≤ levels) :
    labelForest paint plan color levels plan.roots =
      labelForest paint plan color plan.operations.length plan.roots := by
  induction levels, h using Nat.le_induction with
  | base => rfl
  | succ levels hle ih =>
    rw [labelForest_succ .nil (fun i hi ↦ Plan.mem_roots.mp hi) (by simpa using hle), ih]

/-- **The rendered tree is the plan.** When neither the root of the structure nor a label has a line
feed in it, the tree of a plan has one row more than the plan has operations, and nothing behind the
last row. The first row is the root; the row behind it that has the number of an operation has three
characters for each level down to the operation, and then its label. -/
theorem tree_shows_plan {σ : Type} {b : Backend (StateM σ)}
    {readBlock : String → Option FrontMatter} {options : PlanOptions} {text : String} {s s' : σ}
    (hrun : runFrom s (Planner.plan b readBlock options text).run = (.ok plan, s'))
    (hroot : '\n' ∉ plan.options.root.text.toList)
    (hlabels : ∀ op ∈ plan.operations, '\n' ∉ (nodeLabel TextStyle.paint op false).toList) :
    ∃ rows : List String, rows.length = plan.operations.length ∧
      Text.splitOn '\n' (tree plan false).toList =
        (plan.options.root.text :: rows).map String.toList ++ [[]] ∧
      ∀ (i : Nat) (op : Operation), plan.operations[i]? = some op → ∃ stem : String,
        rows[i]? = some (stem ++ nodeLabel TextStyle.paint op false) ∧ IsStem op.depth stem ∧
          stem.length = 3 * (op.depth + 1) := by
  have hforest : plan.IsForest options.root := fun i op hop ↦ Planner.placed_plan hrun hop
  have hroots : ∀ i ∈ plan.roots, ∃ op, plan.operations[i]? = some op ∧ op.depth = 0 := by
    intro i hi
    obtain ⟨op, hop, hparent⟩ := Plan.mem_roots.mp hi
    exact ⟨op, hop, hforest.depth_of_root hop hparent⟩
  set rows :=
    (labelForest TextStyle.paint plan false plan.operations.length plan.roots).rows ""
  have hrows : List.Forall₂ (IsRow TextStyle.paint plan false "" 0) rows
      (List.range plan.operations.length) := by
    rw [← hforest.flatMap_visits_roots]
    exact rows_show hforest "" hroots
  have hlength : rows.length = plan.operations.length := by
    rw [hrows.length_eq, List.length_range]
  have hrow : ∀ i (hi : i < rows.length), ∃ op stem, plan.operations[i]? = some op ∧
      IsStem op.depth stem ∧ rows[i] = stem ++ nodeLabel TextStyle.paint op false := by
    intro i hi
    have hrow := hrows.get hi (by simpa [hlength] using hi)
    simp only [List.get_eq_getElem, List.getElem_range] at hrow
    obtain ⟨op, levels, stem, hop, hdepth, hstem, htext⟩ := hrow
    rw [Nat.zero_add] at hdepth
    rw [String.empty_append] at htext
    exact ⟨op, stem, hop, hdepth ▸ hstem, htext⟩
  refine ⟨rows, hlength, ?_, fun i op hop ↦ ?_⟩
  · refine Text.splitOn_rows (List.forall_mem_cons.mpr ⟨hroot, fun row hmem ↦ ?_⟩)
    obtain ⟨i, hi, rfl⟩ := List.getElem_of_mem hmem
    obtain ⟨op, stem, hop, hstem, htext⟩ := hrow i hi
    rw [htext, String.toList_append, List.mem_append, not_or]
    exact ⟨hstem.not_mem, hlabels op (List.mem_of_getElem? hop)⟩
  · have hi : i < rows.length := hlength ▸ (List.getElem?_eq_some_iff.mp hop).1
    obtain ⟨op', stem, hop', hstem, htext⟩ := hrow i hi
    obtain rfl := Option.some.inj (hop.symm.trans hop')
    exact ⟨stem, by rw [List.getElem?_eq_getElem hi, htext], hstem, hstem.length_eq⟩

/-- The tree of a structure in which a directory with a file in it is copied. -/
theorem tree_shows_nestedCopy : ∃ plan, Planner.nestedCopy.1 = .ok plan ∧
    tree plan false = "/r\n└─ a/\n   └─ b/ <- /r/s (copy)\n" ++
      "      ├─ x.txt <- /r/s/x.txt (included)\n      ├─ c.txt\n      └─ d.txt\n" ∧
    ∃ rows : List String, rows.length = plan.operations.length ∧
      Text.splitOn '\n' (tree plan false).toList =
        (plan.options.root.text :: rows).map String.toList ++ [[]] := by
  obtain ⟨plan, t', hrun, hroot, hlabels, htree⟩ : ∃ plan t', Planner.nestedCopy = (.ok plan, t') ∧
      '\n' ∉ plan.options.root.text.toList ∧
      (∀ op ∈ plan.operations, '\n' ∉ (nodeLabel TextStyle.paint op false).toList) ∧
      tree plan false = "/r\n└─ a/\n   └─ b/ <- /r/s (copy)\n" ++
        "      ├─ x.txt <- /r/s/x.txt (included)\n      ├─ c.txt\n      └─ d.txt\n" :=
    exists_runFrom_eq_ok (by decide +kernel)
  obtain ⟨rows, hlength, hsplit, -⟩ := tree_shows_plan hrun hroot hlabels
  exact ⟨plan, congrArg Prod.fst hrun, htree, rows, hlength, hsplit⟩

end Render

end Scaffold
