import Scaffold.Proofs.Execution.Skipping
import Scaffold.Proofs.Plan.Enumeration
import Scaffold.Proofs.Render.Tree

/-!
# What is included under an operation

The end of the included operations behind an operation is found by a scan that reads kinds and
depths and never looks at a parent. The scan comes to a position when everything up to there is
included and deeper (`Plan.ScansTo`). What it should find is said by the parents: the included
operations from which the operation is reached, going from parent to parent through included ones
(`Plan.IncludedUnder`).

Going up from an operation that the scan comes to never leads in front of where it started, because
nothing between an operation and its parent is higher (`IsForest.includedUnder_of_scansTo`). Going
down, the scan could stop too early at an operation for a line; but an included operation belongs to
the nearest operation for a line, which is higher, so none stands between it and its parent
(`Plan.included_behind_parent`, `IsForest.scansTo_of_includedUnder`).
-/

namespace Scaffold

open Planner

namespace Plan

variable {plan : Plan} {i j p last : Nat} {op dir : Operation} {root : Path}

/-! ### The scan and the parents -/

/-- The scan behind the operation at position `i` comes to position `j`: the operations up to there
are included, and deeper than the one at `i`. -/
structure ScansTo (plan : Plan) (i j : Nat) : Prop where
  before : i < j
  lt_length : j < plan.operations.length
  inside : ∀ k above below, i < k → k ≤ j → plan.operations[i]? = some above →
    plan.operations[k]? = some below → below.kind = .included ∧ above.depth < below.depth

/-- The operation at a position is included, and from it the one at position `i` is reached by going
from parent to parent through included operations only. -/
inductive IncludedUnder (plan : Plan) (i : Nat) : Nat → Prop
  | direct {j : Nat} {op : Operation} : plan.operations[j]? = some op → op.kind = .included →
      op.parent = some i → IncludedUnder plan i j
  | step {j p : Nat} {op : Operation} : plan.operations[j]? = some op → op.kind = .included →
      op.parent = some p → IncludedUnder plan i p → IncludedUnder plan i j

/-- The end of the included operations, by how many the scan takes. -/
theorem le_includedEnd?_iff (hop : plan.operations[i]? = some op) {n : Nat} :
    (∃ last, plan.includedEnd? i = some last ∧ i + 1 + n ≤ last) ↔
      n < ((plan.operations.drop (i + 1)).takeWhile fun below ↦
        below.kind == .included && decide (op.depth < below.depth)).length := by
  rw [includedEnd?, hop, Option.bind_eq_bind, Option.bind_some]
  generalize (plan.operations.drop (i + 1)).takeWhile _ = taken
  rcases taken with - | ⟨first, taken⟩
  · simp
  · simp only [List.isEmpty_cons, Bool.false_eq_true, if_false, Option.some.injEq,
      exists_eq_left', List.length_cons]
    omega

/-- **The scan comes to a position** exactly if the end that it answers is not in front of it. -/
theorem scansTo_iff :
    plan.ScansTo i j ↔ i < j ∧ ∃ last, plan.includedEnd? i = some last ∧ j ≤ last := by
  have hbehind : ∀ {k}, i < k → ∃ n, k = i + 1 + n := fun {k} hk ↦ ⟨k - (i + 1), by omega⟩
  rcases hop : plan.operations[i]? with - | op
  · refine iff_of_false (fun h ↦ ?_) fun ⟨_, last, hlast, _⟩ ↦ ?_
    · exact absurd (h.before.trans h.lt_length) (Nat.not_lt.mpr (List.getElem?_eq_none_iff.mp hop))
    · rw [includedEnd?, hop] at hlast
      cases hlast
  constructor
  · intro h
    obtain ⟨n, rfl⟩ := hbehind h.before
    have hlength := h.lt_length
    refine ⟨h.before, (le_includedEnd?_iff hop).mpr (lt_length_takeWhile_iff.mpr ⟨?_, ?_⟩)⟩
    · rw [List.length_drop]
      omega
    · intro k below hk hbelow
      rw [List.getElem?_drop] at hbelow
      simpa using h.inside _ op below (by omega) (by omega) hop hbelow
  · rintro ⟨hij, hlast⟩
    obtain ⟨n, rfl⟩ := hbehind hij
    obtain ⟨hlength, hinside⟩ := lt_length_takeWhile_iff.mp ((le_includedEnd?_iff hop).mp hlast)
    rw [List.length_drop] at hlength
    refine ⟨hij, by omega, fun k above below hik hkj habove hbelow ↦ ?_⟩
    obtain rfl := Option.some.inj (hop.symm.trans habove)
    obtain ⟨m, rfl⟩ := hbehind hik
    have hfound := hinside m below (by omega) (by rwa [List.getElem?_drop])
    simpa using hfound

/-- Under an operation is something only if it is the parent of something. -/
theorem IncludedUnder.exists_child (h : plan.IncludedUnder i j) :
    ∃ (c : Nat) (op : Operation),
      plan.operations[c]? = some op ∧ op.kind = .included ∧ op.parent = some i := by
  induction h with
  | direct hop hkind hparent => exact ⟨_, _, hop, hkind, hparent⟩
  | step _ _ _ _ ih => exact ih

/-! ### Going down -/

/-- The scan goes on below what it comes to. -/
theorem ScansTo.trans (h : plan.ScansTo i p) (h' : plan.ScansTo p j) : plan.ScansTo i j := by
  refine ⟨h.before.trans h'.before, h'.lt_length, fun k above below hik hkj habove hbelow ↦ ?_⟩
  rcases Nat.lt_or_ge p k with hpk | hkp
  · have hmiddle := List.getElem?_eq_getElem h.lt_length
    obtain ⟨hkind, hdeeper⟩ := h'.inside k _ below hpk hkj hmiddle hbelow
    have hdepth := (h.inside p above _ h.before le_rfl habove hmiddle).2
    exact ⟨hkind, hdepth.trans hdeeper⟩
  · exact h.inside k above below hik hkp habove hbelow

section Blocks

variable (hblocks : Blocks Bears plan.operations)
include hblocks

/-- An included operation is deeper than the nearest operation for a line. -/
theorem depth_lt_of_nearestOwn {carrier : Operation} (h : Execution.NearestOwn plan j i carrier)
    (hop : plan.operations[j]? = some op) (hkind : op.kind = .included) :
    carrier.depth < op.depth := by
  have hscan : plan.ScansTo i j :=
    scansTo_iff.mpr ⟨h.before, Execution.includedEnd?_of_nearestOwn hblocks h hop hkind⟩
  exact (hscan.inside j carrier op h.before le_rfl h.found hop).2

/-- **Between an included operation and its parent** all operations are included. -/
theorem included_behind_parent (h : HangsUnder plan.operations j op p dir)
    (hop : plan.operations[j]? = some op) (hkind : op.kind = .included) {k : Nat} {o : Operation}
    (hpk : p < k) (hkj : k < j) (ho : plan.operations[k]? = some o) : o.kind = .included := by
  by_contra hown
  have hj := Nat.le_of_lt (List.getElem?_eq_some_iff.mp hop).1
  obtain ⟨m, carrier, hkm, hm⟩ := Execution.exists_nearestOwn ho hown hkj hj
  -- the nearest operation for a line would be higher, but what is behind the parent is not
  have hdeeper := depth_lt_of_nearestOwn hblocks hm hop hkind
  have hhigher := h.between m carrier (Nat.lt_of_lt_of_le hpk hkm) hm.before hm.found
  omega

/-- The scan behind an operation comes to every included one of which it is the parent. -/
theorem scansTo_of_hangsUnder (h : HangsUnder plan.operations j op p dir)
    (hop : plan.operations[j]? = some op) (hkind : op.kind = .included) : plan.ScansTo p j := by
  have hlength := (List.getElem?_eq_some_iff.mp hop).1
  refine ⟨h.before, hlength, fun k above below hpk hkj habove hbelow ↦ ?_⟩
  obtain rfl := Option.some.inj (habove.symm.trans h.found)
  have hdepth := h.depth_eq
  obtain hkj | rfl := Nat.lt_or_eq_of_le hkj
  · have hle := h.between k below hpk hkj hbelow
    exact ⟨included_behind_parent hblocks h hop hkind hpk hkj hbelow, by omega⟩
  · obtain rfl := Option.some.inj (hop.symm.trans hbelow)
    exact ⟨hkind, by omega⟩

end Blocks

namespace IsForest

variable (h : plan.IsForest root)
include h

theorem scansTo_of_includedUnder (hblocks : Blocks Bears plan.operations)
    (hunder : plan.IncludedUnder i j) : plan.ScansTo i j := by
  induction hunder with
  | direct hop hkind hparent =>
    obtain ⟨dir, hdir⟩ := h.hangsUnder hop hparent
    exact scansTo_of_hangsUnder hblocks hdir hop hkind
  | step hop hkind hparent _ ih =>
    obtain ⟨dir, hdir⟩ := h.hangsUnder hop hparent
    exact ih.trans (scansTo_of_hangsUnder hblocks hdir hop hkind)

/-! ### Going up -/

theorem includedUnder_of_scansTo (hscan : plan.ScansTo i j) : plan.IncludedUnder i j := by
  induction j using Nat.strong_induction_on with
  | _ j ih =>
    have hlength := hscan.lt_length
    have hop := List.getElem?_eq_getElem hlength
    have habove := List.getElem?_eq_getElem (hscan.before.trans hlength)
    obtain ⟨hkind, hdeeper⟩ := hscan.inside j _ _ hscan.before le_rfl habove hop
    rcases hparent : plan.operations[j].parent with - | p
    · have hroot := h.depth_of_root hop hparent
      omega
    obtain ⟨dir, hdir⟩ := h.hangsUnder hop hparent
    rcases Nat.lt_trichotomy p i with hpi | rfl | hip
    -- a parent in front of `i` would have nothing as high as `i` behind it
    · have hle := hdir.between i _ hpi hscan.before habove
      omega
    · exact .direct hop hkind hparent
    · refine .step hop hkind hparent (ih p hdir.before ⟨hip, ?_, fun k above below hik hkp ↦ ?_⟩)
      · exact hdir.before.trans hlength
      · exact hscan.inside k above below hik (hkp.trans (Nat.le_of_lt hdir.before))

/-- **The scan finds what is included under an operation.** -/
theorem scansTo_iff_includedUnder (hblocks : Blocks Bears plan.operations) :
    plan.ScansTo i j ↔ plan.IncludedUnder i j :=
  ⟨h.includedUnder_of_scansTo, h.scansTo_of_includedUnder hblocks⟩

end IsForest

end Plan

/-! ### Whole plans -/

namespace Planner

variable {σ : Type} {b : Backend (StateM σ)}

/-- **The included operations behind an operation are those under it.** In a plan made from a text,
an end of the included operations is answered for exactly those operations that are the parent of
one, and up to it stand exactly the operations from which the operation is reached along parents
that are included. -/
theorem scan_finds_subtree {readBlock : String → Option FrontMatter} {options : PlanOptions}
    {text : String} {s s' : σ} {result : Plan}
    (h : runFrom s (plan b readBlock options text).run = (.ok result, s')) (i : Nat) :
    ((∃ last, result.includedEnd? i = some last) ↔ ∃ (c : Nat) (op : Operation),
      result.operations[c]? = some op ∧ op.kind = .included ∧ op.parent = some i) ∧
    ∀ last, result.includedEnd? i = some last →
      ∀ j, (i < j ∧ j ≤ last) ↔ result.IncludedUnder i j := by
  have hforest : result.IsForest options.root := fun i op hop ↦ placed_plan h hop
  have hunder : ∀ j, result.ScansTo i j ↔ result.IncludedUnder i j := fun j ↦
    hforest.scansTo_iff_includedUnder (blocks_plan h)
  have hspan : ∀ last, result.includedEnd? i = some last →
      ∀ j, (i < j ∧ j ≤ last) ↔ result.IncludedUnder i j := by
    intro last hlast j
    rw [← hunder j, Plan.scansTo_iff, hlast]
    simp
  refine ⟨⟨fun ⟨last, hlast⟩ ↦ ?_, fun ⟨c, op, hop, hkind, hparent⟩ ↦ ?_⟩, hspan⟩
  · have hbefore := (Execution.includedEnd?_spec hlast).1
    exact ((hspan last hlast last).mp ⟨hbefore, le_rfl⟩).exists_child
  · have hscan := (hunder c).mpr (.direct hop hkind hparent)
    obtain ⟨-, last, hlast, -⟩ := Plan.scansTo_iff.mp hscan
    exact ⟨last, hlast⟩

/-- A directory is copied twice, and a line in between is in the first copy. -/
def draftsTwice : Except PlanError Plan × MemoryStore :=
  runFrom draftsStore (plan MemoryStore.backend (fun _ ↦ none) { root := .ofText "/r" }
    "[src] > dst\n\tb.txt\n[src] > again").run

theorem scan_finds_subtree_twice : ∃ result s', draftsTwice = (.ok result, s') ∧
    result.operations.map (fun op ↦ (op.target.text, op.parent)) =
      [("/r/dst", none), ("/r/dst/a.old", some 0), ("/r/dst/old", some 0),
        ("/r/dst/old/old.txt", some 2), ("/r/dst/b.txt", some 0), ("/r/again", none),
        ("/r/again/a.old", some 5), ("/r/again/old", some 5), ("/r/again/old/old.txt", some 7)] ∧
    (List.range 9).map result.includedEnd? =
      [some 3, none, some 3, none, none, some 8, none, some 8, none] ∧
    ∀ j, (0 < j ∧ j ≤ 3) ↔ result.IncludedUnder 0 j := by
  obtain ⟨result, s', hplan, hlisted, hends, hend⟩ : ∃ result s', draftsTwice = (.ok result, s') ∧
      result.operations.map (fun op ↦ (op.target.text, op.parent)) =
        [("/r/dst", none), ("/r/dst/a.old", some 0), ("/r/dst/old", some 0),
          ("/r/dst/old/old.txt", some 2), ("/r/dst/b.txt", some 0), ("/r/again", none),
          ("/r/again/a.old", some 5), ("/r/again/old", some 5),
          ("/r/again/old/old.txt", some 7)] ∧
      (List.range 9).map result.includedEnd? =
        [some 3, none, some 3, none, none, some 8, none, some 8, none] ∧
      result.includedEnd? 0 = some 3 :=
    exists_runFrom_eq_ok (by decide +kernel)
  exact ⟨result, s', hplan, hlisted, hends, (scan_finds_subtree hplan 0).2 3 hend⟩

end Planner

end Scaffold
