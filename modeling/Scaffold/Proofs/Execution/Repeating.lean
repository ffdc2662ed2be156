import Scaffold.Proofs.Execution.Run
import Scaffold.Proofs.Plan.Described
import Scaffold.Proofs.Store.Settling

/-!
# Building twice

A text of which every line creates something can be built again on the store that it left, and then
nothing changes and the report is the same (`execute_again`). Its lines may be in each other's way
or in the way of what was there: what could not be made the first time cannot be made the second
time, for the same reason, although by then there is more in the store.

Making an empty entry settles (`settles_makeEmpty`), so every operation of such a run does, and with
them the run (`settles_executePlan`). The second run is planned on another store than the first, but
planning asks nothing of it.
-/

namespace Scaffold.Execution

open MemoryStore Planner

variable {s : MemoryStore} {op : Operation} {plan : Plan} {run : Run}

/-! ### Operations -/

/-- **Making an empty entry** settles. -/
theorem settles_makeEmpty (hwf : s.WellFormed) (htarget : op.target.isAbsolute = true) :
    Settles (makeEmpty backend op).run s := by
  unfold makeEmpty
  split
  · exact settles_ensureDir hwf htarget
  · obtain ⟨hsettles, hthere⟩ := settles_ensureParent hwf htarget
    refine hsettles.attempt fun _ s' hmade ↦ ?_
    have hwf' := hsettles.wellFormed
    rw [hmade] at hwf'
    exact settles_write hwf' htarget (hthere s' hmade)

/-- **An operation that creates something** settles, and leaves nothing to complete. -/
theorem settles_create (hwf : s.WellFormed) (htarget : op.target.isAbsolute = true) (run : Run) :
    Settles (create backend op run) s ∧
      (runFrom s (create backend op run)).1.pending = run.pending := by
  have hmade := settles_makeEmpty hwf htarget
  unfold create
  refine ⟨hmade.bind ?_, ?_⟩
  · split
    · exact .pure hmade.wellFormed _
    · exact .pure hmade.wellFormed _
  · rw [runFrom_bind]
    split <;> rfl

/-- One more operation that creates something, while there is nothing to complete. -/
theorem settles_advance (plan : Plan) (hwf : s.WellFormed) (hkind : op.kind = .create)
    (htarget : op.target.isAbsolute = true) (hpending : run.pending = []) (n : Nat) :
    Settles (advance backend plan run (op, n)) s ∧
      (runFrom s (advance backend plan run (op, n))).1.pending = [] := by
  have hstep : step backend plan n op run = create backend op run := by
    simp [step, Run.skips, hkind]
  obtain ⟨hcreated, hkept⟩ := settles_create hwf htarget run
  rw [hpending] at hkept
  have hsettled : ∀ t : MemoryStore,
      runFrom t (settleMoves backend n (runFrom s (create backend op run)).1) =
        ((runFrom s (create backend op run)).1, t) :=
    settleMoves_of_ahead n (by simp [hkept])
  simp only [advance, hstep]
  refine ⟨hcreated.bind (.of_still hcreated.wellFormed hsettled), ?_⟩
  rw [runFrom_bind, hsettled]
  exact hkept

/-! ### Runs -/

section Runs

variable {store : MemoryStore} (hwf : store.WellFormed)
  (hcreates : ∀ op ∈ plan.operations, op.kind = .create)
  (htargets : ∀ op ∈ plan.operations, op.target.isAbsolute = true)
include hwf hcreates htargets

/-- **A run up to a position** settles. -/
theorem settles_runBefore {n : Nat} (hn : n ≤ plan.operations.length) :
    Settles (runBefore backend plan n) store ∧
      (runFrom store (runBefore backend plan n)).1.pending = [] := by
  induction n with
  | zero =>
    refine ⟨.pure hwf _, ?_⟩
    rw [runBefore_zero, runFrom_pure, start_eq]
  | succ n ih =>
    obtain ⟨hbefore, hpending⟩ := ih (Nat.le_of_succ_le hn)
    have hop : plan.operations[n]? = some plan.operations[n] :=
      List.getElem?_eq_getElem (Nat.lt_of_succ_le hn)
    have hmem := List.mem_of_getElem? hop
    obtain ⟨hadvance, hpending'⟩ := settles_advance plan hbefore.wellFormed
      (hcreates _ hmem) (htargets _ hmem) hpending n
    rw [runBefore_succ backend plan hop]
    exact ⟨hbefore.bind hadvance, hpending'⟩

/-- **The execution of a plan that only creates** settles. -/
theorem settles_executePlan : Settles (executePlan backend plan) store := by
  have hrun := (settles_runBefore hwf hcreates htargets le_rfl).1
  rw [executePlan_eq]
  exact hrun.bind (.pure hrun.wellFormed _)

end Runs

/-! ### Texts -/

/-- The targets of a plan for an absolute root are absolute. -/
theorem isAbsolute_target_plan {σ : Type} {b : Backend (StateM σ)} {s s' : σ}
    {readBlock : String → Option FrontMatter} {options : PlanOptions} {text : String}
    (hplan : runFrom s (Planner.plan b readBlock options text).run = (.ok plan, s'))
    (hroot : options.root.isAbsolute = true) :
    ∀ op ∈ plan.operations, op.target.isAbsolute = true := by
  have hplaced : ∀ (i : Nat) (op : Operation), plan.operations[i]? = some op →
      op.target.isAbsolute = true := by
    intro i
    induction i using Nat.strong_induction_on with
    | _ i ih =>
      intro op hop
      have hplace := placed_plan hplan hop
      unfold Placed at hplace
      split at hplace
      · rw [hplace.2]
        exact Path.isAbsolute_join hroot _
      · obtain ⟨dir, hdir⟩ := hplace
        rw [hdir.target_eq]
        exact Path.isAbsolute_join (ih _ hdir.before dir hdir.found) _
  intro op hop
  obtain ⟨i, hi⟩ := List.mem_iff_getElem?.mp hop
  exact hplaced i op hi

/-- **Building twice is building once.** Let a text be planned of which every line creates
something, with any rules, at an absolute root and on a store that is a tree. Its names may repeat,
contradict each other, or lead elsewhere. When it is executed once more on the store that its
execution left, the store stays as it is, and the report is the same: operations, log and
warnings. -/
theorem execute_again {readBlock : String → Option FrontMatter} {options : PlanOptions}
    {text : String} {plan : Plan} {store store' : MemoryStore}
    (hcreates : OnlyCreates readBlock text)
    (hplan : runFrom store (Planner.plan MemoryStore.backend readBlock options text).run =
      (.ok plan, store'))
    (hroot : options.root.isAbsolute = true) (hwf : store.WellFormed) :
    ∃ report final,
      runFrom store (execute MemoryStore.backend readBlock options text).run =
        (.ok report, final) ∧
      runFrom final (execute MemoryStore.backend readBlock options text).run =
        (.ok report, final) := by
  obtain ⟨planned, hblind⟩ := plan_blind MemoryStore.backend options hcreates
  obtain ⟨rfl, rfl⟩ : planned = .ok plan ∧ store = store' := by
    rw [hblind] at hplan
    exact Prod.mk.inj hplan
  have hkinds := (plan_of_onlyCreates hcreates hplan).2
  have hsettles := settles_executePlan hwf (fun op hop ↦ (hkinds op hop).1)
    (isAbsolute_target_plan hplan hroot)
  refine ⟨_, _, runFrom_execute hplan, ?_⟩
  rw [runFrom_execute (hblind _), hsettles.again _ hsettles.wellFormed (.refl _)]

/-- A structure with a directory in the place of a file, a file and something in it, and a file
outside of the root. -/
def clashingTree : String := "f\n\tx.txt\ng.txt\ng.txt/h\n../up.txt"

/-- The options to build it with. -/
def clashingOptions : PlanOptions := { root := .ofText "/r" }

/-- A store with a file in the place of a directory, and one with bytes. -/
def clashingStore : MemoryStore :=
  (MemoryStore.empty.withFile (.ofText "/r/f") ByteArray.empty).withFile (.ofText "/r/g.txt")
    ⟨#[103]⟩

/-- The first execution. -/
def clashingRun : Except PlanError Report × MemoryStore :=
  runFrom clashingStore (execute MemoryStore.backend (fun _ ↦ none) clashingOptions
    clashingTree).run

theorem onlyCreates_clashingTree : OnlyCreates (fun _ ↦ none) clashingTree := by
  have hkinds : ∀ line ∈ parseLines ["f", "\tx.txt", "g.txt", "g.txt/h", "../up.txt"],
      ∃ name ∈ ["f", "x.txt", "g.txt", "g.txt/h", "../up.txt"], line.kind = .create name := by
    decide +kernel
  refine ⟨["f", "\tx.txt", "g.txt", "g.txt/h", "../up.txt"], by decide +kernel, fun line hline ↦ ?_⟩
  obtain ⟨name, -, hname⟩ := hkinds line hline
  exact ⟨name, hname⟩

/-- The plan for it. -/
def clashingPlan : Except PlanError Plan × MemoryStore :=
  runFrom clashingStore (Planner.plan MemoryStore.backend (fun _ ↦ none) clashingOptions
    clashingTree).run

theorem execute_again_clashing : ∃ report, clashingRun.1 = .ok report ∧
    report.log.map (·.outcome) = [.failed, .failed, .succeeded, .failed, .succeeded] ∧
    runFrom clashingRun.2 (execute MemoryStore.backend (fun _ ↦ none) clashingOptions
      clashingTree).run = (.ok report, clashingRun.2) := by
  have houtcomes : clashingRun.1.toOption.map (fun report ↦ report.log.map (·.outcome)) =
      some [.failed, .failed, .succeeded, .failed, .succeeded] := by
    decide +kernel
  have hplanned : clashingPlan.1.toOption.isSome = true := by decide +kernel
  obtain ⟨report, final, hfirst, hsecond⟩ := execute_again onlyCreates_clashingTree
    (runFrom_eq_ok hplanned) (by decide +kernel) (by decide +kernel)
  have hrun : clashingRun = (.ok report, final) := hfirst
  rw [hrun] at houtcomes ⊢
  exact ⟨report, rfl, Option.some.inj houtcomes, hsecond⟩

end Scaffold.Execution
