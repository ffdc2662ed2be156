import Scaffold.Proofs.Execution.Run
import Scaffold.Proofs.Plan.Listing

/-!
# Removing the source of a moved directory

A directory whose contents are planned one by one is moved by copying them and removing it behind
the last of them (`Removes`). It is removed with all that is in it at that moment, whereas what was
copied was found when the plan was made. Between the two lie the operations in front, which may put
something into the directory, and a listing may have failed.

What is lost is therefore known exactly, where the names in the directory are texts. An operation of
the move carries a file along, with success, if and only if the file was already stored when the
plan was made, is reached from the directory along names, and no listing failed above it
(`removed_file_carried_iff`). That every operation has succeeded is what an intact move stands for
(`PendingSince.carried`).
-/

namespace Scaffold.Execution

variable {σ : Type} {b : Backend (StateM σ)} {view : σ → MemoryStore} {plan : Plan}

/-- In the run of a plan from the state `s₀`, the source of the move `p` is removed behind the
operation at position `i`, and `s` is the state in which that is done. -/
def Removes (b : Backend (StateM σ)) (plan : Plan) (s₀ : σ) (i : Nat) (p : PendingMove) (s : σ) :
    Prop :=
  ∃ op done others, plan.operations[i]? = some op ∧
    let before := runFrom s₀ (runBefore b plan i)
    let stepped := runFrom before.2 (step b plan i op before.1)
    let ending := stepped.1.pending.partition (·.last == i)
    ending.1 = done ++ p :: others ∧ p.intact = true ∧
      s = (runFrom stepped.2 (done.foldlM (settle b) { stepped.1 with pending := ending.2 })).2

/-- **A source is removed right behind the last operation of its move**, which is pending since the
move was made: nothing is settled in between, because no other move is pending. -/
theorem Removes.since {s₀ s : σ} {i : Nat} {p : PendingMove} (h : Removes b plan s₀ i p s) :
    ∃ op, plan.operations[i]? = some op ∧ p.last = i ∧ p.intact = true ∧
      let before := runFrom s₀ (runBefore b plan i)
      let stepped := runFrom before.2 (step b plan i op before.1)
      s = stepped.2 ∧ ∃ k move, PendingSince plan (i + 1) stepped.1 p k move := by
  obtain ⟨op, done, others, hop, hending, hintact, hs⟩ := h
  have hi : i < plan.operations.length := (List.getElem?_eq_some_iff.mp hop).1
  set before := runFrom s₀ (runBefore b plan i)
  have hreached : Reached plan i before.1 := reached_runBefore b plan s₀ (Nat.le_of_lt hi)
  have hdone := hreached.step hop (step_cases b plan i op before.1 before.2)
  set stepped := runFrom before.2 (step b plan i op before.1)
  have hfound : stepped.1.pending.filter (·.last == i) = done ++ p :: others := by
    rwa [List.partition_eq_filter_filter] at hending
  obtain ⟨hp, hlast⟩ := List.mem_filter.mp (hfound ▸ List.mem_append_right done List.mem_cons_self)
  obtain rfl : done = [] := by
    have hlength := congrArg List.length hfound
    have hfilter := List.length_filter_le (·.last == i) stepped.1.pending
    have hsingle := hdone.single
    rw [List.length_append, List.length_cons] at hlength
    exact List.length_eq_zero_iff.mp (by omega)
  exact ⟨op, hop, by simpa using hlast, hintact, hs, hdone.pending p hp⟩

/-- **What is removed was carried along**: the operations behind the move, up to where its source is
removed, are its included operations, and the report says of each that it succeeded. -/
theorem Removes.carried {s₀ s : σ} {i : Nat} {p : PendingMove} (h : Removes b plan s₀ i p s) :
    ∃ (k : Nat) (move : Operation), plan.operations[k]? = some move ∧ move.kind = .move ∧
      move.source = some p.source ∧ plan.includedEnd? k = some i ∧
      ∀ (j : Nat) (op : Operation), k < j → j ≤ i → plan.operations[j]? = some op →
        op.source ≠ none →
        (runFrom s₀ (executePlan b plan)).1.log[j]? = some (op.logged .succeeded) := by
  obtain ⟨op, hop, rfl, hintact, -, k, move, hsince⟩ := h.since
  obtain ⟨more, hreport⟩ := report_log_of_step b plan s₀ hop
  refine ⟨k, move, hsince.found, hsince.kind_eq, hsince.source_eq, hsince.last_eq,
    fun j o hkj hji ho hsource ↦ ?_⟩
  have hlogged := hsince.carried hintact j o hkj (Nat.lt_succ_of_le hji) ho hsource
  rw [hreport, List.getElem?_append_left, Array.getElem?_toList, hlogged]
  rw [Array.length_toList]
  exact (Array.getElem?_eq_some_iff.mp hlogged).1

/-- **What is lost with the source of a move.** Let a plan be made for any text in a store that is a
tree, and let any schedule of failures stand in front of the calls, while planning and while
running. Let the source of a moved directory be removed, and let the names stored below it when the
plan was made be texts. Then a file that is stored below it when it is removed has been carried
along, by an included operation of this move that is logged as succeeded, exactly if it was stored
when the plan was made, is reached from the source along names, and lies below no directory of the
move whose listing failed. -/
theorem removed_file_carried_iff {τ : Type} (gate : Gate τ)
    {readBlock : String → Option FrontMatter} {options : PlanOptions} {text : String}
    {store : MemoryStore} {t : τ} {s₀ s : MemoryStore × τ} {i : Nat} {p : PendingMove}
    (hwf : store.WellFormed)
    (hplan : runFrom (store, t) (Planner.plan (Backend.gated gate MemoryStore.backend) readBlock
      options text).run = (.ok plan, s₀))
    (hremoves : Removes (Backend.gated gate MemoryStore.backend) plan s₀ i p s) :
    ∃ (k : Nat) (move : Operation), plan.operations[k]? = some move ∧ move.kind = .move ∧
      move.source = some p.source ∧ plan.includedEnd? k = some i ∧
      (store.SpelledBelow p.source → ∀ (f : Path) (bytes : ByteArray),
        s.1.node? f = some (.file bytes) →
        f.startsWith p.source = true → ¬f ≈ p.source →
        ((∃ (j : Nat) (op : Operation), k < j ∧ j ≤ i ∧ plan.operations[j]? = some op ∧
            op.kind = .included ∧ (∃ source, op.source = some source ∧ source ≈ f) ∧
            (runFrom s₀ (executePlan (Backend.gated gate MemoryStore.backend) plan)).1.log[j]? =
              some (op.logged .succeeded)) ↔
          (store.node? f).isSome = true ∧ (∃ names, f ≈ p.source.under names) ∧
            ∀ (j : Nat) (op : Operation) (source : Path), k < j → j ≤ i →
              plan.operations[j]? = some op → op.warning ≠ none → op.source = some source →
              f.startsWith source = true → source ≈ f)) := by
  obtain ⟨k, move, hmove, hkind, hsource, hend, hsucceeded⟩ := hremoves.carried
  refine ⟨k, move, hmove, hkind, hsource, hend, fun hspelled f bytes hfile hstart hbelow ↦ ?_⟩
  have hserves := serves_gated gate MemoryStore.serves_backend
  obtain ⟨-, hcarried⟩ : s₀.1 = store ∧
      Planner.CarriedIn store plan.options.rules plan.operations :=
    Planner.carriedIn_plan hserves (s := (store, t)) hwf hplan
  obtain ⟨inside, hinside⟩ := hcarried k move hmove (by simp [hkind])
  -- the operations between the move and the removal are those that it carries along
  have hlength : inside ≠ [] ∧ k + inside.length = i := by
    rw [hinside.includedEnd?_eq hmove] at hend
    split at hend
    · cases hend
    · exact ⟨‹_›, Option.some.inj hend⟩
  obtain ⟨source, hsource', hfound⟩ := hinside.found hlength.1
  obtain rfl := Option.some.inj (hsource'.symm.trans hsource)
  obtain ⟨items, hitems, hwalk⟩ := hfound hspelled
  have hiff := hwalk.carries_iff hbelow
  rw [← hitems] at hiff
  have hmem := hinside.mem_iff
  rw [hlength.2] at hmem
  constructor
  · rintro ⟨j, op, hkj, hji, hop, -, hfrom, -⟩
    obtain ⟨hstored, hnames, huncut⟩ := hiff.mp ⟨op, (hmem op).mpr ⟨j, hkj, hji, hop⟩, hfrom⟩
    exact ⟨hstored, hnames, fun j op source hkj hji hop hwarned hsource ↦
      huncut op ((hmem op).mpr ⟨j, hkj, hji, hop⟩) hwarned source hsource⟩
  · rintro ⟨hstored, hnames, huncut⟩
    obtain ⟨op, hop, source, hsource, hf⟩ := hiff.mpr ⟨hstored, hnames,
      fun op hop hwarned source hsource hstart ↦ by
        obtain ⟨j, hkj, hji, hj⟩ := (hmem op).mp hop
        exact huncut j op source hkj hji hj hwarned hsource hstart⟩
    obtain ⟨j, hkj, hji, hj⟩ := (hmem op).mp hop
    refine ⟨j, op, hkj, hji, hj, (hinside.included op hop).1, ⟨source, hsource, hf⟩, ?_⟩
    exact hsucceeded j op hkj hji hj (by simp [hsource])

/-- A directory with a file in it, and a file beside it. -/
def draftStore : MemoryStore :=
  (MemoryStore.empty.withFile (.ofText "/r/src/a.txt") ⟨#[120]⟩).withFile (.ofText "/r/data.txt")
    ⟨#[121]⟩

/-- The plan that puts the file into the directory and then moves the directory. -/
def draftPlan : Except PlanError Plan × MemoryStore × List Fault :=
  runFrom (draftStore, []) (Planner.plan (Backend.gated Fault.gate MemoryStore.backend)
    (fun _ ↦ none) { root := .ofText "/r" } "src\n\t(data.txt) > new.txt\n(src) > dst").run

/-- The move of the directory. -/
def draftMove : PendingMove := ⟨3, .ofText "/r/src", true⟩

theorem removes_draft : ∃ plan s₀ s, draftPlan = (.ok plan, s₀) ∧
    Removes (Backend.gated Fault.gate MemoryStore.backend) plan s₀ 3 draftMove s ∧
    s.1.node? (.ofText "/r/src/a.txt") = some (.file ⟨#[120]⟩) ∧
    s.1.node? (.ofText "/r/src/new.txt") = some (.file ⟨#[121]⟩) ∧
    (∀ op ∈ plan.operations, op.warning = none) ∧
    ∀ op ∈ plan.operations, ∀ source ∈ op.source, ¬source ≈ .ofText "/r/src/new.txt" := by
  obtain ⟨plan, s₀, hplan, ⟨op, hop, hending, hstored⟩, hplanned⟩ :
      ∃ plan s₀, draftPlan = (.ok plan, s₀) ∧
        (∃ op ∈ plan.operations[3]?,
          let b := Backend.gated Fault.gate MemoryStore.backend
          let before := runFrom s₀ (runBefore b plan 3)
          let stepped := runFrom before.2 (step b plan 3 op before.1)
          (stepped.1.pending.partition (·.last == 3)).1 = [draftMove] ∧
            stepped.2.1.node? (.ofText "/r/src/a.txt") = some (.file ⟨#[120]⟩) ∧
            stepped.2.1.node? (.ofText "/r/src/new.txt") = some (.file ⟨#[121]⟩)) ∧
        (∀ op ∈ plan.operations, op.warning = none) ∧
        ∀ op ∈ plan.operations, ∀ source ∈ op.source, ¬source ≈ .ofText "/r/src/new.txt" :=
    exists_runFrom_eq_ok (by decide +kernel)
  exact ⟨plan, s₀, _, hplan, ⟨op, [], [], hop, hending, rfl, rfl⟩, hstored.1, hstored.2,
    hplanned⟩

theorem removed_file_carried_iff_draft : ∃ plan s₀ s, draftPlan = (.ok plan, s₀) ∧
    Removes (Backend.gated Fault.gate MemoryStore.backend) plan s₀ 3 draftMove s ∧
    ∃ (j : Nat) (op : Operation), plan.operations[j]? = some op ∧ op.kind = .included ∧
      (∃ source, op.source = some source ∧ source ≈ .ofText "/r/src/a.txt") ∧
      (runFrom s₀ (executePlan (Backend.gated Fault.gate MemoryStore.backend) plan)).1.log[j]? =
        some (op.logged .succeeded) := by
  obtain ⟨plan, s₀, s, hplan, hremoves, hfile, -, hclean, -⟩ := removes_draft
  obtain ⟨hwf, hspelled, hstart, hbelow, hstored⟩ : draftStore.WellFormed ∧
      draftStore.SpelledBelow draftMove.source ∧
      (Path.ofText "/r/src/a.txt").startsWith draftMove.source = true ∧
      ¬Path.ofText "/r/src/a.txt" ≈ draftMove.source ∧
      (draftStore.node? (.ofText "/r/src/a.txt")).isSome = true := by
    decide +kernel
  obtain ⟨k, move, -, -, -, -, hcarried⟩ :=
    removed_file_carried_iff Fault.gate hwf hplan hremoves
  have hnames : ∃ names, Path.ofText "/r/src/a.txt" ≈ draftMove.source.under names :=
    ⟨[.spelled "a.txt" (by decide)], by decide +kernel⟩
  obtain ⟨j, op, -, -, hop, hkind, hsource, hlog⟩ :=
    (hcarried hspelled (.ofText "/r/src/a.txt") _ hfile hstart hbelow).mpr
      ⟨hstored, hnames, fun _ op _ _ _ hop hwarned ↦
        absurd (hclean op (List.mem_of_getElem? hop)) hwarned⟩
  exact ⟨plan, s₀, s, hplan, hremoves, j, op, hop, hkind, hsource, hlog⟩

/-- A file that was put into the directory in front of the move is removed with it, though no
operation has carried it along. -/
theorem cleanup_loses_new_file : draftStore.WellFormed ∧
    ∃ plan s₀ s, draftPlan = (.ok plan, s₀) ∧
      Removes (Backend.gated Fault.gate MemoryStore.backend) plan s₀ 3 draftMove s ∧
      s.1.node? (.ofText "/r/src/new.txt") = some (.file ⟨#[121]⟩) ∧
      (Path.ofText "/r/src/new.txt").startsWith draftMove.source = true ∧
      ∀ op ∈ plan.operations, ∀ source ∈ op.source, ¬source ≈ .ofText "/r/src/new.txt" := by
  obtain ⟨plan, s₀, s, hplan, hremoves, -, hfile, -, hnone⟩ := removes_draft
  exact ⟨by decide +kernel, plan, s₀, s, hplan, hremoves, hfile, by decide +kernel, hnone⟩

end Scaffold.Execution
