import Scaffold.Proofs.Execution.Effects
import Scaffold.Proofs.Store.Closed
import Scaffold.Proofs.Transfer.Survival

/-!
# What a transfer leaves when it falls back

A transfer that fails leaves an empty entry at its target, and how far it had come by then decides
whether that is true. In a closed store, and the calls of a run keep it closed
(`closed_runBefore`), nothing is below a target at which nothing is. Whatever the transfer does
before its directory is copied as a whole puts nothing below it (`bareBelow_transferReason`); but a
copy that fails half way, or a move that has copied everything and cannot remove its source, leaves
behind what it has copied, and making an empty directory there does not clear it
(`leavesEmpty_makeEmpty_iff`).

So the entry is empty exactly if the directory was not being copied as a whole, or nothing had been
copied yet (`fallback_leaves_empty_iff`).
-/

namespace Scaffold

namespace MemoryStore

variable {s s' : MemoryStore} {p q : Path}

/-- What appears at or above the path is not below it. -/
theorem not_prefix_of_below (hstart : q.startsWith p = true) (hne : ¬q ≈ p) :
    ¬q.parts <+: p.parts := fun habove ↦
  hne (Path.equiv_iff.mpr (habove.eq_of_length
    (Nat.le_antisymm habove.length_le (Path.startsWith_iff.mp hstart).length_le)))

/-- What stays at or above the path puts nothing below it. -/
theorem Confined.preserves_bareBelow (h : Confined (· ≈ p) p s s') :
    Preserved (BareBelow p) s s' := by
  intro hbare
  rw [bareBelow_iff] at hbare ⊢
  intro q hstart hne
  rw [h.node?_eq hne (not_prefix_of_below hstart hne)]
  exact hbare q hstart hne

/-- Making directories at and above a path does not change what is below. -/
theorem Grows.bareBelow_iff (h : Grows p s s') : BareBelow p s' ↔ BareBelow p s := by
  rw [MemoryStore.bareBelow_iff, MemoryStore.bareBelow_iff]
  refine forall_congr' fun q ↦ imp_congr_right fun hstart ↦ imp_congr_right fun hne ↦ ?_
  have hconfined : Confined (fun _ ↦ False) p s s' := h.confined
  rw [hconfined.node?_eq id (not_prefix_of_below hstart hne)]

theorem preserves_bareBelow_erase : Preserved (BareBelow p) s (s.erase q) :=
  fun hbare e he ↦ hbare e (List.mem_filter.mp he).1

end MemoryStore

namespace Execution

open MemoryStore

variable {σ : Type} {b : Backend (StateM σ)} {view : σ → MemoryStore} {plan : Plan}
  {op : Operation} {source : Path}

/-! ### Runs keep stores closed -/

/-- What asks, creates and copies keeps a store closed. -/
theorem keeps_closed (hb : Serves b view) (op : Operation) :
    Keeps b view (Preserved Closed) op where
  exists_ p s := by
    rw [(hb.exists_ p s).1]
    exact refl _
  byCalls := hb.byCalls
  stat p := (hb.stat p).leads
  list p := (hb.list p).leads
  mkdir p _ := (hb.mkdir p true).leads fun _ _ hmkdir h ↦ h.mkdir hmkdir
  write p bytes _ := (hb.write p bytes).leads fun _ _ hwrite h ↦ h.write hwrite
  copyFile source p _ := (hb.copyFile source p).leads fun _ _ hcopy h ↦ h.copyFile hcopy

theorem leads_closed_rm (hb : Serves b view) (p : Path) :
    Leads view (Preserved Closed) (b.rm p true) :=
  (hb.rm p true).leads fun _ _ hrm h ↦ h.rm hrm

theorem leads_closed_unlink (hb : Serves b view) (p : Path) :
    Leads view (Preserved Closed) (b.unlink p) :=
  (hb.unlink p).leads fun _ _ hunlink h ↦ h.unlink hunlink

/-- **The store is closed at every position of a run** if it is at the beginning. -/
theorem closed_runBefore (hb : Serves b view) (plan : Plan) {s : σ} (h : (view s).Closed) {n : Nat}
    (hn : n ≤ plan.operations.length) : (view (runFrom s (runBefore b plan n)).2).Closed :=
  related_runBefore (R := Preserved Closed) s (fun op _ ↦ keeps_closed hb op)
    (fun _ _ _ ↦ ⟨fun source s' _ _ _ ↦ leads_closed_unlink hb source s',
      fun source s' _ _ _ ↦ leads_closed_rm hb source s'⟩)
    (fun _ p s' _ ↦ leads_closed_rm hb p.source s') hn h

/-! ### What a failed transfer has put below its target -/

section Attempts

variable {place : Path → Prop} {s : σ}

theorem leads_bareBelow {α : Type} {x : Attempt (StateM σ) α} {p : Path}
    (h : Leads view (Confined (· ≈ p) p) x) : Leads view (Preserved (BareBelow p)) x :=
  h.mono fun _ _ ↦ Confined.preserves_bareBelow

theorem leads_bareBelow_unlink (hb : Serves b view) (p q : Path) :
    Leads view (Preserved (BareBelow p)) (b.unlink q) := by
  refine (hb.unlink q).leads fun store store' hunlink ↦ ?_
  rw [(unlink_cases hunlink).2]
  exact preserves_bareBelow_erase

/-- **What a transfer does puts nothing below its target**, unless a directory is copied as a whole:
a file is copied to the target itself, and a directory that is to be filled later is only made. -/
theorem bareBelow_tryTransfer (hb : Serves b view) {last? : Option Nat}
    (hwhole : last? = none → (view s).kindOf? source ≠ some .directory) :
    Preserved (BareBelow op.target) (view s)
      (view (runFrom s (tryTransfer b last? op source).run).2) := by
  refine related_bind ((hb.stat source).leads s) fun found s₁ hstat ↦ ?_
  obtain ⟨hview, hkind⟩ := hb.stat_ok hstat
  split
  · refine Leads.bind (leads_bareBelow (hb.leads_ensureParent _)) (fun _ ↦
      .bind (leads_bareBelow (hb.leads_copyFile (fun _ ↦ id) source)) fun _ ↦ ?_) s₁
    dsimp only
    split
    · exact .bind (leads_bareBelow_unlink hb _ source) fun _ ↦ .pure _
    · exact .pure _
  · rename_i hdir
    dsimp only
    split
    · exact refl _
    · split
      · exact Leads.bind (leads_bareBelow (hb.leads_ensureDir _)) (fun _ ↦ .pure _) s₁
      -- a directory would be copied as a whole
      · exact absurd (hkind.trans (congrArg some hdir)) (hwhole rfl)

theorem bareBelow_transferReason (hb : Serves b view) {last? : Option Nat}
    (hwhole : last? = none → (view s).kindOf? source ≠ some .directory) :
    Preserved (BareBelow op.target) (view s)
      (view (runFrom s (transferReason b last? op source)).2) := by
  rcases hasked : runFrom s (b.exists_ source) with ⟨there, s₁⟩
  have hview : view s₁ = view s := hb.exists_ok hasked
  have htry : Preserved (BareBelow op.target) (view s₁)
      (view (runFrom s₁ (tryTransfer b last? op source).run).2) :=
    bareBelow_tryTransfer hb (by rwa [hview])
  rw [hview] at htry
  simp only [transferReason, runFrom_bind, hasked]
  split
  · simp only [runFrom_bind]
    split <;> exact htry
  · rw [runFrom_pure, hview]
    exact refl _

end Attempts

/-! ### The empty entry -/

/-- The target of the operation is empty: a directory with nothing below it, or a file without
bytes. -/
def LeavesEmpty (op : Operation) (s : MemoryStore) : Prop :=
  if op.isDirectory then s.kindOf? op.target = some .directory ∧ BareBelow op.target s
  else s.node? op.target = some (.file ByteArray.empty)

instance (op : Operation) (s : MemoryStore) : Decidable (LeavesEmpty op s) := by
  unfold LeavesEmpty
  infer_instance

/-- **Making an empty entry** makes an empty file, and a directory that is as empty as it was. -/
theorem leavesEmpty_makeEmpty_iff (hb : Serves b view) {s s' : σ} (hne : op.target.parts ≠ [])
    (hmade : runFrom s (makeEmpty b op).run = (.ok (), s')) :
    LeavesEmpty op (view s') ↔ (op.isDirectory = true → BareBelow op.target (view s)) := by
  unfold makeEmpty at hmade
  rcases hdir : op.isDirectory with - | -
  · rw [hdir] at hmade
    obtain ⟨⟨⟩, s₁, hparent, hwrite⟩ := run_bind_eq_ok_iff.mp hmade
    obtain ⟨-, -, hinsert⟩ := write_cases ((hb.write _ _ s₁ s').1 hwrite)
    simp [LeavesEmpty, hdir, hinsert, node?_insert]
  · rw [hdir] at hmade
    obtain ⟨hgrows, hthere⟩ := hb.ensureDir_ok hmade
    simp [LeavesEmpty, hdir, hthere (Path.isEmpty_eq_false hne), hgrows.bareBelow_iff]

/-- What has fallen back has made an empty entry. -/
theorem makeEmpty_of_fallBack {reason : String} {run : Run} {s : σ}
    (hlog : (runFrom s (fallBack b op reason run)).1.log = run.log.push (op.logged .fellBack)) :
    runFrom s (makeEmpty b op).run = (.ok (), (runFrom s (fallBack b op reason run)).2) := by
  simp only [fallBack, runFrom_bind] at hlog ⊢
  rcases hmade : runFrom s (makeEmpty b op).run with ⟨e | ⟨⟩, s'⟩
  · rw [hmade] at hlog
    cases outcome_of_push hlog
  · rfl

/-- **A transfer that has fallen back** was tried and failed, and then an empty entry was made. -/
theorem of_fellBack {i : Nat} {run : Run} {s : σ} (hkind : op.kind = .copy ∨ op.kind = .move)
    (hlog : (runFrom s (step b plan i op run)).1.log = run.log.push (op.logged .fellBack)) :
    ∃ source reason s₁, op.source = some source ∧
      runFrom s (transferReason b (plan.includedEnd? i) op source) = (.error reason, s₁) ∧
      runFrom s₁ (makeEmpty b op).run = (.ok (), (runFrom s (step b plan i op run)).2) := by
  have hown : run.skips i op = false := by
    rcases hkind with h | h <;> simp [Run.skips, h]
  rcases hsource : op.source with - | source
  · have hstep : step b plan i op run = create b op run := by
      rcases hkind with h | h <;> simp [step, hown, h, hsource]
    simp only [hstep, create, runFrom_bind] at hlog
    split at hlog <;> cases outcome_of_push hlog
  · have hstep : step b plan i op run = transfer b plan i op source run := by
      rcases hkind with h | h <;> simp [step, hown, h, hsource]
    rw [hstep] at hlog ⊢
    simp only [transfer, runFrom_bind] at hlog ⊢
    generalize plan.includedEnd? i = last? at hlog ⊢
    obtain ⟨⟨result, s₁⟩, hreason⟩ :
        ∃ tried, runFrom s (transferReason b last? op source) = tried :=
      ⟨_, rfl⟩
    rw [hreason] at hlog ⊢
    rcases result with reason | pending
    · refine ⟨source, reason, s₁, rfl, hreason, ?_⟩
      rcases last? with - | last
      · exact makeEmpty_of_fallBack hlog
      · exact makeEmpty_of_fallBack hlog
    · cases outcome_of_push hlog

/-- An operation that is logged at its position has been logged by its step. -/
theorem log_of_report {s₀ : σ} {i : Nat} {outcome : Outcome} (hop : plan.operations[i]? = some op)
    (hlog : (runFrom s₀ (executePlan b plan)).1.log[i]? = some (op.logged outcome)) :
    let before := runFrom s₀ (runBefore b plan i)
    (runFrom before.2 (step b plan i op before.1)).1.log =
      before.1.log.push (op.logged outcome) := by
  intro before
  have hi : i < plan.operations.length := (List.getElem?_eq_some_iff.mp hop).1
  have hsize := (reached_runBefore b plan s₀ (Nat.le_of_lt hi)).size
  obtain ⟨outcome', hpush⟩ := (step_cases b plan i op before.1 before.2).log_eq
  rw [report_log_eq b plan s₀ hop, hpush, Array.getElem?_push, if_pos hsize.symm] at hlog
  rw [hpush, Option.some.inj hlog]

/-- No move ends with an operation that is not an included one. -/
theorem runBefore_succ_of_own {s₀ : σ} {i : Nat} (hop : plan.operations[i]? = some op)
    (hown : op.kind ≠ .included) :
    let before := runFrom s₀ (runBefore b plan i)
    (runFrom s₀ (runBefore b plan (i + 1))).2 =
      (runFrom before.2 (step b plan i op before.1)).2 := by
  intro before
  have hi : i < plan.operations.length := (List.getElem?_eq_some_iff.mp hop).1
  have hdone := (reached_runBefore b plan s₀ (Nat.le_of_lt hi)).step hop
    (step_cases b plan i op before.1 before.2)
  rw [runBefore_succ b plan hop, runFrom_bind]
  simp only [advance, runFrom_bind]
  rw [settleMoves_of_ahead i]
  intro p hp
  obtain ⟨k, move, hsince⟩ := hdone.pending p hp
  obtain ⟨hk, hincluded⟩ := includedEnd?_spec hsince.last_eq
  intro hlast
  exact hown (hincluded i op (hlast ▸ hk) (Nat.le_of_eq hlast.symm) hop)

/-- **What a transfer leaves when it falls back.** Let a plan be made for any text in a store that
is a tree, and let any schedule of failures stand in front of the calls, while planning and while
running. When a copy or a move is logged as fallen back and nothing was at its target in front of
its step, then behind the step there is an empty file at the target or, if the operation is for a
directory, a directory. This one is empty exactly if its contents were planned as operations of
their own, or no directory was at the source, or the attempt to transfer the directory as a whole
has put nothing below the target. -/
theorem fallback_leaves_empty_iff {τ : Type} (gate : Gate τ)
    {readBlock : String → Option FrontMatter} {options : PlanOptions} {text : String}
    {store : MemoryStore} {t : τ} {s₀ : MemoryStore × τ} {i : Nat} (hwf : store.WellFormed)
    (hplan : runFrom (store, t) (Planner.plan (Backend.gated gate MemoryStore.backend) readBlock
      options text).run = (.ok plan, s₀))
    (hop : plan.operations[i]? = some op) (hkind : op.kind = .copy ∨ op.kind = .move)
    (hlog : (runFrom s₀ (executePlan (Backend.gated gate MemoryStore.backend) plan)).1.log[i]? =
      some (op.logged .fellBack))
    (hne : op.target.parts ≠ []) :
    let b := Backend.gated gate MemoryStore.backend
    let before := (runFrom s₀ (runBefore b plan i)).2
    let behind := (runFrom s₀ (runBefore b plan (i + 1))).2
    before.1.kindOf? op.target = none →
      ∃ source, op.source = some source ∧
        (LeavesEmpty op behind.1 ↔ (op.isDirectory = true → plan.includedEnd? i = none →
          before.1.kindOf? source = some .directory →
            BareBelow op.target
              (runFrom before (transferReason b (plan.includedEnd? i) op source)).2.1)) := by
  intro b before behind hfree
  have hb : Serves b (id ∘ Prod.fst) := serves_gated gate serves_backend
  obtain ⟨hstore, -⟩ : s₀.1 = store ∧ Planner.CarriedIn store plan.options.rules plan.operations :=
    Planner.carriedIn_plan hb (s := (store, t)) hwf hplan
  have hi : i < plan.operations.length := (List.getElem?_eq_some_iff.mp hop).1
  have hstart : s₀.1.Closed := by
    rw [hstore]
    exact (wellFormed_iff_closed.mp hwf).1
  have hclosed : before.1.Closed := closed_runBefore hb plan hstart (Nat.le_of_lt hi)
  obtain ⟨source, reason, tried, hsource, hreason, hmade⟩ :=
    of_fellBack hkind (log_of_report hop hlog)
  have hown : op.kind ≠ .included := by
    rcases hkind with h | h <;> simp [h]
  have hbehind : runFrom tried (makeEmpty b op).run = (.ok (), behind) := by
    rw [hmade, ← runBefore_succ_of_own hop hown]
  have htried : (runFrom before (transferReason b (plan.includedEnd? i) op source)).2 = tried :=
    congrArg Prod.snd hreason
  refine ⟨source, hsource, ?_⟩
  rw [htried]
  refine (leavesEmpty_makeEmpty_iff hb hne hbehind).trans (imp_congr_right fun _ ↦ ?_)
  refine ⟨fun hbare _ _ ↦ hbare, fun hbare ↦ ?_⟩
  by_cases hwhole : plan.includedEnd? i = none ∧ before.1.kindOf? source = some .directory
  · exact hbare hwhole.1 hwhole.2
  · have hkept : Preserved (BareBelow op.target) before.1
        (runFrom before (transferReason b (plan.includedEnd? i) op source)).2.1 :=
      bareBelow_transferReason hb fun hnone hdir ↦ hwhole ⟨hnone, hdir⟩
    rw [htried] at hkept
    exact hkept (hclosed.bareBelow hfree hne)

/-- The plan that copies a directory with two files as a whole. -/
def draftsCopyPlan (faults : List Fault) : Except PlanError Plan × MemoryStore × List Fault :=
  runFrom (twoDrafts, faults) (Planner.plan (Backend.gated Fault.gate MemoryStore.backend)
    (fun _ ↦ none) { root := .ofText "/r", recursive := false } "[src] > dst").run

/-- The operation of that plan. -/
def draftsCopy : Operation :=
  ⟨.copy, .ofText "/r/dst", some (.ofText "/r/src"), true, 0, "dst", none, none⟩

/-- The directory cannot be listed. -/
def unlisted : List Fault := [⟨.list, .ofText "/r/src", .permissionDenied, 0, none⟩]

/-- The second file cannot be copied. -/
def uncopied : List Fault := [⟨.copyFile, .ofText "/r/src/b.txt", .permissionDenied, 0, none⟩]

/-- Where the directory cannot be listed nothing has been copied, and its place is empty. -/
theorem fallback_leaves_empty_iff_unlisted : ∃ plan s₀, draftsCopyPlan unlisted = (.ok plan, s₀) ∧
    let b := Backend.gated Fault.gate MemoryStore.backend
    (runFrom s₀ (executePlan b plan)).1.log[0]? = some (draftsCopy.logged .fellBack) ∧
      LeavesEmpty draftsCopy (runFrom s₀ (runBefore b plan 1)).2.1 := by
  obtain ⟨plan, s₀, hplan, hop, hlog, hfree, hbare⟩ :
      ∃ plan s₀, draftsCopyPlan unlisted = (.ok plan, s₀) ∧
        let b := Backend.gated Fault.gate MemoryStore.backend
        let before := runFrom s₀ (runBefore b plan 0)
        plan.operations[0]? = some draftsCopy ∧
          (runFrom s₀ (executePlan b plan)).1.log[0]? = some (draftsCopy.logged .fellBack) ∧
          before.2.1.kindOf? draftsCopy.target = none ∧
          BareBelow draftsCopy.target (runFrom before.2
            (transferReason b (plan.includedEnd? 0) draftsCopy (.ofText "/r/src"))).2.1 :=
    exists_runFrom_eq_ok (by decide +kernel)
  obtain ⟨source, hsource, hiff⟩ := fallback_leaves_empty_iff Fault.gate wellFormed_twoDrafts hplan
    hop (.inl rfl) hlog (by decide) hfree
  obtain rfl := Option.some.inj hsource
  exact ⟨plan, s₀, hplan, hlog, hiff.mpr fun _ _ _ ↦ hbare⟩

/-- Where the second file cannot be copied the first one is in the directory that should be
empty. -/
theorem fallback_keeps_copied_file : twoDrafts.WellFormed ∧
    ∃ plan s₀, draftsCopyPlan uncopied = (.ok plan, s₀) ∧
      plan.operations[0]? = some draftsCopy ∧
      let b := Backend.gated Fault.gate MemoryStore.backend
      (runFrom s₀ (executePlan b plan)).1.log[0]? = some (draftsCopy.logged .fellBack) ∧
        (runFrom s₀ (runBefore b plan 0)).2.1.kindOf? draftsCopy.target = none ∧
        (runFrom s₀ (runBefore b plan 1)).2.1.node? (.ofText "/r/dst/a.txt") =
          some (.file ⟨#[97]⟩) ∧
        ¬LeavesEmpty draftsCopy (runFrom s₀ (runBefore b plan 1)).2.1 := by
  exact ⟨wellFormed_twoDrafts, exists_runFrom_eq_ok (by decide +kernel)⟩

end Execution

end Scaffold
