import Mathlib.Data.List.Forall2
import Scaffold.Proofs.Execution.Run

/-!
# What a report accounts for

A run leaves one entry in the log for each operation, and every warning behind those of the plan has
an origin (`Origin`): an operation that fell back or failed, which is warned of under its target, or
a moved directory that is still there, which is warned of under its source.

An operation adds its entry, and a warning exactly if it met with a setback (`Steps.warnings_eq`).
Completing moves adds no entry and at most one warning, because no two moves are pending at a time
(`settleMoves_warnings`). `Accounted` says what this comes to at a position of the run. That no move
is warned of twice follows from where it ends: a move that has been warned of ends in front of the
position, and one that is pending does not.
-/

namespace Scaffold

/-- An operation that ended so is warned of. -/
def Outcome.isSetback : Outcome → Bool
  | fellBack | failed => true
  | succeeded | skipped => false

namespace Execution

variable {σ : Type} {b : Backend (StateM σ)} {plan : Plan}

/-! ### Where warnings come from -/

/-- What a warning of a run is about. -/
inductive Origin where
  /-- An operation fell back or failed. -/
  | setback
  /-- The source of the move at a position was not removed. -/
  | kept (index : Nat)
deriving DecidableEq

/-- The position of a move whose source was not removed. -/
def Origin.move? : Origin → Option Nat
  | setback => none
  | kept index => some index

/-- The warnings that a plan comes with. -/
def planWarnings (plan : Plan) : List Warning :=
  plan.warnings.map fun found ↦ ⟨found.1.target, found.2⟩

/-- In the state `s` there is a directory at the path, as far as the backend answers. -/
def FindsDirectory (b : Backend (StateM σ)) (s : σ) (p : Path) : Prop :=
  ∃ s₁ found s₂, runFrom s (b.exists_ p) = (true, s₁) ∧
    runFrom s₁ (b.stat p).run = (.ok found, s₂) ∧ found.kind = .directory

/-- In the run from `s₀` the operation at position `i` moves the directory `p`. -/
def MovesDirectory (b : Backend (StateM σ)) (plan : Plan) (s₀ : σ) (i : Nat) (p : Path) : Prop :=
  ∃ op, plan.operations[i]? = some op ∧ op.kind = .move ∧ op.source = some p ∧
    FindsDirectory b (runFrom s₀ (runBefore b plan i)).2 p

/-! ### What a step adds -/

/-- **An operation adds its entry to the log**, and a warning under its target exactly if it met
with a setback. -/
theorem Steps.warnings_eq {i : Nat} {op : Operation} {run run' : Run} {s s' : σ}
    (h : Steps b plan i op run s run' s') :
    ∃ outcome, run'.log = run.log.push (op.logged outcome) ∧
      (outcome = .skipped → run.skipThrough ≠ none) ∧
      (run'.skipThrough = run.skipThrough ∨ outcome.isSetback = true) ∧
      if outcome.isSetback = true then
        ∃ message, run'.warnings = run.warnings.push ⟨op.target, message⟩
      else run'.warnings = run.warnings := by
  have hsucceeded : Outcome.succeeded = .skipped → run.skipThrough ≠ none := by simp
  cases h with
  | skips hskips =>
    refine ⟨.skipped, rfl, fun _ hnone ↦ ?_, .inl rfl, rfl⟩
    simp [Run.skips, hnone] at hskips
  | creates => exact ⟨.succeeded, rfl, hsucceeded, .inl rfl, rfl⟩
  | transfers => exact ⟨.succeeded, rfl, hsucceeded, .inl rfl, rfl⟩
  | includes => exact ⟨.succeeded, rfl, hsucceeded, .inl rfl, rfl⟩
  | falls hmarked houtcome =>
    rename_i marked message outcome
    have hsetback : outcome.isSetback = true := by
      rcases houtcome with rfl | rfl <;> rfl
    have hlog : marked.log = run.log ∧ marked.warnings = run.warnings := by
      cases hmarked <;> exact ⟨rfl, rfl⟩
    refine ⟨outcome, ?_, fun hskipped ↦ ?_, .inr hsetback, ?_⟩
    · simp [Run.record, Run.warn, hlog]
    · rw [hskipped] at hsetback
      cases hsetback
    · rw [if_pos hsetback]
      exact ⟨message, by simp [Run.record, Run.warn, hlog]⟩

/-- A move becomes pending only where its source is found to be a directory, and what is intact has
been so before. -/
theorem Steps.pending_cases {i : Nat} {op : Operation} {run run' : Run} {s s' : σ}
    (h : Steps b plan i op run s run' s') {p : PendingMove} (hp : p ∈ run'.pending) :
    (∃ p' ∈ run.pending, p'.source = p.source ∧ p'.last = p.last ∧
        (p.intact = true → p'.intact = true)) ∨
      op.kind = .move ∧ op.source = some p.source ∧ plan.includedEnd? i = some p.last ∧
        FindsDirectory b s p.source := by
  cases h with
  | skips => exact .inl ⟨p, hp, rfl, rfl, id⟩
  | creates => exact .inl ⟨p, hp, rfl, rfl, id⟩
  | includes => exact .inl ⟨p, hp, rfl, rfl, id⟩
  | transfers hkind hsource hexists hok =>
    rcases List.mem_append.mp hp with hp | hp
    · exact .inl ⟨p, hp, rfl, rfl, id⟩
    have hopened := tryTransfer_cases hok
    obtain ⟨hmove, hfrom, hlast⟩ := hopened.pending (by simpa using hp)
    refine .inr ⟨hmove, by rw [hsource, hfrom], hlast, ?_⟩
    cases hopened with
    | file => cases hp
    | whole => cases hp
    | opens hstat hdir =>
      rw [hfrom]
      exact ⟨_, _, _, hexists, hstat, hdir⟩
  | falls hmarked =>
    refine .inl ?_
    cases hmarked with
    | alone => exact ⟨p, hp, rfl, rfl, id⟩
    | abandons => exact ⟨p, hp, rfl, rfl, id⟩
    | spoils =>
      obtain ⟨p', hp', rfl⟩ := List.mem_map.mp hp
      exact ⟨p', hp', by split <;> rfl, by split <;> rfl, by split <;> simp⟩

/-- **Completing moves** adds at most one warning, if no two are pending. -/
theorem settleMoves_warnings (b : Backend (StateM σ)) (i : Nat) {run : Run}
    (hsingle : run.pending.length ≤ 1) (s : σ) :
    (runFrom s (settleMoves b i run)).1.warnings = run.warnings ∨
      ∃ p ∈ run.pending, p.last = i ∧ ∃ message,
        (runFrom s (settleMoves b i run)).1.warnings = run.warnings.push ⟨p.source, message⟩ := by
  by_cases hahead : ∀ p ∈ run.pending, p.last ≠ i
  · rw [settleMoves_of_ahead i hahead]
    exact .inl rfl
  simp only [not_forall, not_not] at hahead
  obtain ⟨p, hp, hlast⟩ := hahead
  obtain hpending : run.pending = [p] := by
    obtain ⟨q, hq⟩ := List.length_eq_one_iff.mp (hsingle.antisymm (List.length_pos_of_mem hp))
    rw [hq, List.mem_singleton] at hp
    rw [hq, hp]
  rw [settleMoves_of_single hpending hlast]
  simp only [settle]
  split
  · simp only [runFrom_bind]
    split
    · exact .inl rfl
    · exact .inr ⟨p, hp, hlast, _, rfl⟩
  · exact .inr ⟨p, hp, hlast, _, rfl⟩

/-! ### The account of a run -/

/-- The log and the warnings `found`, which have their origins with them, account for the operations
in front of position `n` and for the moves that end in front of position `m`. -/
structure Accounts (b : Backend (StateM σ)) (plan : Plan) (s₀ : σ) (n m : Nat)
    (log : List LogEntry) (found : List (Origin × Warning)) : Prop where
  /-- There is one entry for each operation. -/
  each : List.Forall₂ (fun op entry ↦ ∃ outcome, entry = op.logged outcome)
    (plan.operations.take n) log
  /-- Setbacks are warned of one by one, under the targets of their entries. -/
  setbacks : (found.filter (·.1.move?.isNone)).map (fun x ↦ x.2.path) =
    (log.filter (·.outcome.isSetback)).map LogEntry.path
  once : (found.filterMap (·.1.move?)).Nodup
  kept : ∀ i w, (.kept i, w) ∈ found → MovesDirectory b plan s₀ i w.path ∧
    ∃ last, plan.includedEnd? i = some last ∧ last < m
  /-- Nothing is skipped without a warning. -/
  skipped : found = [] → ∀ entry ∈ log, entry.outcome ≠ .skipped

/-- A run has come to this account. -/
structure Accounted (b : Backend (StateM σ)) (plan : Plan) (s₀ : σ) (n m : Nat) (run : Run)
    (found : List (Origin × Warning)) : Prop
    extends Accounts b plan s₀ n m run.log.toList found where
  warnings_eq : run.warnings.toList = planWarnings plan ++ found.map Prod.snd
  pending : ∀ p ∈ run.pending, ∃ i, MovesDirectory b plan s₀ i p.source ∧
    plan.includedEnd? i = some p.last
  skipping : found = [] → run.skipThrough = none

/-- **An operation is accounted for.** -/
theorem Accounted.step {s₀ : σ} {n : Nat} {op : Operation} {run run' : Run} {s' : σ}
    {found : List (Origin × Warning)} (h : Accounted b plan s₀ n n run found)
    (hop : plan.operations[n]? = some op)
    (hstep : Steps b plan n op run (runFrom s₀ (runBefore b plan n)).2 run' s') :
    ∃ found', Accounted b plan s₀ (n + 1) n run' found' := by
  obtain ⟨outcome, hlog, hskipped, hskip, hwarnings⟩ := hstep.warnings_eq
  have heach : List.Forall₂ (fun op entry ↦ ∃ outcome, entry = op.logged outcome)
      (plan.operations.take (n + 1)) run'.log.toList := by
    rw [List.take_add_one, hop, hlog, Array.toList_push]
    exact List.rel_append h.each (.cons ⟨outcome, rfl⟩ .nil)
  have hpending : ∀ p ∈ run'.pending, ∃ i, MovesDirectory b plan s₀ i p.source ∧
      plan.includedEnd? i = some p.last := by
    intro p hp
    rcases hstep.pending_cases hp with
      ⟨p', hp', hsource, hlast, -⟩ | ⟨hmove, hsource, hlast, hfinds⟩
    · rw [← hsource, ← hlast]
      exact h.pending p' hp'
    · exact ⟨n, ⟨op, hop, hmove, hsource, hfinds⟩, hlast⟩
  split at hwarnings
  · rename_i hsetback
    obtain ⟨message, hwarnings⟩ := hwarnings
    refine ⟨found ++ [(.setback, ⟨op.target, message⟩)],
      ⟨heach, ?_, ?_, fun i w hw ↦ h.kept i w (by simpa using hw), by simp⟩, ?_, hpending, by simp⟩
    · have hentry : (op.logged outcome).outcome.isSetback = true := hsetback
      simp only [hlog, Array.toList_push, List.filter_append, List.map_append, h.setbacks,
        List.filter_singleton, hentry]
      rfl
    · simpa [List.filterMap_append, Origin.move?] using h.once
    · rw [hwarnings, Array.toList_push, h.warnings_eq]
      simp
  · rename_i hsetback
    refine ⟨found, ⟨heach, ?_, h.once, h.kept, fun hnil entry hentry ↦ ?_⟩,
      by rw [hwarnings, h.warnings_eq], hpending, fun hnil ↦ ?_⟩
    · have hentry : ¬(op.logged outcome).outcome.isSetback = true := hsetback
      simp [hlog, List.filter_append, h.setbacks, hentry]
    · rw [hlog, Array.toList_push, List.mem_append, List.mem_singleton] at hentry
      rcases hentry with hentry | rfl
      · exact h.skipped hnil entry hentry
      · exact fun heq ↦ hskipped heq (h.skipping hnil)
    · exact (hskip.resolve_right hsetback).trans (h.skipping hnil)

/-- **Completing moves is accounted for.** -/
theorem Accounted.settle {s₀ : σ} {n : Nat} {run : Run} {found : List (Origin × Warning)}
    (h : Accounted b plan s₀ (n + 1) n run found) (hdone : Done plan (n + 1) run) (s : σ) :
    ∃ found', Accounted b plan s₀ (n + 1) (n + 1) (runFrom s (settleMoves b n run)).1 found' := by
  obtain ⟨added, hsettled⟩ := settleMoves_eq b n run s
  have hwarnings := settleMoves_warnings b n hdone.single s
  set run' := (runFrom s (settleMoves b n run)).1
  have hlog : run'.log = run.log := by rw [hsettled]
  have hskip : run'.skipThrough = run.skipThrough := by rw [hsettled]
  have hpending : ∀ p ∈ run'.pending, ∃ i, MovesDirectory b plan s₀ i p.source ∧
      plan.includedEnd? i = some p.last := by
    intro p hp
    rw [hsettled] at hp
    exact h.pending p (List.mem_filter.mp hp).1
  have hkept : ∀ i w, (.kept i, w) ∈ found → MovesDirectory b plan s₀ i w.path ∧
      ∃ last, plan.includedEnd? i = some last ∧ last < n + 1 := by
    intro i w hw
    obtain ⟨hmoves, last, hlast, hlt⟩ := h.kept i w hw
    exact ⟨hmoves, last, hlast, Nat.lt_succ_of_lt hlt⟩
  rcases hwarnings with hwarnings | ⟨p, hp, hlast, message, hwarnings⟩
  · refine ⟨found, ⟨hlog ▸ h.each, hlog ▸ h.setbacks, h.once, hkept, hlog ▸ h.skipped⟩, ?_,
      hpending, hskip ▸ h.skipping⟩
    rw [hwarnings, h.warnings_eq]
  obtain ⟨i, hmoves, hend⟩ := h.pending p hp
  rw [hlast] at hend
  refine ⟨found ++ [(.kept i, ⟨p.source, message⟩)],
    ⟨hlog ▸ h.each, ?_, ?_, fun j w hw ↦ ?_, by simp⟩, ?_, hpending, by simp⟩
  · simpa [hlog, List.filter_append, Origin.move?] using h.setbacks
  -- a move that was warned of before has ended before
  · rw [List.filterMap_append, List.nodup_append]
    refine ⟨h.once, by simp [Origin.move?], fun j hj j' hj' ↦ ?_⟩
    obtain rfl : j' = i := by simpa [Origin.move?] using hj'
    rintro rfl
    obtain ⟨⟨origin, w⟩, hw, horigin⟩ := List.mem_filterMap.mp hj
    obtain rfl : origin = .kept j := by
      cases origin with
      | setback => cases horigin
      | kept j' => exact congrArg Origin.kept (Option.some.inj horigin)
    obtain ⟨-, last, hlast', hlt⟩ := h.kept j w hw
    obtain rfl := Option.some.inj (hlast'.symm.trans hend)
    exact absurd hlt (Nat.lt_irrefl last)
  · rcases List.mem_append.mp hw with hw | hw
    · exact hkept j w hw
    · obtain ⟨rfl, rfl⟩ : j = i ∧ w = ⟨p.source, message⟩ := by simpa using hw
      exact ⟨hmoves, n, hend, Nat.lt_succ_self n⟩
  · rw [hwarnings, Array.toList_push, h.warnings_eq]
    simp

/-- **A run is accounted for at every position.** -/
theorem accounted_runBefore (b : Backend (StateM σ)) (plan : Plan) (s₀ : σ) {n : Nat}
    (hn : n ≤ plan.operations.length) :
    ∃ found, Accounted b plan s₀ n n (runFrom s₀ (runBefore b plan n)).1 found := by
  induction n with
  | zero =>
    rw [runBefore_zero, runFrom_pure, start_eq]
    exact ⟨[], ⟨by simp, rfl, .nil, nofun, by simp⟩, by simp [planWarnings], nofun, fun _ ↦ rfl⟩
  | succ n ih =>
    obtain ⟨found, hfound⟩ := ih (Nat.le_of_succ_le hn)
    obtain ⟨op, hop⟩ : ∃ op, plan.operations[n]? = some op :=
      ⟨_, List.getElem?_eq_getElem (Nat.lt_of_succ_le hn)⟩
    have hreached := reached_runBefore b plan s₀ (Nat.le_of_succ_le hn)
    rw [runBefore_succ b plan hop, runFrom_bind]
    set before := runFrom s₀ (runBefore b plan n)
    have hstep := step_cases b plan n op before.1 before.2
    obtain ⟨found', hfound'⟩ := hfound.step hop hstep
    simp only [advance, runFrom_bind]
    exact hfound'.settle (hreached.step hop hstep) _

/-- **A run in which every call answers accounts for itself.** The log has one entry for each
operation, and the warnings are those of the plan and behind them those of the execution, each of
which has an origin. A report without warnings has nothing but successes. -/
theorem accounted_report (b : Backend (StateM σ)) (plan : Plan) (s₀ : σ) :
    let report := (runFrom s₀ (executePlan b plan)).1
    List.Forall₂ (fun op entry ↦ entry.kind = op.kind ∧ entry.path = op.target ∧
      entry.source = op.source ∧ entry.isDirectory = op.isDirectory) plan.operations report.log ∧
    (∃ found : List (Origin × Warning),
      report.warnings =
        plan.warnings.map (fun w ↦ ⟨w.1.target, w.2⟩) ++ found.map Prod.snd ∧
      (found.filter (·.1.move?.isNone)).map (fun x ↦ x.2.path) =
        (report.log.filter (·.outcome.isSetback)).map LogEntry.path ∧
      (found.filterMap (·.1.move?)).Nodup ∧
      ∀ i w, (.kept i, w) ∈ found → MovesDirectory b plan s₀ i w.path) ∧
    (report.hadWarnings = true ↔ report.warnings ≠ []) ∧
    (report.warnings = [] → ∀ entry ∈ report.log, entry.outcome = .succeeded) := by
  intro report
  obtain ⟨found, h⟩ := accounted_runBefore b plan s₀ le_rfl
  have hreport : report =
      (runFrom s₀ (runBefore b plan plan.operations.length)).1.report plan := by
    rw [show report = (runFrom s₀ (executePlan b plan)).1 from rfl, executePlan_eq, runFrom_bind,
      runFrom_pure]
  set run := (runFrom s₀ (runBefore b plan plan.operations.length)).1
  have hlog : report.log = run.log.toList := by rw [hreport]; rfl
  have hwarnings : report.warnings = planWarnings plan ++ found.map Prod.snd := by
    rw [hreport]
    exact h.warnings_eq
  rw [hlog]
  refine ⟨?_, ⟨found, hwarnings, h.setbacks, h.once, fun i w hw ↦ (h.kept i w hw).1⟩, ?_,
    fun hquiet entry hentry ↦ ?_⟩
  · have heach := h.each
    rw [List.take_length] at heach
    refine heach.imp fun op entry ⟨outcome, hentry⟩ ↦ ?_
    rw [hentry]
    exact ⟨rfl, rfl, rfl, rfl⟩
  · simp [Report.hadWarnings]
  · rw [hwarnings] at hquiet
    obtain rfl : found = [] := by simpa using (List.append_eq_nil_iff.mp hquiet).2
    have hnone : ∀ entry ∈ run.log.toList, ¬entry.outcome.isSetback = true := by
      simpa using h.setbacks.symm
    have hsetback := hnone entry hentry
    have hskipped := h.skipped rfl entry hentry
    cases houtcome : entry.outcome with
    | succeeded => rfl
    | fellBack => simp [houtcome, Outcome.isSetback] at hsetback
    | failed => simp [houtcome, Outcome.isSetback] at hsetback
    | skipped => exact absurd houtcome hskipped

end Execution

end Scaffold
