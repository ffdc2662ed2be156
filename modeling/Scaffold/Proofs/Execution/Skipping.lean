import Scaffold.Proofs.Execution.Account
import Scaffold.Proofs.Execution.Fallback
import Scaffold.Proofs.Execution.Trace
import Scaffold.Proofs.Plan.Listing

/-!
# What is skipped

A run keeps one number for what it skips: included operations up to that position. It is set when a
transfer meets with a setback, to the end of the included operations behind it, and what is included
is told from what is not by depths. In a plan the two agree: behind each operation for a line stand
the included ones that it bears, all of them deeper, up to the next operation for a line
(`blocks_plan`), so the number reaches over exactly these (`includedEnd?_of_nearestOwn`).

`Skipping` says what the number means at a position of a run: it reaches that far only if the
nearest operation for a line has met with a setback, and if that has, it reaches to the end of what
the operation bears. Hence an operation is skipped exactly if it is included and the nearest
operation for a line has met with a setback, and no call is made then (`skipped_iff_setback`).
Nothing is asked of the backend, in planning or in the run.
-/

namespace Scaffold

theorem Outcome.isSetback_iff {outcome : Outcome} :
    outcome.isSetback = true ↔ outcome = .fellBack ∨ outcome = .failed := by
  cases outcome <;> simp [isSetback]

namespace Planner

variable {σ : Type} {b : Backend (StateM σ)}

/-! ### What operations bear -/

/-- The operations `inside` may stand behind the operation `op` for a line, as what is found in its
source. -/
structure Bears (op : Operation) (inside : List Operation) : Prop where
  included : ∀ o ∈ inside, o.kind = .included
  deeper : ∀ o ∈ inside, op.depth < o.depth
  transfers : inside ≠ [] → op.kind = .copy ∨ op.kind = .move
  source : inside ≠ [] → ∃ source, op.source = some source

theorem bears_nil (op : Operation) : Bears op [] :=
  ⟨List.forall_mem_nil _, List.forall_mem_nil _, absurd rfl, absurd rfl⟩

/-- Only a transfer has a source. -/
theorem lineOperation_transfers {options : PlanOptions} {openDirs : List OpenDir} {kind : LineKind}
    {source : Path} (h : (lineOperation options openDirs kind).source = some source) :
    (lineOperation options openDirs kind).kind = .copy ∨
      (lineOperation options openDirs kind).kind = .move := by
  cases kind with
  | create => cases h
  | copy => exact .inl rfl
  | move => exact .inr rfl

/-- **A line adds one block.** -/
theorem blocks_planLine (options : PlanOptions) {progress : Progress} (line : Line) (s : σ)
    (h : Blocks Bears progress.operations.toList) :
    Blocks Bears (runFrom s (planLine b options progress line)).1.operations.toList := by
  set op := lineOperation options (progress.openDirs.take line.depth) line.kind with hop
  have hown : op.kind ≠ .included := lineOperation_kind_ne options _ line.kind
  simp only [planLine, ← hop]
  split
  · have hsnoc := h.snoc { op with warning := none } hown (by simp) (bears_nil _)
    simpa using hsnoc
  · rename_i source hsource
    simp only [runFrom_bind, runFrom_pure]
    set found := runFrom s (inspectSource b options progress.operations.size op source)
    have hwalk : WalkSound options.root
        (progress.operations.toList ++ [{ op with warning := none }]) (op.depth + 1) found.1.2 :=
      walkSound_inspectSource options source none s Array.length_toList
    have hbears : Bears { op with warning := found.1.1 } found.1.2 :=
      ⟨hwalk.included, hwalk.deep, fun _ ↦ lineOperation_transfers hsource, fun _ ↦ ⟨_, hsource⟩⟩
    have hsnoc := h.snoc { op with warning := found.1.1 } hown hwalk.included hbears
    simpa using hsnoc

/-- **A plan is made of blocks**, whatever the backend answers while it is made. -/
theorem blocks_plan {readBlock : String → Option FrontMatter} {options : PlanOptions}
    {text : String} {s s' : σ} {result : Plan}
    (h : runFrom s (plan b readBlock options text).run = (.ok result, s')) :
    Blocks Bears result.operations := by
  obtain ⟨lines, progress, -, hresult, hprogress⟩ := plan_cases h
  rw [hresult]
  exact planLines_induction (fun _ progress _ ↦ Blocks Bears progress.operations.toList)
    (fun _ _ _ _ h ↦ h) (fun _ line _ s h ↦ blocks_planLine result.options line s h)
    (fun _ _ h ↦ by simp at h) hprogress

end Planner

namespace Execution

open Planner

variable {σ : Type} {b : Backend (StateM σ)} {plan : Plan} {n j : Nat} {op carrier : Operation}

/-! ### The nearest operation for a line -/

/-- Of the operations in front of position `n` that are not included, the one at position `j` is the
nearest. -/
structure NearestOwn (plan : Plan) (n j : Nat) (op : Operation) : Prop where
  found : plan.operations[j]? = some op
  own : op.kind ≠ .included
  before : j < n
  between : ∀ k o, j < k → k < n → plan.operations[k]? = some o → o.kind = .included

/-- An included operation leaves it as it is. -/
theorem nearestOwn_succ_of_included (hop : plan.operations[n]? = some op)
    (hkind : op.kind = .included) :
    NearestOwn plan (n + 1) j carrier ↔ NearestOwn plan n j carrier := by
  constructor
  · intro h
    have hne : j ≠ n := by
      rintro rfl
      exact h.own (Option.some.inj (h.found.symm.trans hop) ▸ hkind)
    refine ⟨h.found, h.own, ?_, fun k o hj hk ↦ h.between k o hj (Nat.lt_succ_of_lt hk)⟩
    have := h.before
    omega
  · intro h
    refine ⟨h.found, h.own, Nat.lt_succ_of_lt h.before, fun k o hj hk ho ↦ ?_⟩
    obtain hlt | rfl := Nat.lt_succ_iff_lt_or_eq.mp hk
    · exact h.between k o hj hlt ho
    · exact Option.some.inj (hop.symm.trans ho) ▸ hkind

/-- Any other operation is the nearest one itself from then on. -/
theorem nearestOwn_succ_of_own (hop : plan.operations[n]? = some op) (hkind : op.kind ≠ .included) :
    NearestOwn plan (n + 1) j carrier ↔ j = n ∧ carrier = op := by
  constructor
  · intro h
    have hle := Nat.le_of_lt_succ h.before
    obtain hlt | rfl := Nat.lt_or_eq_of_le hle
    · exact absurd (h.between n op hlt (Nat.lt_succ_self n) hop) hkind
    · exact ⟨rfl, Option.some.inj (h.found.symm.trans hop)⟩
  · rintro ⟨rfl, rfl⟩
    exact ⟨hop, hkind, Nat.lt_succ_self _, fun k o hj hk ↦ by omega⟩

/-- Behind an operation for a line there is always a nearest one. -/
theorem exists_nearestOwn (hop : plan.operations[j]? = some op) (hkind : op.kind ≠ .included)
    (hjn : j < n) (hn : n ≤ plan.operations.length) :
    ∃ k carrier, j ≤ k ∧ NearestOwn plan n k carrier := by
  induction n, hjn using Nat.le_induction with
  | base => exact ⟨j, op, le_rfl, (nearestOwn_succ_of_own hop hkind).mpr ⟨rfl, rfl⟩⟩
  | succ n hjn ih =>
    have hlast := List.getElem?_eq_getElem hn
    by_cases hincluded : plan.operations[n].kind = .included
    · obtain ⟨k, carrier, hjk, hk⟩ := ih (Nat.le_of_succ_le hn)
      exact ⟨k, carrier, hjk, (nearestOwn_succ_of_included hlast hincluded).mpr hk⟩
    · exact ⟨n, _, Nat.le_of_succ_le hjn, (nearestOwn_succ_of_own hlast hincluded).mpr ⟨rfl, rfl⟩⟩

/-- **What is included belongs to the nearest operation for a line**, a transfer, and lies within
the reach of its included operations. -/
theorem includedEnd?_of_nearestOwn (hblocks : Blocks Bears plan.operations)
    (h : NearestOwn plan n j carrier) (hop : plan.operations[n]? = some op)
    (hkind : op.kind = .included) :
    ∃ last, plan.includedEnd? j = some last ∧ n ≤ last := by
  obtain ⟨inside, rest, hdrop, hhead, hbears⟩ := hblocks j carrier h.found h.own
  have hlast := includedEnd?_of_block h.found hdrop hhead fun o ho ↦
    ⟨hbears.included o ho, hbears.deeper o ho⟩
  have hbehind := ((nearestOwn_succ_of_included hop hkind).mpr h).between
  -- behind the block stands an operation for a line, and between `j` and `n` there is none
  have hn : n ≤ j + inside.length := by
    by_contra hlt
    have hlength : j + 1 + inside.length < plan.operations.length :=
      Nat.lt_of_le_of_lt (by omega) (List.getElem?_eq_some_iff.mp hop).1
    have hnext : rest.head? = some plan.operations[j + 1 + inside.length] := by
      rw [List.head?_eq_getElem?, ← List.getElem?_eq_getElem hlength, ← List.getElem?_drop, hdrop,
        List.getElem?_append_right le_rfl, Nat.sub_self]
    exact hhead _ hnext (hbehind _ _ (by omega) (by omega) (List.getElem?_eq_getElem hlength))
  have hne : inside ≠ [] := by
    rintro rfl
    have := h.before
    simp at hn
    omega
  exact ⟨j + inside.length, by rw [hlast, if_neg hne], hn⟩

/-- An operation with included ones behind it is a transfer. -/
theorem transfers_of_includedEnd? (hblocks : Blocks Bears plan.operations)
    (hop : plan.operations[n]? = some op) (hown : op.kind ≠ .included) {last : Nat}
    (hlast : plan.includedEnd? n = some last) :
    (op.kind = .copy ∨ op.kind = .move) ∧ ∃ source, op.source = some source := by
  obtain ⟨inside, rest, hdrop, hhead, hbears⟩ := hblocks n op hop hown
  rw [includedEnd?_of_block hop hdrop hhead fun o ho ↦
    ⟨hbears.included o ho, hbears.deeper o ho⟩] at hlast
  split at hlast
  · cases hlast
  · rename_i hne
    exact ⟨hbears.transfers hne, hbears.source hne⟩

/-! ### What is noted to be skipped -/

/-- An included operation does not change what is to be skipped. -/
theorem Steps.skipThrough_of_included {run run' : Run} {s s' : σ}
    (h : Steps b plan n op run s run' s') (hkind : op.kind = .included) :
    run'.skipThrough = run.skipThrough := by
  cases h with
  | skips => rfl
  | creates => rfl
  | transfers => rfl
  | includes => rfl
  | falls hmarked =>
    cases hmarked with
    | alone => rfl
    | abandons hown => exact absurd hkind hown
    | spoils => rfl

/-- Any other one changes it only when it meets with a setback. -/
theorem Steps.skipThrough_cases {run run' : Run} {s s' : σ} (h : Steps b plan n op run s run' s') :
    run'.skipThrough = run.skipThrough ∨
      ∃ outcome, outcome.isSetback = true ∧ run'.log = run.log.push (op.logged outcome) := by
  obtain ⟨outcome, hlog, -, hskip, -⟩ := h.warnings_eq
  exact hskip.imp_right fun hsetback ↦ ⟨outcome, hsetback, hlog⟩

/-- **A transfer that meets with a setback** has the included operations behind it skipped. -/
theorem skipThrough_of_setback {run : Run} {s : σ} {source : Path} {last : Nat} {outcome : Outcome}
    (hkind : op.kind = .copy ∨ op.kind = .move) (hsource : op.source = some source)
    (hlast : plan.includedEnd? n = some last) (hsetback : outcome.isSetback = true)
    (hlog : (runFrom s (step b plan n op run)).1.log = run.log.push (op.logged outcome)) :
    (runFrom s (step b plan n op run)).1.skipThrough =
      some ((run.skipThrough.map (max · last)).getD last) := by
  have hskips : run.skips n op = false := by
    rcases hkind with h | h <;> simp [Run.skips, h]
  have hstep : step b plan n op run = transfer b plan n op source run := by
    rcases hkind with h | h <;> simp [step, hskips, h, hsource]
  rw [hstep] at hlog ⊢
  simp only [transfer, runFrom_bind, hlast] at hlog ⊢
  obtain ⟨⟨result, s₁⟩, hreason⟩ :
      ∃ tried, runFrom s (transferReason b (some last) op source) = tried := ⟨_, rfl⟩
  rw [hreason] at hlog ⊢
  rcases result with reason | pending
  · dsimp only
    generalize hmarked : run.skippingThrough last = marked
    obtain ⟨message, outcome', -, hrun⟩ := fallBack_cases op _ marked s₁
    rw [hrun, ← hmarked]
    rfl
  · rw [← outcome_of_push hlog] at hsetback
    cases hsetback

/-- What the skipped positions mean in front of position `n`. -/
structure Skipping (plan : Plan) (n : Nat) (run : Run) : Prop where
  /-- They only reach that far because of the nearest operation for a line. -/
  origin : ∀ l, run.skipThrough = some l → n ≤ l → ∃ j carrier outcome,
    NearestOwn plan n j carrier ∧ outcome.isSetback = true ∧
      run.log[j]? = some (carrier.logged outcome)
  /-- If that has met with a setback, they reach over all that it bears. -/
  reach : ∀ j carrier outcome last, NearestOwn plan n j carrier → outcome.isSetback = true →
    run.log[j]? = some (carrier.logged outcome) → plan.includedEnd? j = some last →
      ∃ l, run.skipThrough = some l ∧ last ≤ l

/-- **An operation is done.** -/
theorem Skipping.step (hblocks : Blocks Bears plan.operations) {run : Run} (h : Skipping plan n run)
    (hreached : Reached plan n run) (hop : plan.operations[n]? = some op) (s : σ) :
    Skipping plan (n + 1) (runFrom s (Execution.step b plan n op run)).1 := by
  have hstep := step_cases b plan n op run s
  obtain ⟨logged, hlog⟩ := hstep.log_eq
  have hbefore : ∀ j < n, (runFrom s (Execution.step b plan n op run)).1.log[j]? = run.log[j]? := by
    intro j hj
    rw [hlog, Array.getElem?_push, if_neg (by rw [hreached.size]; omega)]
  by_cases hkind : op.kind = .included
  · have hskip := hstep.skipThrough_of_included hkind
    refine ⟨fun l hl hn ↦ ?_, fun j carrier outcome last hj hsetback hentry hlast ↦ ?_⟩
    · obtain ⟨j, carrier, outcome, hj, hsetback, hentry⟩ :=
        h.origin l (hskip ▸ hl) (Nat.le_of_succ_le hn)
      exact ⟨j, carrier, outcome, (nearestOwn_succ_of_included hop hkind).mpr hj, hsetback,
        (hbefore j hj.before).trans hentry⟩
    · rw [nearestOwn_succ_of_included hop hkind] at hj
      rw [hskip]
      exact h.reach j carrier outcome last hj hsetback ((hbefore j hj.before).symm.trans hentry)
        hlast
  · refine ⟨fun l hl hn ↦ ?_, fun j carrier outcome last hj hsetback hentry hlast ↦ ?_⟩
    · obtain hskip | ⟨outcome, hsetback, hlog⟩ := hstep.skipThrough_cases
      -- what was skipped in front of the operation does not reach over it
      · exact absurd (hreached.skipping l (hskip ▸ hl) n op le_rfl (by omega) hop) hkind
      · refine ⟨n, op, outcome, (nearestOwn_succ_of_own hop hkind).mpr ⟨rfl, rfl⟩, hsetback, ?_⟩
        rw [hlog, Array.getElem?_push, if_pos hreached.size.symm]
    · obtain ⟨rfl, rfl⟩ := (nearestOwn_succ_of_own hop hkind).mp hj
      obtain ⟨htransfers, source, hsource⟩ := transfers_of_includedEnd? hblocks hop hkind hlast
      rw [hlog, Array.getElem?_push, if_pos hreached.size.symm] at hentry
      rw [skipThrough_of_setback htransfers hsource hlast hsetback
        (hlog.trans (congrArg _ (Option.some.inj hentry)))]
      rcases run.skipThrough with - | l
      · exact ⟨last, rfl, le_rfl⟩
      · exact ⟨max l last, rfl, le_max_right l last⟩

/-- Completing moves changes nothing about what is skipped. -/
theorem Skipping.settle {run : Run} (h : Skipping plan n run) (i : Nat) (s : σ) :
    Skipping plan n (runFrom s (settleMoves b i run)).1 := by
  obtain ⟨added, hsettled⟩ := settleMoves_eq b i run s
  rw [hsettled]
  exact ⟨h.origin, h.reach⟩

/-- **What the skipped positions mean holds at every position of a run.** -/
theorem skipping_runBefore (hblocks : Blocks Bears plan.operations) (b : Backend (StateM σ)) (s : σ)
    (hn : n ≤ plan.operations.length) : Skipping plan n (runFrom s (runBefore b plan n)).1 := by
  have hboth : Reached plan n (runFrom s (runBefore b plan n)).1 ∧
      Skipping plan n (runFrom s (runBefore b plan n)).1 := by
    refine runBefore_induction (fun n run _ ↦ Reached plan n run ∧ Skipping plan n run)
      ⟨reached_runBefore b plan s (Nat.zero_le _), ?_⟩ (fun n op run s' hop h ↦ ⟨?_, ?_⟩) hn
    · rw [start_eq]
      exact ⟨nofun, fun j _ _ _ hj ↦ absurd hj.before (Nat.not_lt_zero j)⟩
    · exact (h.1.step hop (step_cases b plan n op run s')).settle _
    · exact (h.2.step hblocks h.1 hop s').settle n _
  exact hboth.2

/-! ### What is skipped -/

/-- **An operation is skipped** exactly if it is included and the nearest operation for a line has
met with a setback. -/
theorem Skipping.skips_iff (hblocks : Blocks Bears plan.operations) {run : Run}
    (h : Skipping plan n run) (hop : plan.operations[n]? = some op) :
    run.skips n op = true ↔ op.kind = .included ∧ ∃ j carrier outcome,
      NearestOwn plan n j carrier ∧ outcome.isSetback = true ∧
        run.log[j]? = some (carrier.logged outcome) := by
  simp only [Run.skips, Bool.and_eq_true, beq_iff_eq, Option.any_eq_true, decide_eq_true_eq]
  refine and_congr_right fun hkind ↦ ?_
  constructor
  · rintro ⟨l, hl, hn⟩
    exact h.origin l hl hn
  · rintro ⟨j, carrier, outcome, hj, hsetback, hentry⟩
    obtain ⟨last, hlast, hn⟩ := includedEnd?_of_nearestOwn hblocks hj hop hkind
    obtain ⟨l, hl, hle⟩ := h.reach j carrier outcome last hj hsetback hentry hlast
    exact ⟨l, hl, hn.trans hle⟩

theorem step_of_skips {run : Run} (h : run.skips n op = true) :
    step b plan n op run = pure (run.record op .skipped) := if_pos h

/-- What is logged as skipped was to be skipped. -/
theorem log_skipped_iff (b : Backend (StateM σ)) {run : Run} {s : σ} :
    (runFrom s (step b plan n op run)).1.log = run.log.push (op.logged .skipped) ↔
      run.skips n op = true := by
  refine ⟨fun hlog ↦ ?_, fun h ↦ by rw [step_of_skips h]; rfl⟩
  have hstep := step_cases b plan n op run s
  generalize (runFrom s (step b plan n op run)).1 = run' at hstep hlog
  generalize (runFrom s (step b plan n op run)).2 = s' at hstep
  cases hstep with
  | skips h => exact h
  | creates => cases outcome_of_push hlog
  | transfers => cases outcome_of_push hlog
  | includes => cases outcome_of_push hlog
  | falls hmarked houtcome =>
    have hskipped := outcome_of_push (by cases hmarked <;> exact hlog)
    rcases houtcome with rfl | rfl <;> cases hskipped

/-- **No call is made for an operation that is skipped**, not even to complete a move, because no
move is pending then. -/
theorem runBefore_succ_of_skips {s : σ} (hop : plan.operations[n]? = some op)
    (h : (runFrom s (runBefore b plan n)).1.skips n op = true) :
    (runFrom s (runBefore b plan (n + 1))).2 = (runFrom s (runBefore b plan n)).2 := by
  have hn : n < plan.operations.length := (List.getElem?_eq_some_iff.mp hop).1
  have hreached := reached_runBefore b plan s (Nat.le_of_lt hn)
  rw [runBefore_succ b plan hop, runFrom_bind]
  simp only [advance, runFrom_bind, step_of_skips h, runFrom_pure]
  rw [settleMoves_of_ahead n]
  intro p hp
  obtain ⟨i, move, hsince⟩ := hreached.pending p hp
  simp only [Run.skips, Bool.and_eq_true, Option.any_eq_true, decide_eq_true_eq] at h
  obtain ⟨-, l, hl, hnl⟩ := h
  have := hsince.notSkipped l hl
  have := hsince.before
  omega

/-- The report has the entries that are in the log at a position. -/
theorem report_log_of_lt (b : Backend (StateM σ)) (plan : Plan) (s : σ) (hj : j < n)
    (hn : n ≤ plan.operations.length) :
    (runFrom s (executePlan b plan)).1.log[j]? = (runFrom s (runBefore b plan n)).1.log[j]? := by
  obtain ⟨more, hmore⟩ := (continues_runBefore b plan s hn le_rfl).log
  have hsize := (reached_runBefore b plan s hn).size
  rw [executePlan_eq, runFrom_bind, runFrom_pure, Run.report, hmore, Array.toList_append,
    List.getElem?_append_left (by rwa [Array.length_toList, hsize]), Array.getElem?_toList]

/-- **Exactly the entries of failed transfers are skipped.** Let a plan be made for any text, with
any backend, and be executed on any store, whose calls may answer and fail as they will. An
operation is logged as skipped exactly if it is included and the nearest operation in front of it
that is not is logged as fallen back or failed. While it is skipped no call is made. -/
theorem skipped_iff_setback {τ : Type} {planner : Backend (StateM τ)} (c : Calls (StateM σ))
    {readBlock : String → Option FrontMatter} {options : PlanOptions} {text : String} {t t' : τ}
    (hplan : runFrom t (Planner.plan planner readBlock options text).run = (.ok plan, t')) (s : σ)
    {i : Nat} (hop : plan.operations[i]? = some op) :
    let log := (runFrom s (executePlan c.backend plan)).1.log
    let calls (n : Nat) := (runFrom (s, []) (runBefore c.traced plan n)).2.2
    (log[i]? = some (op.logged .skipped) ↔ op.kind = .included ∧ ∃ j carrier outcome,
      NearestOwn plan i j carrier ∧ (outcome = .fellBack ∨ outcome = .failed) ∧
        log[j]? = some (carrier.logged outcome)) ∧
    (log[i]? = some (op.logged .skipped) → calls (i + 1) = calls i) := by
  intro log calls
  have hi : i < plan.operations.length := (List.getElem?_eq_some_iff.mp hop).1
  have hblocks := blocks_plan hplan
  set before := runFrom (s, []) (runBefore c.traced plan i) with hbefore
  have hskipping : Skipping plan i before.1 :=
    skipping_runBefore hblocks c.traced _ (Nat.le_of_lt hi)
  have hlog : log = (runFrom (s, []) (executePlan c.traced plan)).1.log := by
    rw [show log = (runFrom s (executePlan c.backend plan)).1.log from rfl,
      runFrom_executePlan_traced]
  have hskipped : log[i]? = some (op.logged .skipped) ↔ before.1.skips i op = true := by
    rw [hlog]
    refine ⟨fun h ↦ (log_skipped_iff c.traced).mp (log_of_report hop h), fun h ↦ ?_⟩
    have hsize := (reached_runBefore c.traced plan (s, []) (Nat.le_of_lt hi)).size
    rw [report_log_eq c.traced plan _ hop, (log_skipped_iff c.traced).mpr h, Array.getElem?_push,
      if_pos hsize.symm]
  have hearlier : ∀ j < i, log[j]? = before.1.log[j]? := fun j hj ↦ by
    rw [hlog, report_log_of_lt c.traced plan _ hj (Nat.le_of_lt hi)]
  refine ⟨?_, fun h ↦ congrArg Prod.snd (runBefore_succ_of_skips hop (hskipped.mp h))⟩
  rw [hskipped, hskipping.skips_iff hblocks hop]
  refine and_congr_right fun _ ↦ exists_congr fun j ↦ exists_congr fun carrier ↦
    exists_congr fun outcome ↦ and_congr_right fun hj ↦ ?_
  rw [hearlier j hj.before, Outcome.isSetback_iff]

/-- A store in which the source of the copy cannot be seen. -/
def unseen : MemoryStore × List Fault :=
  (nestedCopy.2, [⟨.exists_, .ofText "/r/s", .permissionDenied, 0, none⟩])

/-- The operation that copies the directory. -/
def nestedDirectory : Operation :=
  ⟨.copy, .ofText "/r/a/b", some (.ofText "/r/s"), true, 1, "b", none, some 0⟩

/-- The operation for the file in it. -/
def nestedFile : Operation :=
  ⟨.included, .ofText "/r/a/b/x.txt", some (.ofText "/r/s/x.txt"), false, 2, "x.txt", none, some 1⟩

/-- The copy falls back, so the file in it is skipped; the lines under it are not. -/
theorem skipped_iff_setback_nestedCopy : ∃ plan t', nestedCopy = (.ok plan, t') ∧
    let c := MemoryStore.calls.gated Fault.gate
    let log := (runFrom unseen (executePlan c.backend plan)).1.log
    let calls (n : Nat) := (runFrom (unseen, []) (runBefore c.traced plan n)).2.2
    log.map (·.outcome) = [.succeeded, .fellBack, .skipped, .succeeded, .succeeded] ∧
      log[2]? = some (nestedFile.logged .skipped) ∧ calls 3 = calls 2 := by
  obtain ⟨plan, t', hplanned, hdirectory, hop, houtcomes, hlog⟩ :
      ∃ plan t', nestedCopy = (.ok plan, t') ∧
        let log := (runFrom unseen
          (executePlan (MemoryStore.calls.gated Fault.gate).backend plan)).1.log
        plan.operations[1]? = some nestedDirectory ∧ plan.operations[2]? = some nestedFile ∧
          log.map (·.outcome) = [.succeeded, .fellBack, .skipped, .succeeded, .succeeded] ∧
          log[1]? = some (nestedDirectory.logged .fellBack) :=
    exists_runFrom_eq_ok (by decide +kernel)
  have hcarrier : NearestOwn plan 2 1 nestedDirectory :=
    ⟨hdirectory, by decide, by decide, fun k _ hk hk' ↦ by omega⟩
  obtain ⟨hiff, hcalls⟩ := skipped_iff_setback (MemoryStore.calls.gated Fault.gate) hplanned
    unseen hop
  have hskipped := hiff.mpr ⟨rfl, 1, _, .fellBack, hcarrier, .inl rfl, hlog⟩
  exact ⟨plan, t', hplanned, houtcomes, hskipped, hcalls hskipped⟩

end Execution

end Scaffold
