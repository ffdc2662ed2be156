import Mathlib.Data.List.TakeWhile
import Scaffold.Execution
import Scaffold.Proofs.Stateful

/-!
# Runs, step by step

A run is cut at a position: `runBefore` does the operations in front of it, and one `advance` leads
from a position to the next (`runBefore_succ`), so what holds at the start and is kept by every
`advance` holds at every position (`runBefore_induction`).

What one operation can do is said once, by `Steps`: it succeeds through the calls that it makes, it
is skipped, or it falls back, and then the setback is noted in the run (`Setback`). Everything else
that is known of runs is derived from this inversion (`step_cases`).
-/

namespace Scaffold.Execution

/-! ### Positions -/

section Positions

variable {m : Type → Type} [Monad m] (b : Backend m) (plan : Plan)

/-- The run when the operations in front of position `n` are done. -/
def runBefore (n : Nat) : m Run :=
  (plan.operations.zipIdx.take n).foldlM (advance b plan) (start plan)

theorem runBefore_zero : runBefore b plan 0 = pure (start plan) := rfl

/-- **The next position is one operation further.** -/
theorem runBefore_succ [LawfulMonad m] {n : Nat} {op : Operation}
    (h : plan.operations[n]? = some op) :
    runBefore b plan (n + 1) = runBefore b plan n >>= fun run ↦ advance b plan run (op, n) := by
  have hzip : plan.operations.zipIdx[n]? = some (op, n) := by simp [h]
  unfold runBefore
  rw [List.take_add_one, hzip, List.foldlM_append]
  simp

/-- The execution of a plan is the run through all of its operations. -/
theorem executePlan_eq :
    executePlan b plan =
      (do
        let run ← runBefore b plan plan.operations.length
        pure (run.report plan)) := by
  unfold executePlan runBefore
  rw [List.take_of_length_le (by simp)]

end Positions

variable {σ : Type} {b : Backend (StateM σ)} {plan : Plan}

/-- What is planned is executed. -/
theorem runFrom_execute {readBlock : String → Option FrontMatter} {options : PlanOptions}
    {text : String} {s s' : σ}
    (hplan : runFrom s (Planner.plan b readBlock options text).run = (.ok plan, s')) :
    let done := runFrom s' (executePlan b plan)
    runFrom s (execute b readBlock options text).run = (.ok done.1, done.2) := by
  rw [execute, runFrom_run_bind, hplan]
  rfl

/-- **What every operation keeps holds at every position.** -/
theorem runBefore_induction {s : σ} (P : Nat → Run → σ → Prop) (hstart : P 0 (start plan) s)
    (hadvance : ∀ (n : Nat) (op : Operation) (run : Run) (s' : σ),
      plan.operations[n]? = some op → P n run s' →
      P (n + 1) (runFrom s' (advance b plan run (op, n))).1
        (runFrom s' (advance b plan run (op, n))).2)
    {n : Nat} (hn : n ≤ plan.operations.length) :
    P n (runFrom s (runBefore b plan n)).1 (runFrom s (runBefore b plan n)).2 := by
  induction n with
  | zero => exact hstart
  | succ n ih =>
    obtain ⟨op, hop⟩ : ∃ op, plan.operations[n]? = some op :=
      ⟨_, List.getElem?_eq_getElem (Nat.lt_of_succ_le hn)⟩
    rw [runBefore_succ b plan hop, runFrom_bind]
    exact hadvance n op _ _ hop (ih (Nat.le_of_succ_le hn))

/-- **A run ends with its last operation**, and the moves that are completed behind it. -/
theorem runFrom_executePlan {n : Nat} {op : Operation} (hlength : plan.operations.length = n + 1)
    (hop : plan.operations[n]? = some op) (s : σ) :
    let before := runFrom s (runBefore b plan n)
    let next := runFrom before.2 (step b plan n op before.1)
    let settled := runFrom next.2 (settleMoves b n next.1)
    runFrom s (executePlan b plan) = (settled.1.report plan, settled.2) := by
  rw [executePlan_eq, runFrom_bind, hlength, runBefore_succ b plan hop, runFrom_bind]
  rfl

/-! ### What an operation can do -/

/-- How a run is marked when the operation at position `i` falls back. -/
inductive Setback (plan : Plan) (i : Nat) (op : Operation) (run : Run) : Run → Prop where
  /-- Nothing depends on the operation. -/
  | alone (h : op.kind = .included → op.source = none) : Setback plan i op run run
  /-- The included operations of a transfer are abandoned with it. -/
  | abandons {last : Nat} (hkind : op.kind ≠ .included) (h : plan.includedEnd? i = some last) :
    Setback plan i op run (run.skippingThrough last)
  /-- A move that has lost one of its included operations keeps its source. -/
  | spoils (hkind : op.kind = .included) : Setback plan i op run (run.spoil i)

/-- The operation at position `i` leads from `run` and the state `s` to another run and state. -/
inductive Steps (b : Backend (StateM σ)) (plan : Plan) (i : Nat) (op : Operation) (run : Run)
    (s : σ) : Run → σ → Prop where
  | skips (h : run.skips i op = true) : Steps b plan i op run s (run.record op .skipped) s
  | creates {s' : σ} (hkind : op.kind = .create ∨ op.source = none)
    (hok : runFrom s (makeEmpty b op).run = (.ok (), s')) :
    Steps b plan i op run s (run.record op .succeeded) s'
  | transfers {source : Path} {pending : Option PendingMove} {s₁ s' : σ}
    (hkind : op.kind = .copy ∨ op.kind = .move) (hsource : op.source = some source)
    (hexists : runFrom s (b.exists_ source) = (true, s₁))
    (hok : runFrom s₁ (tryTransfer b (plan.includedEnd? i) op source).run = (.ok pending, s')) :
    Steps b plan i op run s
      ({ run with pending := run.pending ++ pending.toList }.record op .succeeded) s'
  | includes {source : Path} {s' : σ} (hkind : op.kind = .included)
    (hsource : op.source = some source) (hskips : run.skips i op = false)
    (hok : runFrom s (tryInclude b op source).run = (.ok (), s')) :
    Steps b plan i op run s (run.record op .succeeded) s'
  | falls {marked : Run} {message : String} {outcome : Outcome} {s' : σ}
    (hmarked : Setback plan i op run marked) (houtcome : outcome = .fellBack ∨ outcome = .failed) :
    Steps b plan i op run s ((marked.warn op.target message).record op outcome) s'

/-- Falling back warns and is logged as such. -/
theorem fallBack_cases (op : Operation) (reason : String) (run : Run) (s : σ) :
    ∃ message outcome, (outcome = .fellBack ∨ outcome = .failed) ∧
      (runFrom s (fallBack b op reason run)).1 =
        (run.warn op.target message).record op outcome := by
  simp only [fallBack, runFrom_bind]
  split
  · exact ⟨_, .fellBack, .inl rfl, rfl⟩
  · exact ⟨_, .failed, .inr rfl, rfl⟩

theorem Steps.of_fallBack {i : Nat} {op : Operation} {run marked : Run} {s s₁ : σ}
    (reason : String) (hmarked : Setback plan i op run marked) :
    Steps b plan i op run s (runFrom s₁ (fallBack b op reason marked)).1
      (runFrom s₁ (fallBack b op reason marked)).2 := by
  obtain ⟨message, outcome, houtcome, hrun⟩ := fallBack_cases (b := b) op reason marked s₁
  rw [hrun]
  exact .falls hmarked houtcome

/-- A transfer succeeds or falls back. -/
theorem transfer_cases {i : Nat} {op : Operation} {source : Path} {run : Run} {s : σ}
    (hkind : op.kind = .copy ∨ op.kind = .move) (hsource : op.source = some source) :
    Steps b plan i op run s (runFrom s (transfer b plan i op source run)).1
      (runFrom s (transfer b plan i op source run)).2 := by
  have hown : op.kind ≠ .included := by
    rcases hkind with h | h <;> simp [h]
  simp only [transfer, runFrom_bind]
  rcases hreason : runFrom s (transferReason b (plan.includedEnd? i) op source) with
    ⟨reason | pending, s'⟩
  · rcases hlast : plan.includedEnd? i with - | last
    · exact .of_fallBack reason (.alone fun h ↦ absurd h hown)
    · exact .of_fallBack _ (.abandons hown hlast)
  · simp only [transferReason, runFrom_bind] at hreason
    rcases hexists : runFrom s (b.exists_ source) with ⟨there, s₁⟩
    rw [hexists] at hreason
    rcases there with - | -
    · cases hreason
    · simp only [if_true, runFrom_bind] at hreason
      rcases htry : runFrom s₁ (tryTransfer b (plan.includedEnd? i) op source).run with
        ⟨e | pending', s₂⟩
      · rw [htry] at hreason
        cases hreason
      · rw [htry] at hreason
        obtain ⟨rfl, rfl⟩ : pending' = pending ∧ s₂ = s' := by simpa using hreason
        exact .transfers hkind hsource hexists htry

/-- An included operation succeeds or falls back. -/
theorem include_cases {i : Nat} {op : Operation} {source : Path} {run : Run} {s : σ}
    (hkind : op.kind = .included) (hsource : op.source = some source)
    (hskips : run.skips i op = false) :
    Steps b plan i op run s (runFrom s (include_ b i op source run)).1
      (runFrom s (include_ b i op source run)).2 := by
  simp only [include_, runFrom_bind]
  rcases htry : runFrom s (tryInclude b op source).run with ⟨e | ⟨⟩, s'⟩
  · exact .of_fallBack _ (.spoils hkind)
  · exact .includes hkind hsource hskips htry

theorem create_cases {i : Nat} {op : Operation} {run : Run} {s : σ}
    (hkind : op.kind = .create ∨ op.source = none) :
    Steps b plan i op run s (runFrom s (create b op run)).1 (runFrom s (create b op run)).2 := by
  simp only [create, runFrom_bind]
  rcases htry : runFrom s (makeEmpty b op).run with ⟨e | ⟨⟩, s'⟩
  · refine .falls (.alone fun hincluded ↦ ?_) (.inr rfl)
    exact hkind.resolve_left (by simp [hincluded])
  · exact .creates hkind htry

/-- **What one operation can do.** -/
theorem step_cases (b : Backend (StateM σ)) (plan : Plan) (i : Nat) (op : Operation) (run : Run)
    (s : σ) :
    Steps b plan i op run s (runFrom s (step b plan i op run)).1
      (runFrom s (step b plan i op run)).2 := by
  unfold step
  split
  · exact .skips ‹_›
  · rename_i hskips
    split
    · exact create_cases (.inl ‹_›)
    · exact create_cases (.inr ‹_›)
    · exact transfer_cases (.inl ‹_›) ‹_›
    · exact transfer_cases (.inr ‹_›) ‹_›
    · exact include_cases ‹_› ‹_› (by simpa using hskips)

/-- A transfer that can be made is made. -/
theorem step_of_transfers {i : Nat} {op : Operation} {source : Path}
    {pending : Option PendingMove} {run : Run} {s s₁ s' : σ}
    (hkind : op.kind = .copy ∨ op.kind = .move) (hsource : op.source = some source)
    (hexists : runFrom s (b.exists_ source) = (true, s₁))
    (hok : runFrom s₁ (tryTransfer b (plan.includedEnd? i) op source).run = (.ok pending, s')) :
    runFrom s (step b plan i op run) =
      ({ run with pending := run.pending ++ pending.toList }.record op .succeeded, s') := by
  have htransfer : runFrom s (transfer b plan i op source run) =
      ({ run with pending := run.pending ++ pending.toList }.record op .succeeded, s') := by
    simp only [transfer, transferReason, runFrom_bind, hexists, if_true, hok, runFrom_pure]
  rcases hkind with hkind | hkind
  · simpa [step, Run.skips, hkind, hsource] using htransfer
  · simpa [step, Run.skips, hkind, hsource] using htransfer

/-- An entry that can be carried along is carried along. -/
theorem step_of_included {i : Nat} {op : Operation} {source : Path} {run : Run} {s s' : σ}
    (hkind : op.kind = .included) (hsource : op.source = some source)
    (hskips : run.skips i op = false)
    (hok : runFrom s (tryInclude b op source).run = (.ok (), s')) :
    runFrom s (step b plan i op run) = (run.record op .succeeded, s') := by
  simp [step, hskips, hkind, hsource, include_, hok]

/-! ### What a transfer can do -/

/-- The transfer of `source` by `op` succeeds from the state `s`, and a move may be pending then. -/
inductive Transfers (b : Backend (StateM σ)) (last? : Option Nat) (op : Operation) (source : Path)
    (s : σ) : Option PendingMove → σ → Prop where
  /-- A file is copied, and unlinked when it is moved. -/
  | file {found : Metadata} {s₁ s₂ s₃ s' : σ}
    (hstat : runFrom s (b.stat source).run = (.ok found, s₁)) (hkind : found.kind = .file)
    (hparent : runFrom s₁ (ensureParent b op.target).run = (.ok (), s₂))
    (hcopy : runFrom s₂ (b.copyFile source op.target).run = (.ok (), s₃))
    (hunlink : if op.kind = .move then runFrom s₃ (b.unlink source).run = (.ok (), s')
      else s₃ = s') :
    Transfers b last? op source s none s'
  /-- A directory is created for the included operations to fill. -/
  | opens {found : Metadata} {last : Nat} {s₁ s' : σ}
    (hstat : runFrom s (b.stat source).run = (.ok found, s₁)) (hkind : found.kind = .directory)
    (houtside : op.target.startsWith source = false) (hlast : last? = some last)
    (hdir : runFrom s₁ (b.ensureDir op.target).run = (.ok (), s')) :
    Transfers b last? op source s
      (if op.kind = .move then some ⟨last, source, true⟩ else none) s'
  /-- A directory is transferred as a whole. -/
  | whole {found : Metadata} {s₁ s' : σ}
    (hstat : runFrom s (b.stat source).run = (.ok found, s₁)) (hkind : found.kind = .directory)
    (houtside : op.target.startsWith source = false) (hlast : last? = none)
    (hfolder : runFrom s₁ (if op.kind = .move then b.moveFolder source op.target
      else b.copyFolder source op.target).run = (.ok (), s')) :
    Transfers b last? op source s none s'

/-- **What a transfer can do.** -/
theorem tryTransfer_cases {last? : Option Nat} {op : Operation} {source : Path}
    {pending : Option PendingMove} {s s' : σ}
    (h : runFrom s (tryTransfer b last? op source).run = (.ok pending, s')) :
    Transfers b last? op source s pending s' := by
  obtain ⟨found, s₁, hstat, h⟩ := run_bind_eq_ok_iff.mp h
  split at h
  · rename_i hkind
    obtain ⟨⟨⟩, s₂, hparent, h⟩ := run_bind_eq_ok_iff.mp h
    obtain ⟨⟨⟩, s₃, hcopy, h⟩ := run_bind_eq_ok_iff.mp h
    dsimp only at h
    split at h
    · rename_i hmove
      obtain ⟨⟨⟩, s₄, hunlink, h⟩ := run_bind_eq_ok_iff.mp h
      obtain ⟨rfl, rfl⟩ : none = pending ∧ s₄ = s' := by simpa using h
      exact .file hstat hkind hparent hcopy (by rwa [if_pos hmove])
    · rename_i hmove
      obtain ⟨rfl, rfl⟩ : none = pending ∧ s₃ = s' := by simpa using h
      exact .file hstat hkind hparent hcopy (by rw [if_neg hmove])
  · rename_i hkind
    dsimp only at h
    split at h
    · obtain ⟨_, s₂, hthrow, -⟩ := run_bind_eq_ok_iff.mp h
      cases hthrow
    · rename_i houtside
      rw [Bool.not_eq_true] at houtside
      split at h
      · obtain ⟨⟨⟩, s₂, hdir, h⟩ := run_bind_eq_ok_iff.mp h
        obtain ⟨hpending, rfl⟩ := Prod.mk.inj h
        obtain rfl := Except.ok.inj hpending
        exact .opens hstat hkind houtside rfl hdir
      · split at h
        · rename_i hmove
          obtain ⟨⟨⟩, s₂, hfolder, h⟩ := run_bind_eq_ok_iff.mp h
          obtain ⟨rfl, rfl⟩ : none = pending ∧ s₂ = s' := by simpa using h
          exact .whole hstat hkind houtside rfl (by rwa [if_pos hmove])
        · rename_i hmove
          obtain ⟨⟨⟩, s₂, hfolder, h⟩ := run_bind_eq_ok_iff.mp h
          obtain ⟨rfl, rfl⟩ : none = pending ∧ s₂ = s' := by simpa using h
          exact .whole hstat hkind houtside rfl (by rwa [if_neg hmove])

/-- Only a move with included operations becomes pending, and it is intact then. -/
theorem Transfers.pending {last? : Option Nat} {op : Operation} {source : Path}
    {pending : Option PendingMove} {p : PendingMove} {s s' : σ}
    (h : Transfers b last? op source s pending s') (hp : pending = some p) :
    op.kind = .move ∧ p.source = source ∧ last? = some p.last := by
  cases h with
  | file => cases hp
  | whole => cases hp
  | opens hstat hkind houtside hlast hdir =>
    split at hp
    · obtain rfl := Option.some.inj hp
      exact ⟨‹_›, rfl, hlast⟩
    · cases hp

/-! ### Completing moves -/

/-- Completing moves only settles them: those that end here are no longer pending, and there may be
warnings. -/
theorem settleMoves_eq (b : Backend (StateM σ)) (i : Nat) (run : Run) (s : σ) :
    ∃ added : Array Warning, (runFrom s (settleMoves b i run)).1 =
      { run with
        pending := run.pending.filter (·.last != i)
        warnings := run.warnings ++ added } := by
  -- each completion adds at most one warning
  have hsettle : ∀ (done : List PendingMove) (start : Run) (s : σ),
      ∃ added : Array Warning, (runFrom s (done.foldlM (settle b) start)).1 =
        { start with warnings := start.warnings ++ added } := by
    intro done start s
    have hstart : ∃ added, start = { start with warnings := start.warnings ++ added } :=
      ⟨#[], by simp⟩
    refine foldlM_keeps (fun run' ↦ ∃ added : Array Warning,
      run' = { start with warnings := start.warnings ++ added }) ?_ done s hstart
    rintro _ p s' ⟨added, rfl⟩
    have hwarn : ∀ message, ({ start with warnings := start.warnings ++ added } : Run).warn
        p.source message =
          { start with warnings := start.warnings ++ added.push ⟨p.source, message⟩ } := by
      simp [Run.warn]
    unfold settle
    split
    · simp only [runFrom_bind]
      split
      · exact ⟨added, rfl⟩
      · exact ⟨_, hwarn _⟩
    · exact ⟨_, hwarn _⟩
  obtain ⟨added, hadded⟩ :=
    hsettle (run.pending.partition (·.last == i)).1
      { run with pending := (run.pending.partition (·.last == i)).2 } s
  refine ⟨added, ?_⟩
  simp only [settleMoves]
  rw [hadded]
  simp only [List.partition_eq_filter_filter]
  rfl

/-- The included operations that end at `last` stand behind their transfer, without a gap. -/
theorem includedEnd?_spec {i last : Nat} (h : plan.includedEnd? i = some last) :
    i < last ∧ ∀ (j : Nat) (o : Operation), i < j → j ≤ last → plan.operations[j]? = some o →
      o.kind = .included := by
  unfold Plan.includedEnd? at h
  obtain ⟨op, -, h⟩ := Option.bind_eq_some_iff.mp h
  simp only at h
  set inside := (plan.operations.drop (i + 1)).takeWhile fun below ↦
    below.kind == .included && op.depth < below.depth with hinside
  split at h
  · cases h
  · rename_i hne
    obtain rfl := Option.some.inj h
    have hlength : 0 < inside.length := List.length_pos_iff.mpr (by simpa using hne)
    refine ⟨by omega, fun j o hij hj ho ↦ ?_⟩
    obtain ⟨k, rfl⟩ : ∃ k, j = i + 1 + k := ⟨j - (i + 1), by omega⟩
    -- what `takeWhile` has taken is the beginning of what stands behind
    have hk : k < inside.length := by omega
    have hfound : inside[k]? = some o := by
      obtain ⟨rest, hrest⟩ := List.takeWhile_prefix (l := plan.operations.drop (i + 1))
        (fun below ↦ below.kind == .included && decide (op.depth < below.depth))
      rw [← List.getElem?_drop, ← hrest, List.getElem?_append_left hk] at ho
      exact ho
    have hmem := List.mem_takeWhile_imp (hinside ▸ List.mem_of_getElem? hfound)
    simp only [Bool.and_eq_true, beq_iff_eq] at hmem
    exact hmem.1

/-! ### What holds at a position -/

/-- The move `p` is pending since the operation `op` at position `i`, and the operations in front of
position `n` are done. -/
structure PendingSince (plan : Plan) (n : Nat) (run : Run) (p : PendingMove) (i : Nat)
    (op : Operation) : Prop where
  found : plan.operations[i]? = some op
  kind_eq : op.kind = .move
  source_eq : op.source = some p.source
  last_eq : plan.includedEnd? i = some p.last
  before : i < n
  upTo : n ≤ p.last + 1
  notSkipped : ∀ l, run.skipThrough = some l → l < i
  succeeded : run.log[i]? = some (op.logged .succeeded)
  /-- While the move is intact, everything behind it has been carried along. -/
  carried : p.intact = true → ∀ (j : Nat) (o : Operation), i < j → j < n →
    plan.operations[j]? = some o → o.source ≠ none → run.log[j]? = some (o.logged .succeeded)

/-- What holds when the operations in front of position `n` are done. -/
structure Done (plan : Plan) (n : Nat) (run : Run) : Prop where
  size : run.log.size = n
  skipping : ∀ l, run.skipThrough = some l → ∀ (j : Nat) (o : Operation), n ≤ j → j ≤ l →
    plan.operations[j]? = some o → o.kind = .included
  single : run.pending.length ≤ 1
  pending : ∀ p ∈ run.pending, ∃ i op, PendingSince plan n run p i op

/-- What holds when also the moves that end in front of position `n` are completed. -/
structure Reached (plan : Plan) (n : Nat) (run : Run) : Prop extends Done plan n run where
  ahead : ∀ p ∈ run.pending, n ≤ p.last

/-- A move stays pending over an operation that belongs to it. -/
theorem PendingSince.step {n i : Nat} {run run' : Run} {p : PendingMove} {op o : Operation}
    {outcome : Outcome} (h : PendingSince plan n run p i op) (hahead : n ≤ p.last)
    (hsize : run.log.size = n) (ho : plan.operations[n]? = some o)
    (hlog : run'.log = run.log.push (o.logged outcome))
    (hskip : run'.skipThrough = run.skipThrough)
    (hintact : p.intact = true → o.source ≠ none → outcome = .succeeded) :
    PendingSince plan (n + 1) run' p i op where
  found := h.found
  kind_eq := h.kind_eq
  source_eq := h.source_eq
  last_eq := h.last_eq
  before := Nat.lt_succ_of_lt h.before
  upTo := by omega
  notSkipped := by rw [hskip]; exact h.notSkipped
  succeeded := by
    rw [hlog, Array.getElem?_push, if_neg (by have := h.before; omega)]
    exact h.succeeded
  carried hp j o' hij hj ho' hsource := by
    rw [hlog, Array.getElem?_push, hsize]
    rcases Nat.lt_succ_iff_lt_or_eq.mp hj with hlt | rfl
    · rw [if_neg (by omega)]
      exact h.carried hp j o' hij hlt ho' hsource
    · obtain rfl : o = o' := Option.some.inj (ho.symm.trans ho')
      rw [if_pos rfl, hintact hp hsource]

/-- No move is pending where an operation of its own stands. -/
theorem Reached.pending_eq_nil {n : Nat} {run : Run} {op : Operation} (h : Reached plan n run)
    (hop : plan.operations[n]? = some op) (hkind : op.kind ≠ .included) : run.pending = [] := by
  rw [List.eq_nil_iff_forall_not_mem]
  intro p hp
  obtain ⟨i, move, hsince⟩ := h.pending p hp
  exact hkind ((includedEnd?_spec hsince.last_eq).2 n op hsince.before (h.ahead p hp) hop)

/-- Operations that are skipped further on are still included ones. -/
theorem Reached.skipping_succ {n : Nat} {run : Run} (h : Reached plan n run) (l : Nat)
    (hl : run.skipThrough = some l) (j : Nat) (o : Operation) (hj : n + 1 ≤ j) (hjl : j ≤ l)
    (ho : plan.operations[j]? = some o) : o.kind = .included :=
  h.skipping l hl j o (Nat.le_of_succ_le hj) hjl ho

/-- A transfer has succeeded, and a move of a directory is pending then. -/
theorem Reached.transferred {n : Nat} {op : Operation} {run : Run} {source : Path}
    {pending : Option PendingMove} {s s' : σ} (h : Reached plan n run)
    (hop : plan.operations[n]? = some op) (hkind : op.kind = .copy ∨ op.kind = .move)
    (hsource : op.source = some source)
    (hok : Transfers b (plan.includedEnd? n) op source s pending s') :
    Done plan (n + 1)
      ({ run with pending := run.pending ++ pending.toList }.record op .succeeded) := by
  have hown : op.kind ≠ .included := by
    rcases hkind with h | h <;> simp [h]
  have hnil := h.pending_eq_nil hop hown
  refine ⟨by simp [Run.record, h.size], h.skipping_succ, ?_, fun p hp ↦ ?_⟩
  · cases pending <;> simp [Run.record, hnil]
  · obtain rfl : pending = some p := by simpa [Run.record, hnil] using hp
    obtain ⟨hmove, hp, hlast⟩ := hok.pending rfl
    refine ⟨n, op, hop, hmove, by rw [hsource, hp], hlast, by omega, ?_, fun l hl ↦ ?_, ?_, ?_⟩
    · have := (includedEnd?_spec hlast).1
      omega
    -- a transfer stands behind what was skipped in front of it
    · by_contra hnl
      exact hown (h.skipping l hl n op le_rfl (by omega) hop)
    · simp [Run.record, ← h.size]
    · intro _ j o hij hj
      omega

/-- An operation has fallen back, which is noted in the run. -/
theorem Reached.fallen {n : Nat} {op : Operation} {run marked : Run} (h : Reached plan n run)
    (hop : plan.operations[n]? = some op) (hmarked : Setback plan n op run marked)
    (message : String) (outcome : Outcome) :
    Done plan (n + 1) ((marked.warn op.target message).record op outcome) := by
  cases hmarked with
  | alone halone =>
    refine ⟨by simp [Run.record, Run.warn, h.size], h.skipping_succ, h.single, fun p hp ↦ ?_⟩
    obtain ⟨i, move, hsince⟩ := h.pending p hp
    refine ⟨i, move, hsince.step (h.ahead p hp) h.size hop rfl rfl fun _ hsource ↦ ?_⟩
    have hincluded := (includedEnd?_spec hsince.last_eq).2 n op hsince.before (h.ahead p hp) hop
    exact absurd (halone hincluded) hsource
  | abandons hown hlast =>
    rename_i last
    have hnil := h.pending_eq_nil hop hown
    refine ⟨by simp [Run.record, Run.warn, Run.skippingThrough, h.size], ?_, ?_, ?_⟩
    -- skipped are the operations of this transfer, and those that were before
    · intro l hl j o hj hjl ho
      rcases hskip : run.skipThrough with - | l'
      · obtain rfl : last = l := by
          simpa [Run.record, Run.warn, Run.skippingThrough, hskip] using hl
        exact (includedEnd?_spec hlast).2 j o (by omega) hjl ho
      · obtain rfl : max l' last = l := by
          simpa [Run.record, Run.warn, Run.skippingThrough, hskip] using hl
        rcases le_total l' last with hle | hle
        · rw [max_eq_right hle] at hjl
          exact (includedEnd?_spec hlast).2 j o (by omega) hjl ho
        · rw [max_eq_left hle] at hjl
          exact h.skipping_succ l' hskip j o hj hjl ho
    · simp [Run.record, Run.warn, Run.skippingThrough, hnil]
    · simp [Run.record, Run.warn, Run.skippingThrough, hnil]
  | spoils hkind =>
    refine ⟨by simp [Run.record, Run.warn, Run.spoil, h.size], h.skipping_succ, ?_, fun p hp ↦ ?_⟩
    · simpa [Run.record, Run.warn, Run.spoil] using h.single
    · obtain ⟨p', hp', rfl⟩ : ∃ p' ∈ run.pending,
          (if n ≤ p'.last then { p' with intact := false } else p') = p := by
        simpa [Run.record, Run.warn, Run.spoil] using hp
      obtain ⟨i, move, hsince⟩ := h.pending p' hp'
      rw [if_pos (h.ahead p' hp')]
      have hspoiled : PendingSince plan n run { p' with intact := false } i move :=
        { hsince with carried := nofun }
      exact ⟨i, move, hspoiled.step (h.ahead p' hp') h.size hop rfl rfl nofun⟩

/-- **An operation is done.** -/
theorem Reached.step {n : Nat} {op : Operation} {run run' : Run} {s s' : σ}
    (h : Reached plan n run) (hop : plan.operations[n]? = some op)
    (hstep : Steps b plan n op run s run' s') : Done plan (n + 1) run' := by
  -- what is logged as succeeded does no harm to a pending move
  have hsucceeded : Done plan (n + 1) (run.record op .succeeded) := by
    refine ⟨by simp [Run.record, h.size], h.skipping_succ, h.single, fun p hp ↦ ?_⟩
    obtain ⟨i, move, hsince⟩ := h.pending p hp
    exact ⟨i, move, hsince.step (h.ahead p hp) h.size hop rfl rfl fun _ _ ↦ rfl⟩
  cases hstep with
  | skips hskips =>
    -- nothing is pending while operations are skipped
    refine ⟨by simp [Run.record, h.size], h.skipping_succ, h.single, fun p hp ↦ ?_⟩
    obtain ⟨i, move, hsince⟩ := h.pending p hp
    simp only [Run.skips, Bool.and_eq_true, Option.any_eq_true, decide_eq_true_eq] at hskips
    obtain ⟨-, l, hl, hn⟩ := hskips
    have := hsince.notSkipped l hl
    have := hsince.before
    omega
  | creates hkind hok => exact hsucceeded
  | includes hkind hsource hskips hok => exact hsucceeded
  | transfers hkind hsource hexists hok =>
    exact h.transferred hop hkind hsource (tryTransfer_cases hok)
  | falls hmarked houtcome => exact h.fallen hop hmarked _ _

/-- **The moves that end at an operation are completed.** -/
theorem Done.settle {n : Nat} {run : Run} (h : Done plan (n + 1) run) (s : σ) :
    Reached plan (n + 1) (runFrom s (settleMoves b n run)).1 := by
  obtain ⟨added, hsettled⟩ := settleMoves_eq b n run s
  rw [hsettled]
  refine ⟨⟨h.size, h.skipping, ?_, fun p hp ↦ ?_⟩, fun p hp ↦ ?_⟩
  · exact (List.length_filter_le _ _).trans h.single
  · obtain ⟨i, op, hsince⟩ := h.pending p (List.mem_filter.mp hp).1
    exact ⟨i, op, { hsince with }⟩
  · obtain ⟨i, op, hsince⟩ := h.pending p (List.mem_filter.mp hp).1
    have hne : p.last ≠ n := by simpa using (List.mem_filter.mp hp).2
    have := hsince.upTo
    omega

/-- The run starts with the warnings of the plan and nothing else. -/
theorem start_eq (plan : Plan) : start plan =
    { warnings := (plan.warnings.map fun found ↦ ⟨found.1.target, found.2⟩).toArray } := by
  have hfold : ∀ (l : List (Operation × String)) (run : Run),
      l.foldl (fun run found ↦ run.warn found.1.target found.2) run =
        { run with
          warnings := run.warnings ++ (l.map fun found ↦ ⟨found.1.target, found.2⟩).toArray } := by
    intro l
    induction l with
    | nil => simp
    | cons found l ih =>
      intro run
      rw [List.foldl_cons, ih]
      simp [Run.warn]
  rw [start, hfold]
  simp

/-- **What holds at every position of a run.** -/
theorem reached_runBefore (b : Backend (StateM σ)) (plan : Plan) (s : σ) {n : Nat}
    (hn : n ≤ plan.operations.length) : Reached plan n (runFrom s (runBefore b plan n)).1 := by
  refine runBefore_induction (fun n run _ ↦ Reached plan n run) ?_ (fun n op run s' hop h ↦ ?_) hn
  · rw [start_eq]
    exact ⟨⟨rfl, nofun, Nat.zero_le 1, nofun⟩, nofun⟩
  · exact (h.step hop (step_cases b plan n op run s')).settle _

/-! ### What a run keeps -/

/-- The log and the warnings of a run are continued. -/
structure Continues (run run' : Run) : Prop where
  log : ∃ more, run'.log = run.log ++ more
  warnings : ∃ more, run'.warnings = run.warnings ++ more

theorem Continues.refl (run : Run) : Continues run run := ⟨⟨#[], by simp⟩, ⟨#[], by simp⟩⟩

theorem Continues.trans {run run' run'' : Run} (h : Continues run run')
    (h' : Continues run' run'') : Continues run run'' := by
  obtain ⟨⟨log, hlog⟩, ⟨warnings, hwarnings⟩⟩ := h
  obtain ⟨⟨log', hlog'⟩, ⟨warnings', hwarnings'⟩⟩ := h'
  exact ⟨⟨log ++ log', by simp [hlog, hlog']⟩,
    ⟨warnings ++ warnings', by simp [hwarnings, hwarnings']⟩⟩

/-- An operation adds one entry to the log. -/
theorem Steps.log_eq {i : Nat} {op : Operation} {run run' : Run} {s s' : σ}
    (h : Steps b plan i op run s run' s') :
    ∃ outcome, run'.log = run.log.push (op.logged outcome) := by
  cases h with
  | skips => exact ⟨.skipped, rfl⟩
  | creates => exact ⟨.succeeded, rfl⟩
  | transfers => exact ⟨.succeeded, rfl⟩
  | includes => exact ⟨.succeeded, rfl⟩
  | falls hmarked houtcome =>
    rename_i outcome
    refine ⟨outcome, ?_⟩
    cases hmarked <;> rfl

theorem Steps.continues {i : Nat} {op : Operation} {run run' : Run} {s s' : σ}
    (h : Steps b plan i op run s run' s') : Continues run run' := by
  obtain ⟨outcome, hlog⟩ := h.log_eq
  refine ⟨⟨#[op.logged outcome], by rw [hlog]; simp⟩, ?_⟩
  cases h with
  | skips => exact ⟨#[], by simp [Run.record]⟩
  | creates => exact ⟨#[], by simp [Run.record]⟩
  | transfers => exact ⟨#[], by simp [Run.record]⟩
  | includes => exact ⟨#[], by simp [Run.record]⟩
  | falls hmarked houtcome =>
    rename_i message _
    refine ⟨#[⟨op.target, message⟩], ?_⟩
    cases hmarked <;> simp [Run.record, Run.warn, Run.skippingThrough, Run.spoil]

theorem continues_settleMoves (i : Nat) (run : Run) (s : σ) :
    Continues run (runFrom s (settleMoves b i run)).1 := by
  obtain ⟨added, hsettled⟩ := settleMoves_eq b i run s
  rw [hsettled]
  exact ⟨⟨#[], by simp⟩, ⟨added, rfl⟩⟩

theorem continues_advance (n : Nat) (op : Operation) (run : Run) (s : σ) :
    Continues run (runFrom s (advance b plan run (op, n))).1 :=
  (step_cases b plan n op run s).continues.trans (continues_settleMoves n _ _)

/-- **A run only adds to its log and its warnings.** -/
theorem continues_runBefore (b : Backend (StateM σ)) (plan : Plan) (s : σ) {n n' : Nat}
    (h : n ≤ n') (hn' : n' ≤ plan.operations.length) :
    Continues (runFrom s (runBefore b plan n)).1 (runFrom s (runBefore b plan n')).1 := by
  induction n', h using Nat.le_induction with
  | base => exact .refl _
  | succ n' h ih =>
    obtain ⟨op, hop⟩ : ∃ op, plan.operations[n']? = some op :=
      ⟨_, List.getElem?_eq_getElem hn'⟩
    rw [runBefore_succ b plan hop, runFrom_bind]
    exact (ih (Nat.le_of_succ_le hn')).trans (continues_advance n' op _ _)

/-- The report continues the log that the step at a position has left. -/
theorem report_log_of_step (b : Backend (StateM σ)) (plan : Plan) (s : σ) {n : Nat} {op : Operation}
    (hop : plan.operations[n]? = some op) :
    ∃ more, (runFrom s (executePlan b plan)).1.log =
      (runFrom (runFrom s (runBefore b plan n)).2
        (step b plan n op (runFrom s (runBefore b plan n)).1)).1.log.toList ++ more := by
  have hn : n < plan.operations.length := (List.getElem?_eq_some_iff.mp hop).1
  have hlater := continues_runBefore b plan s hn le_rfl
  rw [runBefore_succ b plan hop, runFrom_bind] at hlater
  simp only [advance, runFrom_bind] at hlater
  obtain ⟨more, hmore⟩ := ((continues_settleMoves n _ _).trans hlater).log
  refine ⟨more.toList, ?_⟩
  rw [executePlan_eq, runFrom_bind, runFrom_pure, Run.report, hmore]
  exact Array.toList_append

/-- **The entry of an operation in the report is the one that its step has logged.** -/
theorem report_log_eq (b : Backend (StateM σ)) (plan : Plan) (s : σ) {n : Nat} {op : Operation}
    (hop : plan.operations[n]? = some op) :
    (runFrom s (executePlan b plan)).1.log[n]? =
      (runFrom (runFrom s (runBefore b plan n)).2
        (step b plan n op (runFrom s (runBefore b plan n)).1)).1.log[n]? := by
  have hn : n < plan.operations.length := (List.getElem?_eq_some_iff.mp hop).1
  have hsize := (reached_runBefore b plan s (Nat.le_of_lt hn)).size
  obtain ⟨more, hmore⟩ := report_log_of_step b plan s hop
  obtain ⟨outcome, hlog⟩ := (step_cases b plan n op (runFrom s (runBefore b plan n)).1
    (runFrom s (runBefore b plan n)).2).log_eq
  rw [hmore, List.getElem?_append_left, Array.getElem?_toList]
  rw [Array.length_toList, hlog, Array.size_push]
  omega

/-! ### Success -/

theorem outcome_of_push {log : Array LogEntry} {op : Operation} {outcome outcome' : Outcome}
    (h : log.push (op.logged outcome) = log.push (op.logged outcome')) : outcome = outcome' :=
  congrArg LogEntry.outcome (Array.push_inj_right.mp h)

/-- A transfer that is logged as succeeded was neither skipped nor has it fallen back. -/
theorem Steps.of_succeeded {i : Nat} {op : Operation} {run run' : Run} {s s' : σ}
    (h : Steps b plan i op run s run' s')
    (hlog : run'.log = run.log.push (op.logged .succeeded)) {source : Path}
    (hkind : op.kind = .copy ∨ op.kind = .move) (hsource : op.source = some source) :
    ∃ pending s₁, runFrom s (b.exists_ source) = (true, s₁) ∧
      Transfers b (plan.includedEnd? i) op source s₁ pending s' ∧
      run' = { run with pending := run.pending ++ pending.toList }.record op .succeeded := by
  cases h with
  | skips =>
    cases outcome_of_push hlog
  | creates hcreate =>
    rcases hkind with hkind | hkind <;> simp [hkind, hsource] at hcreate
  | includes hincluded =>
    rcases hkind with hkind | hkind <;> simp [hkind] at hincluded
  | falls hmarked houtcome =>
    have hsucceeded := outcome_of_push (by cases hmarked <;> exact hlog)
    rcases houtcome with rfl | rfl <;> cases hsucceeded
  | transfers _ hsource' hexists hok =>
    obtain rfl := Option.some.inj (hsource.symm.trans hsource')
    exact ⟨_, _, hexists, tryTransfer_cases hok, rfl⟩

/-- An included operation that is logged as succeeded has been done. -/
theorem Steps.of_included {i : Nat} {op : Operation} {run run' : Run} {s s' : σ}
    (h : Steps b plan i op run s run' s')
    (hlog : run'.log = run.log.push (op.logged .succeeded)) {source : Path}
    (hkind : op.kind = .included) (hsource : op.source = some source) :
    runFrom s (tryInclude b op source).run = (.ok (), s') ∧ run' = run.record op .succeeded := by
  cases h with
  | skips =>
    cases outcome_of_push hlog
  | creates hcreate => simp [hkind, hsource] at hcreate
  | transfers hown => simp [hkind] at hown
  | falls hmarked houtcome =>
    have hsucceeded := outcome_of_push (by cases hmarked <;> exact hlog)
    rcases houtcome with rfl | rfl <;> cases hsucceeded
  | includes _ hsource' _ hok =>
    obtain rfl := Option.some.inj (hsource.symm.trans hsource')
    exact ⟨hok, rfl⟩

/-- **An operation that is not skipped has succeeded**, or there is a warning. -/
theorem Steps.succeeded_of_quiet {i : Nat} {op : Operation} {run run' : Run} {s s' : σ}
    (h : Steps b plan i op run s run' s') (hskips : run.skips i op = false)
    (hquiet : run'.warnings = #[]) : run'.log = run.log.push (op.logged .succeeded) := by
  cases h with
  | skips hskips' =>
    rw [hskips] at hskips'
    cases hskips'
  | creates => rfl
  | transfers => rfl
  | includes => rfl
  | falls => simp [Run.record, Run.warn] at hquiet

theorem Continues.quiet {run run' : Run} (h : Continues run run') (hquiet : run'.warnings = #[]) :
    run.warnings = #[] := by
  obtain ⟨more, hmore⟩ := h.warnings
  rw [hquiet] at hmore
  exact (Array.append_eq_empty_iff.mp hmore.symm).1

/-- A run whose report has no warnings has none at any position. -/
theorem quiet_runBefore {s : σ} (hquiet : (runFrom s (executePlan b plan)).1.warnings = [])
    {n : Nat} (hn : n ≤ plan.operations.length) :
    (runFrom s (runBefore b plan n)).1.warnings = #[] := by
  refine (continues_runBefore b plan s hn le_rfl).quiet ?_
  rw [executePlan_eq, runFrom_bind] at hquiet
  simpa [Run.report] using hquiet

/-! ### Nothing and one to complete -/

/-- Where no pending move ends there is nothing to complete. -/
theorem settleMoves_of_ahead (i : Nat) {run : Run} (h : ∀ p ∈ run.pending, p.last ≠ i) (s : σ) :
    runFrom s (settleMoves b i run) = (run, s) := by
  have hnone : run.pending.filter (·.last == i) = [] := by
    simpa [List.filter_eq_nil_iff] using h
  have hall : run.pending.filter (fun p ↦ !(p.last == i)) = run.pending := by
    simpa [List.filter_eq_self] using h
  simp only [settleMoves, List.partition_eq_filter_filter, hnone, Function.comp_def, hall]
  rfl

/-- **A plan of one operation** is executed by that alone, because no move ends where it begins. -/
theorem runFrom_executePlan_single (b : Backend (StateM σ)) {op : Operation}
    (hplan : plan.operations = [op]) (s : σ) :
    let next := runFrom s (step b plan 0 op (start plan))
    runFrom s (executePlan b plan) = (next.1.report plan, next.2) := by
  intro next
  have hop : plan.operations[0]? = some op := by simp [hplan]
  have hdone : Done plan 1 next.1 :=
    (reached_runBefore b plan s (Nat.zero_le _)).step hop (step_cases b plan 0 op (start plan) s)
  have hahead : ∀ p ∈ next.1.pending, p.last ≠ 0 := by
    intro p hp
    obtain ⟨i, move, hsince⟩ := hdone.pending p hp
    exact Nat.ne_of_gt (Nat.zero_lt_of_lt (includedEnd?_spec hsince.last_eq).1)
  simp only [runFrom_executePlan (by simp [hplan]) hop s, runBefore_zero, runFrom_pure]
  rw [settleMoves_of_ahead 0 hahead]

/-- The only pending move is settled where it ends. -/
theorem settleMoves_of_single {i : Nat} {run : Run} {p : PendingMove} (hpending : run.pending = [p])
    (hlast : p.last = i) (s : σ) :
    runFrom s (settleMoves b i run) = runFrom s (settle b { run with pending := [] } p) := by
  simp only [settleMoves, hpending, List.partition_eq_filter_filter]
  simp [hlast]

/-- **An intact move** has its source removed, and only the report can tell whether that failed. -/
theorem settle_of_intact {run : Run} {p : PendingMove} (h : p.intact = true) (s : σ) :
    (runFrom s (settle b run p)).2 = (runFrom s (b.rm p.source true).run).2 := by
  simp only [settle, if_pos h, runFrom_bind]
  rcases runFrom s (b.rm p.source true).run with ⟨e | ⟨⟩, s'⟩ <;> rfl

/-- An intact move that is settled without a warning has had its source removed. -/
theorem settle_of_quiet {run : Run} {p : PendingMove} (h : p.intact = true) {s : σ}
    (hquiet : (runFrom s (settle b run p)).1.warnings = #[]) :
    (runFrom s (b.rm p.source true).run).1 = .ok () := by
  simp only [settle, if_pos h, runFrom_bind] at hquiet
  rcases hrm : runFrom s (b.rm p.source true).run with ⟨e | ⟨⟩, s'⟩
  · rw [hrm] at hquiet
    simp [Run.warn] at hquiet
  · rfl

/-- Settling moves of which none is intact changes nothing. -/
theorem settleMoves_of_spoiled (i : Nat) {run : Run} (h : ∀ p ∈ run.pending, p.intact = false)
    (s : σ) : (runFrom s (settleMoves b i run)).2 = s := by
  have hfold : ∀ (done : List PendingMove) (run : Run), (∀ p ∈ done, p.intact = false) →
      (runFrom s (done.foldlM (settle b) run)).2 = s := by
    intro done
    induction done with
    | nil => exact fun _ _ ↦ rfl
    | cons p done ih =>
      intro run hdone
      obtain ⟨hp, hrest⟩ := List.forall_mem_cons.mp hdone
      rw [List.foldlM_cons, runFrom_bind]
      simp only [settle, hp, Bool.false_eq_true, if_false, runFrom_pure]
      exact ih _ hrest
  simp only [settleMoves, List.partition_eq_filter_filter]
  exact hfold _ _ fun p hp ↦ h p (List.mem_filter.mp hp).1

end Scaffold.Execution
