import Scaffold.Proofs.Store.Frame
import Scaffold.Proofs.Transfer.Cleanup

/-!
# What the calls of a run keep

A run reaches its state through the calls of the backend and through nothing else. So if every call
keeps a preorder on what is seen of the state, the preorder holds between the beginning and every
position of the run (`related_runBefore`, `related_executePlan`), whatever the calls answer and
wherever they fail.

For the calls that create and copy, nothing is demanded but at the places of the operation that
makes them (`Keeps`). For those that remove, nothing is demanded but in the states in which a run
does remove something: when a file has been copied, when a directory has been copied as a whole
(`KeepsRemoving`), or behind the last included operation of a moved directory (`Removes`).
-/

namespace Scaffold.Execution

/-! ### Where an operation works -/

/-- The places of an operation: its target and, when it is a transfer, what is below. -/
def Places (op : Operation) (q : Path) : Prop :=
  q ≈ op.target ∨ (op.kind = .copy ∨ op.kind = .move) ∧ q.startsWith op.target = true

section Copying

variable {m : Type → Type} [Monad m] (b : Backend m) (op : Operation) (source : Path)

/-- All that a transfer does for a file, as long as it is not removed where it was. -/
def copyFound : Attempt m Unit := do
  let _ ← b.exists_ source
  let _ ← b.stat source
  ensureParent b op.target
  b.copyFile source op.target

/-- All that a transfer does for a directory, as long as it is not removed where it was. -/
def copyFolderFound : Attempt m Unit := do
  let _ ← b.exists_ source
  let _ ← b.stat source
  b.copyFolder source op.target

end Copying

variable {σ ν : Type}

/-- What asks, creates or copies for an operation keeps the relation. -/
structure Keeps (b : Backend (StateM σ)) (view : σ → ν) (R : ν → ν → Prop) (op : Operation) :
    Prop where
  exists_ : ∀ p s, R (view s) (view (runFrom s (b.exists_ p)).2)
  byCalls : b.ByCalls
  stat : ∀ p, Leads view R (b.stat p)
  list : ∀ p, Leads view R (b.list p)
  mkdir : ∀ p, Places op p ∨ p.parts <+: op.target.parts → Leads view R (b.mkdir p true)
  write : ∀ p bytes, Places op p → Leads view R (b.write p bytes)
  copyFile : ∀ source p, Places op p → Leads view R (b.copyFile source p)

/-- What removes the source of an operation that starts in the state `s` keeps the relation, when
the source has been copied. -/
structure KeepsRemoving (b : Backend (StateM σ)) (view : σ → ν) (R : ν → ν → Prop) (op : Operation)
    (s : σ) : Prop where
  unlink : ∀ source s', op.kind = .move → op.source = some source →
    runFrom s (copyFound b op source).run = (.ok (), s') →
    R (view s') (view (runFrom s' (b.unlink source).run).2)
  rm : ∀ source s', op.kind = .move → op.source = some source →
    runFrom s (copyFolderFound b op source).run = (.ok (), s') →
    R (view s') (view (runFrom s' (b.rm source true).run).2)

variable {b : Backend (StateM σ)} {view : σ → ν} {R : ν → ν → Prop} {op : Operation}
  {source : Path} [Std.Refl R] [IsTrans ν R]

/-! ### Creating and copying -/

namespace Keeps

variable (h : Keeps b view R op)
include h

omit [Std.Refl R] [IsTrans ν R] in
theorem existsAs (p : Path) (kind : EntryKind) (s : σ) :
    R (view s) (view (runFrom s (b.existsAs p kind)).2) := by
  have hstat := h.stat p s
  simp only [Calls.existsAs, runFrom_bind]
  split <;> exact hstat

theorem ensureDir {p : Path} (hp : Places op p ∨ p.parts <+: op.target.parts) :
    Leads view R (b.ensureDir p) := by
  refine .bind (.ask (h.existsAs p .directory)) fun there ↦ ?_
  split
  · exact .pure _
  · exact h.mkdir p hp

theorem ensureTarget : Leads view R (b.ensureDir op.target) := h.ensureDir (.inl (.inl rfl))

theorem ensureParent : Leads view R (ensureParent b op.target) := by
  unfold Execution.ensureParent
  split
  · rename_i parent hparent
    split
    · exact .pure _
    · refine h.ensureDir (.inr ?_)
      rw [(Path.parent?_eq_some hparent).1]
      exact List.dropLast_prefix _
  · exact .pure _

omit [Std.Refl R] [IsTrans ν R] in
theorem copyTarget (source : Path) : Leads view R (b.copyFile source op.target) :=
  h.copyFile source op.target (.inl rfl)

/-- An empty entry is made at the target. -/
theorem makeEmpty : Leads view R (makeEmpty b op) := by
  unfold Execution.makeEmpty
  split
  · exact h.ensureTarget
  · exact .bind h.ensureParent fun _ ↦ h.write _ _ (.inl rfl)

/-- An entry is carried along to the target. -/
theorem tryInclude (source : Path) : Leads view R (tryInclude b op source) := by
  refine .bind (.ask (h.exists_ source)) fun there ↦ ?_
  split
  · split
    · exact h.ensureTarget
    · exact .bind h.ensureParent fun _ ↦ h.copyTarget source
  · exact .throw _

/-- A directory is copied to a place below which everything is a place of the operation. -/
theorem copyFolderWithin (depth : Nat) {source target : Path}
    (htarget : ∀ q : Path, q.startsWith target = true → Places op q) :
    Leads view R (b.copyFolderWithin depth source target) := by
  induction depth generalizing source target with
  | zero => exact .throw _
  | succ depth ih =>
    have hchild : ∀ (name : EntryName) (q : Path), q.startsWith (target.child name) = true →
        Places op q := by
      intro name q hq
      rw [Path.startsWith_iff, Path.parts_child] at hq
      exact htarget q (Path.startsWith_iff.mpr ((List.prefix_append _ _).trans hq))
    have hself : ∀ p q : Path, p ≈ q → p.startsWith q = true := fun _ _ ↦ Path.startsWith_of_equiv
    rw [Calls.copyFolderWithin_succ, Calls.copyFolderStep]
    refine .bind (h.ensureDir (.inl (htarget target (hself _ _ rfl)))) fun _ ↦
      .bind (h.list source) fun listing ↦ .bind (.forIn fun entry _ ↦ ?_) fun _ ↦ .pure _
    split
    · exact .bind (ih (hchild entry.name)) fun _ ↦ .pure _
    · exact .bind (h.copyFile _ _ (hchild entry.name _ (hself _ _ rfl))) fun _ ↦ .pure _

theorem copyFolder (hkind : op.kind = .copy ∨ op.kind = .move) (source : Path) :
    Leads view R (b.copyFolder source op.target) := by
  intro s
  obtain ⟨depth, hdepth⟩ := b.exists_copyFolderWithin source op.target s
  rw [h.byCalls.copyFolder_eq, hdepth]
  exact h.copyFolderWithin depth (fun _ hq ↦ .inr ⟨hkind, hq⟩) s

/-! ### One operation -/

theorem fallBack (reason : String) (run : Run) (s : σ) :
    R (view s) (view (runFrom s (fallBack b op reason run)).2) := by
  have hmade := h.makeEmpty s
  simp only [Execution.fallBack, runFrom_bind]
  split <;> exact hmade

theorem create (run : Run) (s : σ) : R (view s) (view (runFrom s (create b op run)).2) := by
  have hmade := h.makeEmpty s
  simp only [Execution.create, runFrom_bind]
  split <;> exact hmade

theorem include_ (i : Nat) (source : Path) (run : Run) (s : σ) :
    R (view s) (view (runFrom s (include_ b i op source run)).2) := by
  have htry := h.tryInclude source s
  simp only [Execution.include_, runFrom_bind]
  split
  · exact htry
  · exact IsTrans.trans _ _ _ htry (h.fallBack _ _ _)

/-- A transfer of what was asked for in the state `s` removes it only when it has been copied. -/
theorem tryTransfer (hkind : op.kind = .copy ∨ op.kind = .move) (hsource : op.source = some source)
    {s : σ} (hremoving : KeepsRemoving b view R op s) (last? : Option Nat) :
    let asked := (runFrom s (b.exists_ source)).2
    R (view asked) (view (runFrom asked (tryTransfer b last? op source).run).2) := by
  intro asked
  have hasked : runFrom s (liftM (b.exists_ source) : Attempt (StateM σ) Bool).run =
      (.ok (runFrom s (b.exists_ source)).1, asked) := rfl
  refine related_bind (h.stat source asked) fun found s₁ hstat ↦ ?_
  split
  · refine related_bind (h.ensureParent s₁) fun _ s₂ hparent ↦
      related_bind (h.copyTarget source s₂) fun _ s₃ hcopy ↦ ?_
    have hcopied : runFrom s (copyFound b op source).run = (.ok (), s₃) :=
      run_bind_eq_ok_iff.mpr ⟨_, _, hasked, run_bind_eq_ok_iff.mpr ⟨_, _, hstat,
        run_bind_eq_ok_iff.mpr ⟨_, _, hparent, hcopy⟩⟩⟩
    dsimp only
    split
    · exact related_bind (hremoving.unlink source s₃ ‹_› hsource hcopied) fun _ _ _ ↦ refl _
    · exact refl _
  · dsimp only
    split
    · exact refl _
    · split
      · exact (Leads.bind h.ensureTarget fun _ ↦ .pure _) s₁
      · split
        · refine related_bind ?_ fun _ _ _ ↦ refl _
          rw [h.byCalls.moveFolder_eq]
          refine related_bind (h.copyFolder hkind source s₁) fun _ s₂ hcopy ↦ ?_
          have hcopied : runFrom s (copyFolderFound b op source).run = (.ok (), s₂) :=
            run_bind_eq_ok_iff.mpr ⟨_, _, hasked, run_bind_eq_ok_iff.mpr ⟨_, _, hstat, hcopy⟩⟩
          exact hremoving.rm source s₂ ‹_› hsource hcopied
        · exact (Leads.bind (h.copyFolder hkind source) fun _ ↦ .pure _) s₁

theorem transfer (hkind : op.kind = .copy ∨ op.kind = .move) (hsource : op.source = some source)
    {s : σ} (hremoving : KeepsRemoving b view R op s) (plan : Plan) (i : Nat) (run : Run) :
    R (view s) (view (runFrom s (transfer b plan i op source run)).2) := by
  have hreason : R (view s)
      (view (runFrom s (transferReason b (plan.includedEnd? i) op source)).2) := by
    have hasked := h.exists_ source s
    have htry := h.tryTransfer hkind hsource hremoving (plan.includedEnd? i)
    simp only [transferReason, runFrom_bind]
    split
    · simp only [runFrom_bind]
      split <;> exact IsTrans.trans _ _ _ hasked htry
    · exact hasked
  simp only [Execution.transfer, runFrom_bind]
  split
  · exact hreason
  · split <;> exact IsTrans.trans _ _ _ hreason (h.fallBack _ _ _)

/-- **What the calls of an operation keep, the operation keeps.** -/
theorem step {s : σ} (hremoving : KeepsRemoving b view R op s) (plan : Plan) (i : Nat) (run : Run) :
    R (view s) (view (runFrom s (step b plan i op run)).2) := by
  unfold Execution.step
  split
  · exact refl _
  · split
    · exact h.create run s
    · exact h.create run s
    · exact h.transfer (.inl ‹_›) ‹_› hremoving plan i run
    · exact h.transfer (.inr ‹_›) ‹_› hremoving plan i run
    · exact h.include_ i _ run s

end Keeps

/-! ### The run -/

section Runs

variable {plan : Plan}

/-- Completing the moves that end with an operation only removes the sources of those that are
intact. -/
theorem related_settleMoves {s₀ : σ} {i : Nat} (hop : plan.operations[i]? = some op)
    (hsettled : ∀ p s, Removes b plan s₀ i p s →
      R (view s) (view (runFrom s (b.rm p.source true).run).2)) :
    let before := runFrom s₀ (runBefore b plan i)
    let stepped := runFrom before.2 (step b plan i op before.1)
    R (view stepped.2) (view (runFrom stepped.2 (settleMoves b i stepped.1)).2) := by
  intro before stepped
  simp only [settleMoves]
  set ending := stepped.1.pending.partition (·.last == i) with hending
  -- along the moves that end here, the state is the one that those in front have left
  refine (foldlM_induction (fun done run s ↦
    (run, s) = runFrom stepped.2 (done.foldlM (settle b) { stepped.1 with pending := ending.2 }) ∧
      R (view stepped.2) (view s)) ending.1 (fun done p rest run s hsplit h ↦ ⟨?_, ?_⟩) stepped.2
      ⟨rfl, refl _⟩).2
  · rw [List.foldlM_append, runFrom_bind, ← h.1, List.foldlM_cons, runFrom_bind]
    rfl
  · refine IsTrans.trans _ _ _ h.2 ?_
    rcases hintact : p.intact with - | -
    · simp only [settle, hintact, Bool.false_eq_true, if_false, runFrom_pure]
      exact refl _
    · rw [settle_of_intact hintact]
      exact hsettled p s ⟨op, done, rest, hop, hsplit, hintact, congrArg Prod.snd h.1⟩

/-- **What the calls of a run keep, the run keeps**, up to every position. -/
theorem related_runBefore (s₀ : σ) (hkeeps : ∀ op ∈ plan.operations, Keeps b view R op)
    (hremoving : ∀ i op, plan.operations[i]? = some op →
      KeepsRemoving b view R op (runFrom s₀ (runBefore b plan i)).2)
    (hsettled : ∀ i p s, Removes b plan s₀ i p s →
      R (view s) (view (runFrom s (b.rm p.source true).run).2))
    {n : Nat} (hn : n ≤ plan.operations.length) :
    R (view s₀) (view (runFrom s₀ (runBefore b plan n)).2) := by
  induction n with
  | zero => exact refl _
  | succ n ih =>
    obtain ⟨op, hop⟩ : ∃ op, plan.operations[n]? = some op := ⟨_, List.getElem?_eq_getElem hn⟩
    have hstep := (hkeeps op (List.mem_of_getElem? hop)).step (hremoving n op hop) plan n
      (runFrom s₀ (runBefore b plan n)).1
    have hsettle := related_settleMoves hop (hsettled n)
    rw [runBefore_succ b plan hop, runFrom_bind]
    simp only [advance, runFrom_bind]
    exact IsTrans.trans _ _ _ (ih (Nat.le_of_succ_le hn)) (IsTrans.trans _ _ _ hstep hsettle)

theorem related_executePlan (s₀ : σ) (hkeeps : ∀ op ∈ plan.operations, Keeps b view R op)
    (hremoving : ∀ i op, plan.operations[i]? = some op →
      KeepsRemoving b view R op (runFrom s₀ (runBefore b plan i)).2)
    (hsettled : ∀ i p s, Removes b plan s₀ i p s →
      R (view s) (view (runFrom s (b.rm p.source true).run).2)) :
    R (view s₀) (view (runFrom s₀ (executePlan b plan)).2) := by
  rw [executePlan_eq, runFrom_bind]
  exact related_runBefore s₀ hkeeps hremoving hsettled le_rfl

end Runs

end Scaffold.Execution
