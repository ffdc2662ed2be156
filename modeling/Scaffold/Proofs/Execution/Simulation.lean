import Scaffold.Execution
import Scaffold.Proofs.Recursion

/-!
# Backends that answer alike

A run asks its backend and nothing else, so if the calls of one backend are related to those of
another, every run on the one is related to the run on the other (`Backend.Matches.executePlan`).
Folders are only ever transferred to places that do not lie in them, so for the calls that do this
it is enough that they are related there.

A computation reproduces another one through a view of its states when it answers the same, and
leaves a state in which the state that the other one leaves is seen (`Reproduces`). What a backend
keeps beyond its answers, such as a note of the calls, makes no difference to what is reported
(`ReproducesCalls.executePlan`).
-/

namespace Scaffold

/-! ### Related runs -/

section Related

open Execution

variable {m n : Type → Type} [Monad m] [Monad n] [LawfulMonad m] [LawfulMonad n]
  {r : Lockstep m n} {b' : Backend m} {b : Backend n}

namespace Backend.Matches

variable (h : b'.Matches r b)
include h

theorem ensureParent (p : Path) : r.TrySame (ensureParent b' p) (ensureParent b p) := by
  unfold Execution.ensureParent
  cases p.parent? with
  | none => exact .pure trivial
  | some parent =>
    dsimp only
    split
    · exact .pure trivial
    · exact h.ensureDir parent

/-! ### Operations -/

theorem makeEmpty (op : Operation) : r.TrySame (makeEmpty b' op) (makeEmpty b op) := by
  unfold Execution.makeEmpty
  cases op.isDirectory with
  | true => exact h.ensureDir op.target
  | false => exact .bind (h.ensureParent op.target) fun _ _ ↦ h.write _ _

theorem fallBack (op : Operation) (reason : String) (run : Run) :
    r.Same (fallBack b' op reason run) (fallBack b op reason run) := by
  refine .bind (h.makeEmpty op) fun made _ ↦ ?_
  cases made <;> exact .pure trivial

theorem create (op : Operation) (run : Run) : r.Same (create b' op run) (create b op run) := by
  refine .bind (h.makeEmpty op) fun made _ ↦ ?_
  cases made <;> exact .pure trivial

theorem tryInclude (op : Operation) (source : Path) :
    r.TrySame (tryInclude b' op source) (tryInclude b op source) := by
  refine .bind (.lift (h.exists_ source)) fun there _ ↦ ?_
  cases there with
  | false => exact .throw _
  | true =>
    cases op.isDirectory with
    | true => exact h.ensureDir op.target
    | false => exact .bind (h.ensureParent op.target) fun _ _ ↦ h.copyFile source op.target

theorem include_ (i : Nat) (op : Operation) (source : Path) (run : Run) :
    r.Same (include_ b' i op source run) (include_ b i op source run) := by
  refine .bind (h.tryInclude op source) fun done _ ↦ ?_
  cases done with
  | ok => exact .pure trivial
  | error e => exact h.fallBack op _ _

omit [LawfulMonad m] [LawfulMonad n] in
theorem settle (run : Run) (p : PendingMove) : r.Same (settle b' run p) (settle b run p) := by
  unfold Execution.settle
  cases p.intact with
  | false => exact .pure trivial
  | true =>
    refine .bind (h.rm p.source true) fun done _ ↦ ?_
    cases done <;> exact .pure trivial

/-- A folder is transferred as a whole only behind the check that the target does not lie in it. -/
theorem tryTransfer (last? : Option Nat) (op : Operation) (source : Path) :
    r.TrySame (tryTransfer b' last? op source) (tryTransfer b last? op source) := by
  refine .bind (h.stat source) fun found _ ↦ ?_
  cases found.kind with
  | file =>
    refine .bind (h.ensureParent op.target) fun _ _ ↦
      .bind (h.copyFile source op.target) fun _ _ ↦ ?_
    dsimp only
    split
    · exact .bind (h.unlink source) fun _ _ ↦ .pure trivial
    · exact .pure trivial
  | directory =>
    dsimp only
    split
    · exact .throw_bind _
    · rename_i houtside
      rw [Bool.not_eq_true] at houtside
      cases last? with
      | some last => exact .bind (h.ensureDir op.target) fun _ _ ↦ .pure trivial
      | none =>
        dsimp only
        split
        · exact .bind (h.moveFolder source op.target houtside) fun _ _ ↦ .pure trivial
        · exact .bind (h.copyFolder source op.target houtside) fun _ _ ↦ .pure trivial

theorem transfer (plan : Plan) (i : Nat) (op : Operation) (source : Path) (run : Run) :
    r.Same (transfer b' plan i op source run) (transfer b plan i op source run) := by
  have hreason : r.Same (transferReason b' (plan.includedEnd? i) op source)
      (transferReason b (plan.includedEnd? i) op source) := by
    refine .bind (h.exists_ source) fun there _ ↦ ?_
    cases there with
    | false => exact .pure trivial
    | true =>
      refine .bind (h.tryTransfer _ op source) fun done _ ↦ ?_
      cases done <;> exact .pure trivial
  refine .bind hreason fun done _ ↦ ?_
  cases done with
  | ok pending => exact .pure trivial
  | error reason =>
    cases plan.includedEnd? i with
    | none => exact h.fallBack op _ run
    | some last => exact h.fallBack op _ _

theorem step (plan : Plan) (i : Nat) (op : Operation) (run : Run) :
    r.Same (step b' plan i op run) (step b plan i op run) := by
  unfold Execution.step
  split
  · exact .pure trivial
  · split
    · exact h.create op run
    · exact h.create op run
    · exact h.transfer plan i op _ run
    · exact h.transfer plan i op _ run
    · exact h.include_ i op _ run

/-! ### The run -/

theorem advance (plan : Plan) (run : Run) (op : Operation × Nat) :
    r.Same (advance b' plan run op) (advance b plan run op) :=
  .bind (h.step plan op.2 op.1 run) fun _ _ ↦ Lockstep.Same.foldlM (fun p _ run ↦ h.settle run p) _

/-- **Runs on backends whose calls are related** are related. -/
theorem executePlan (plan : Plan) : r.Same (executePlan b' plan) (executePlan b plan) :=
  .bind (Lockstep.Same.foldlM (fun op _ run ↦ h.advance plan run op) _) fun _ _ ↦ .pure trivial

end Backend.Matches

end Related

/-! ### Runs seen through a view -/

variable {σ τ α β : Type}

/-- The computation `x` answers what `y` answers, and leaves what `y` leaves. -/
def Reproduces (view : τ → σ) (x : StateM τ α) (y : StateM σ α) : Prop :=
  ∀ t, runFrom (view t) y = ((runFrom t x).1, view (runFrom t x).2)

/-- The same for computations that can fail. -/
def ReproducesAttempt (view : τ → σ) (x : Attempt (StateM τ) α) (y : Attempt (StateM σ) α) : Prop :=
  Reproduces view x.run y.run

/-- The calls on one store reproduce those on another. -/
structure ReproducesCalls (view : τ → σ) (c' : Calls (StateM τ)) (c : Calls (StateM σ)) : Prop where
  exists_ : ∀ p, Reproduces view (c'.exists_ p) (c.exists_ p)
  mkdir : ∀ p recursive, ReproducesAttempt view (c'.mkdir p recursive) (c.mkdir p recursive)
  write : ∀ p bytes, ReproducesAttempt view (c'.write p bytes) (c.write p bytes)
  stat : ∀ p, ReproducesAttempt view (c'.stat p) (c.stat p)
  list : ∀ p, ReproducesAttempt view (c'.list p) (c.list p)
  rm : ∀ p recursive, ReproducesAttempt view (c'.rm p recursive) (c.rm p recursive)
  unlink : ∀ p, ReproducesAttempt view (c'.unlink p) (c.unlink p)
  copyFile : ∀ source target,
    ReproducesAttempt view (c'.copyFile source target) (c.copyFile source target)

/-- Sequences reproduce each other when their parts do. -/
def reproducing (view : τ → σ) : Lockstep (StateM τ) (StateM σ) where
  rel answers x y := Reproduces view x y ∧ ∀ t, answers (runFrom t x).1
  pure h := ⟨fun _ ↦ rfl, fun _ ↦ h⟩
  bind hx hf := by
    refine ⟨fun t ↦ ?_, fun t ↦ (hf _ (hx.2 t)).2 _⟩
    rw [runFrom_bind, runFrom_bind, hx.1 t]
    exact (hf _ (hx.2 t)).1 _

/-- Attempts have an outcome together, so recursions reproduce each other. -/
theorem reproducing_recurses (view : τ → σ) : (reproducing view).Recurses := by
  intro ι α endless step' step hattempts i
  refine ⟨fun t ↦ ?_, fun _ ↦ trivial⟩
  have houtcomes : (fun depth ↦ settled (runFrom (view t) (attempt step depth i).run)) =
      fun depth ↦ (settled (runFrom t (attempt step' depth i).run)).map
        fun (a, t) ↦ (a, view t) := by
    funext depth
    have hattempt : Reproduces view (attempt step' depth i).run (attempt step depth i).run :=
      (hattempts depth i).1
    rw [hattempt t]
    rcases runFrom t (attempt step' depth i).run with ⟨- | a, t'⟩ <;> rfl
  rw [runFrom_follow, runFrom_follow, houtcomes, firstOutcome_map]
  cases firstOutcome fun depth ↦ settled (runFrom t (attempt step' depth i).run) <;> rfl

namespace ReproducesCalls

variable {view : τ → σ} {c' : Calls (StateM τ)} {c : Calls (StateM σ)}
  (h : ReproducesCalls view c' c)
include h

theorem calls_match : c'.Matches (reproducing view) c where
  exists_ p := ⟨h.exists_ p, fun _ ↦ trivial⟩
  mkdir p recursive := ⟨h.mkdir p recursive, fun _ _ _ ↦ trivial⟩
  write p bytes := ⟨h.write p bytes, fun _ _ _ ↦ trivial⟩
  stat p := ⟨h.stat p, fun _ _ _ ↦ trivial⟩
  list p := ⟨h.list p, fun _ _ _ ↦ trivial⟩
  rm p recursive := ⟨h.rm p recursive, fun _ _ _ ↦ trivial⟩
  unlink p := ⟨h.unlink p, fun _ _ _ ↦ trivial⟩
  copyFile source target := ⟨h.copyFile source target, fun _ _ _ ↦ trivial⟩

/-- **Runs on stores that answer alike report the same**, and leave the same. -/
theorem executePlan (plan : Plan) : Reproduces view (Execution.executePlan c'.backend plan)
    (Execution.executePlan c.backend plan) :=
  ((h.calls_match.backend (reproducing_recurses view)).executePlan plan).1

end ReproducesCalls

end Scaffold
