import Mathlib.Data.Nat.Find
import Scaffold.Proofs.Lockstep
import Scaffold.Proofs.Stateful

/-!
# Recursions that end, and recursions that need not

In `StateT σ Option` a computation may answer nothing, which stands for one that does not end; so
there a recursion without a bound means what it says, and that it ends is an equation. A computation
in `StateM σ` always ends, and is found again among those that need not (`ended`). A recursion in
`StateM σ` that has an outcome in some attempt has the same answer in both (`returning_follow`).

A recursion can also be followed with a bound, with a given answer beyond it (`bounded`). Whatever
that answer is, an attempt that has an outcome has that of the bounded recursion
(`settles_attempt`), so a recursion in `StateM σ` is always one with some bound (`exists_bounded`),
and one that ends is so with every bound that is large enough (`follow_cases`).
-/

namespace Scaffold

variable {σ α β ι : Type}

/-! ### Attempts -/

section Search

variable {outcome : Nat → Option β} {k depth : Nat} {b : β}

theorem search_of_some (h : outcome k = some b) : (search outcome k).map (·.1) = some b := by
  unfold search
  rw [repeatM_eq_of_monadTail, repeatM.body]
  split
  all_goals simp_all

theorem search_of_none (h : outcome k = none) : search outcome k = search outcome (k + 1) := by
  unfold search
  rw [repeatM_eq_of_monadTail, repeatM.body]
  split
  all_goals simp_all

theorem search_of_first {more : Nat} (h : outcome (k + more) = some b)
    (hbefore : ∀ j < more, outcome (k + j) = none) : (search outcome k).map (·.1) = some b := by
  induction more generalizing k with
  | zero => exact search_of_some h
  | succ more ih =>
    have hnone : outcome k = none := hbefore 0 (Nat.succ_pos _)
    rw [search_of_none hnone]
    refine ih (by rwa [Nat.add_right_comm, Nat.add_assoc]) fun j hj ↦ ?_
    rw [Nat.add_right_comm, Nat.add_assoc]
    exact hbefore (j + 1) (Nat.succ_lt_succ hj)

theorem firstOutcome_of_first (hdepth : usualDepth ≤ depth) (h : outcome depth = some b)
    (hbefore : ∀ j, usualDepth ≤ j → j < depth → outcome j = none) :
    firstOutcome outcome = some b := by
  obtain ⟨more, rfl⟩ := Nat.exists_eq_add_of_le hdepth
  unfold firstOutcome
  rcases more with - | more
  · rw [Nat.add_zero] at h
    rw [h]
  · rw [hbefore usualDepth (Nat.le_refl _) (Nat.lt_add_of_pos_right (Nat.succ_pos _))]
    have hmore : outcome (usualDepth + (1 + more)) = some b := by rwa [Nat.add_comm 1]
    refine @search_of_first _ (fun more ↦ outcome (usualDepth + more)) 1 b more hmore fun j hj ↦
      hbefore _ (Nat.le_add_right _ _) ?_
    omega

theorem exists_first (hdepth : usualDepth ≤ depth) (h : outcome depth ≠ none) :
    ∃ first b, usualDepth ≤ first ∧ outcome first = some b ∧
      ∀ j, usualDepth ≤ j → j < first → outcome j = none := by
  classical
  have hexists : ∃ depth, usualDepth ≤ depth ∧ outcome depth ≠ none := ⟨depth, hdepth, h⟩
  obtain ⟨hfirst, hne⟩ := Nat.find_spec hexists
  obtain ⟨b, hb⟩ := Option.ne_none_iff_exists'.mp hne
  refine ⟨_, b, hfirst, hb, fun j hj hlt ↦ ?_⟩
  by_contra hne
  exact Nat.find_min hexists hlt ⟨hj, hne⟩

theorem firstOutcome_eq_none_iff :
    firstOutcome outcome = none ↔ ∀ depth, usualDepth ≤ depth → outcome depth = none := by
  constructor
  · intro h depth hdepth
    by_contra hne
    obtain ⟨first, b, hfirst, hb, hbefore⟩ := exists_first hdepth hne
    rw [firstOutcome_of_first hfirst hb hbefore] at h
    cases h
  · intro h
    unfold firstOutcome
    rw [h usualDepth (Nat.le_refl _)]
    rcases hsearch : search (fun more ↦ outcome (usualDepth + more)) 1 with - | ⟨b, more, hmore⟩
    · rfl
    · rw [h _ (Nat.le_add_right _ more)] at hmore
      cases hmore

/-- **The outcome** is that of the first attempt which has one, among those that go deep enough. -/
theorem firstOutcome_eq_some_iff : firstOutcome outcome = some b ↔
    ∃ depth, usualDepth ≤ depth ∧ outcome depth = some b ∧
      ∀ j, usualDepth ≤ j → j < depth → outcome j = none := by
  refine ⟨fun h ↦ ?_, fun ⟨depth, hdepth, h, hbefore⟩ ↦ firstOutcome_of_first hdepth h hbefore⟩
  obtain ⟨depth, hdepth, hne⟩ : ∃ depth, usualDepth ≤ depth ∧ outcome depth ≠ none := by
    by_contra hnone
    rw [firstOutcome_eq_none_iff.mpr fun depth hdepth ↦ by
      by_contra hne
      exact hnone ⟨depth, hdepth, hne⟩] at h
    cases h
  obtain ⟨first, b', hfirst, hb', hbefore⟩ := exists_first hdepth hne
  obtain rfl := Option.some.inj ((firstOutcome_of_first hfirst hb' hbefore).symm.trans h)
  exact ⟨first, hfirst, hb', hbefore⟩

theorem firstOutcome_map {γ : Type} (f : β → γ) (outcome : Nat → Option β) :
    firstOutcome (fun depth ↦ (outcome depth).map f) = (firstOutcome outcome).map f := by
  rcases h : firstOutcome outcome with - | b
  · rw [Option.map_none, firstOutcome_eq_none_iff]
    intro depth hdepth
    rw [firstOutcome_eq_none_iff.mp h depth hdepth, Option.map_none]
  · obtain ⟨depth, hdepth, hb, hbefore⟩ := firstOutcome_eq_some_iff.mp h
    rw [Option.map_some]
    exact firstOutcome_of_first hdepth (by rw [hb, Option.map_some])
      fun j hj hlt ↦ by rw [hbefore j hj hlt, Option.map_none]

end Search

/-! ### Recursions with a bound -/

/-- The recursion as far as it is followed a limited number of calls deep, with `endless` as the
answer of a call beyond that. -/
def bounded {m : Type → Type} [Monad m] (endless : ι → α) (step : (ι → m α) → ι → m α) :
    (depth : Nat) → ι → m α
  | 0, i => pure (endless i)
  | depth + 1, i => step (bounded endless step depth) i

/-- If the first computation has an outcome, it does the same as the second one. -/
def settles : Lockstep (OptionT (StateM σ)) (StateM σ) where
  rel answers x y := ∀ s a s', runFrom s x.run = (some a, s') → runFrom s y = (a, s') ∧ answers a
  pure h s a s' hrun := by
    obtain ⟨ha, rfl⟩ := Prod.mk.inj hrun
    obtain rfl := Option.some.inj ha
    exact ⟨rfl, h⟩
  bind {_ _ _ _ x y f g} hx hf s b s' hrun := by
    rw [OptionT.run_bind, Option.elimM, runFrom_bind] at hrun
    rcases hfirst : runFrom s x.run with ⟨- | a, s₁⟩
    · rw [hfirst] at hrun
      cases hrun
    · rw [hfirst] at hrun
      obtain ⟨hy, ha⟩ := hx s a s₁ hfirst
      rw [runFrom_bind, hy]
      exact hf a ha s₁ b s' hrun

theorem settles_lift (x : StateM σ α) : settles.Same (OptionT.lift x) x := by
  intro s a s' hrun
  obtain ⟨ha, hs'⟩ := Prod.mk.inj hrun
  exact ⟨Prod.ext (Option.some.inj ha) hs', trivial⟩

/-- The step of a recursion is the same where calls need not have an outcome. -/
def SameStep (stepOr : (ι → OptionT (StateM σ) α) → ι → OptionT (StateM σ) α)
    (step : (ι → StateM σ α) → ι → StateM σ α) : Prop :=
  ∀ againOr again, (∀ i, settles.Same (againOr i) (again i)) →
    ∀ i, settles.Same (stepOr againOr i) (step again i)

section Bounded

variable {stepOr : (ι → OptionT (StateM σ) α) → ι → OptionT (StateM σ) α}
  {step : (ι → StateM σ α) → ι → StateM σ α} {endless : ι → α}

/-- **An attempt that has an outcome** has that of every bounded recursion which goes as deep. -/
theorem settles_attempt (hstep : SameStep stepOr step) (endless : ι → α) {depth more : Nat}
    (hmore : depth ≤ more) (i : ι) :
    settles.Same (attempt stepOr depth i) (bounded endless step more i) := by
  induction depth generalizing more i with
  | zero =>
    intro s a s' hrun
    cases (Prod.mk.inj hrun).1
  | succ depth ih =>
    obtain ⟨more, rfl⟩ : ∃ n, more = n + 1 := ⟨more - 1, by omega⟩
    exact hstep _ _ (fun i ↦ ih (by omega) i) i

theorem settled_eq_none_iff {outcome : Option α × σ} :
    settled outcome = none ↔ outcome.1 = none := by
  rcases outcome with ⟨- | a, s⟩ <;> simp [settled]

theorem settled_eq_some_iff {outcome : Option α × σ} {result : α × σ} :
    settled outcome = some result ↔ outcome = (some result.1, result.2) := by
  rcases outcome with ⟨- | a, s⟩
  · simp [settled]
  · simp [settled, Prod.ext_iff]

variable (endless stepOr) in
theorem runFrom_follow (i : ι) (s : σ) :
    runFrom s (Recursive.follow endless stepOr i) =
      (firstOutcome fun depth ↦ settled (runFrom s (attempt stepOr depth i).run)).getD
        (endless i, s) := rfl

/-- A recursion ends, and then it is the one with any bound that is large enough, or no attempt that
goes deep enough has an outcome. -/
theorem follow_cases (hstep : SameStep stepOr step) (endless : ι → α) (i : ι) (s : σ) :
    (∃ depth, ∀ more, depth ≤ more →
      runFrom s (Recursive.follow endless stepOr i) = runFrom s (bounded endless step more i)) ∨
    runFrom s (Recursive.follow endless stepOr i) = (endless i, s) ∧
      ∀ depth, usualDepth ≤ depth → (runFrom s (attempt stepOr depth i).run).1 = none := by
  rw [runFrom_follow]
  rcases hfirst : firstOutcome fun depth ↦ settled (runFrom s (attempt stepOr depth i).run) with
    - | result
  · exact .inr ⟨rfl, fun depth hdepth ↦
      settled_eq_none_iff.mp (firstOutcome_eq_none_iff.mp hfirst depth hdepth)⟩
  · obtain ⟨depth, -, hdepth, -⟩ := firstOutcome_eq_some_iff.mp hfirst
    refine .inl ⟨depth, fun more hmore ↦ ?_⟩
    have hrun := settles_attempt hstep endless hmore i s _ _
      (settled_eq_some_iff.mp hdepth)
    exact hrun.1.symm

/-- **A recursion is one with some bound.** -/
theorem exists_bounded (hstep : SameStep stepOr step) (endless : ι → α) (i : ι) (s : σ) :
    ∃ depth,
      runFrom s (Recursive.follow endless stepOr i) = runFrom s (bounded endless step depth i) := by
  rcases follow_cases hstep endless i s with ⟨depth, h⟩ | ⟨h, -⟩
  · exact ⟨depth, h depth (Nat.le_refl _)⟩
  · exact ⟨0, h⟩

end Bounded

/-! ### Recursions that end -/

/-- The first computation has an outcome wherever `P` holds, which is what the second one answers;
and `P` keeps to hold. -/
def ending (P : σ → Prop) : Lockstep (OptionT (StateM σ)) (StateM σ) where
  rel answers x y := ∀ s, P s → runFrom s x.run = (some (runFrom s y).1, (runFrom s y).2) ∧
    answers (runFrom s y).1 ∧ P (runFrom s y).2
  pure h s hs := ⟨rfl, h, hs⟩
  bind hx hf s hs := by
    obtain ⟨hrun, hanswer, hs'⟩ := hx s hs
    rw [OptionT.run_bind, Option.elimM, runFrom_bind, hrun]
    exact hf _ hanswer _ hs'

/-- A call that always ends. -/
theorem ending_lift {P : σ → Prop} {answers : α → Prop} {x : StateM σ α}
    (h : ∀ s, P s → answers (runFrom s x).1 ∧ P (runFrom s x).2) :
    (ending P).Together answers (OptionT.lift x) x :=
  fun s hs ↦ ⟨rfl, h s hs⟩

/-- **A recursion ends** where the attempts that go deep enough do. -/
theorem runFrom_follow_of_ending {P : σ → Prop}
    {stepOr : (ι → OptionT (StateM σ) α) → ι → OptionT (StateM σ) α}
    {step : (ι → StateM σ α) → ι → StateM σ α} (hstep : SameStep stepOr step) (endless : ι → α)
    {i : ι} {y : StateM σ α} {depth : Nat}
    (hends : ∀ more, depth ≤ more → (ending P).Same (attempt stepOr more i) y) {s : σ} (hs : P s) :
    runFrom s (Recursive.follow endless stepOr i) = runFrom s y := by
  rcases follow_cases hstep endless i s with ⟨enough, h⟩ | ⟨-, hnone⟩
  · -- an attempt that goes deep enough for both
    have hattempt := (hends (max enough depth) (le_max_right _ _) s hs).1
    have hbounded := (settles_attempt hstep endless (le_refl _) i s _ _ hattempt).1
    exact (h _ (le_max_left _ _)).trans hbounded
  · have hattempt := (hends (max usualDepth depth) (le_max_right _ _) s hs).1
    have hnothing := hnone _ (le_max_left usualDepth depth)
    rw [hattempt] at hnothing
    cases hnothing

/-- A computation that always ends, among those that need not. -/
def ended (x : StateM σ α) : StateT σ Option α := fun s ↦ some (runFrom s x)

/-- The first computation ends with what the second one answers and leaves. -/
def returning : Lockstep (StateT σ Option) (StateM σ) where
  rel answers x y := ∀ s, x.run s = some (runFrom s y) ∧ answers (runFrom s y).1
  pure h _ := ⟨rfl, h⟩
  bind hx hf s := by
    rw [runFrom_bind, StateT.run_bind, (hx s).1]
    exact hf _ (hx s).2 _

theorem returning_ended (x : StateM σ α) : returning.Same (ended x) x := fun _ ↦ ⟨rfl, trivial⟩

/-- **A recursion that has an outcome** in attempts that go deep enough has it without a bound. -/
theorem returning_follow {endless : ι → α}
    {step' : (ι → OptionT (StateT σ Option) α) → ι → OptionT (StateT σ Option) α}
    {step : (ι → OptionT (StateM σ) α) → ι → OptionT (StateM σ) α}
    (hattempts : ∀ depth i, returning.partly.Same (attempt step' depth i) (attempt step depth i))
    {i : ι} {s : σ} {depth : Nat} (hdepth : usualDepth ≤ depth)
    (hends : (runFrom s (attempt step depth i).run).1.isSome = true) :
    (Recursive.follow endless step' i).run s =
      some (runFrom s (Recursive.follow endless step i)) := by
  have houtcomes : (fun depth ↦ ((attempt step' depth i).run.run s).bind settled) =
      fun depth ↦ settled (runFrom s (attempt step depth i).run) := by
    funext depth
    rw [(hattempts depth i s).1, Option.bind_some]
  obtain ⟨result, hresult⟩ : ∃ result, firstOutcome (fun depth ↦
      settled (runFrom s (attempt step depth i).run)) = some result := by
    refine Option.ne_none_iff_exists'.mp fun hnone ↦ ?_
    rw [settled_eq_none_iff.mp (firstOutcome_eq_none_iff.mp hnone depth hdepth)] at hends
    cases hends
  have hfollow : (Recursive.follow endless step' i).run s =
      firstOutcome fun depth ↦ ((attempt step' depth i).run.run s).bind settled := rfl
  rw [hfollow, houtcomes, runFrom_follow, hresult]
  rfl

end Scaffold
