import Scaffold.Proofs.Walks

/-!
# Planning ends

A plan asks its store and nothing else, so if the answers of two stores are related, the plans are
(`trySame_plan`). What is asked on the way does not need a bound: a walk through a source goes down
from directory to directory, and where every such walk comes to an end (`WalksEnd`), planning does,
too. It then answers and leaves the same among the computations that need not end (`plan_ends`).
-/

namespace Scaffold

namespace Planner

/-! ### Plans in lockstep -/

section Lockstep

variable {m n : Type → Type} [Monad m] [Monad n] [Recursive m] [Recursive n] {r : Lockstep m n}
  {b' : Backend m} {b : Backend n}

theorem same_included (hr : r.Recurses) (hlist : ∀ p, r.Same (b'.list p).run (b.list p).run)
    (rules : RenameRules) (visit : Visit) :
    r.Same (included b' rules visit) (included b rules visit) :=
  hr _ (Lockstep.attempt fun _ _ hagain ↦
    same_includedStep (fun p ↦ Lockstep.partly_lift (hlist p)) hagain rules) visit

variable (hexists : ∀ p, r.Same (b'.exists_ p) (b.exists_ p))
  (hstat : ∀ p, r.TrySame (b'.stat p) (b.stat p))
  (hincluded : ∀ rules visit, r.Same (included b' rules visit) (included b rules visit))
include hexists hstat hincluded

theorem same_inspectSource (options : PlanOptions) (index : Nat) (op : Operation)
    (source : Path) : r.Same (inspectSource b' options index op source)
      (inspectSource b options index op source) := by
  refine .bind (hexists source) fun there _ ↦ ?_
  split
  · exact .pure trivial
  split
  · exact .pure trivial
  refine .bind (hstat source) fun found _ ↦ ?_
  rcases found with e | ⟨- | -, size⟩
  · exact .pure trivial
  · exact .pure trivial
  · exact hincluded _ _

theorem same_planLine (options : PlanOptions) (progress : Progress) (line : Line) :
    r.Same (planLine b' options progress line) (planLine b options progress line) := by
  unfold planLine
  dsimp only
  split
  all_goals refine .bind (?_ : r.Same _ _) fun _ _ ↦ ?_
  · exact .pure trivial
  · exact .pure trivial
  · exact same_inspectSource hexists hstat hincluded _ _ _ _
  · exact .pure trivial

variable [LawfulMonad m] [LawfulMonad n]

theorem trySame_planLines (options : PlanOptions) (lines : List Line) :
    r.TrySame (planLines b' options lines) (planLines b options lines) := by
  refine Lockstep.TryTogether.foldlM (fun line _ progress ↦ ?_) _
  split
  · exact .throw _
  · exact .lift (same_planLine hexists hstat hincluded _ _ line)

/-- **Plans are related** when the questions and the walks are. -/
theorem trySame_plan (options : PlanOptions) (readBlock : String → Option FrontMatter)
    (text : String) :
    r.TrySame (plan b' readBlock options text) (plan b readBlock options text) := by
  unfold plan
  dsimp only
  split
  · exact .throw _
  · exact .bind (trySame_planLines hexists hstat hincluded _ _) fun _ _ ↦ .pure trivial

end Lockstep

/-! ### Walks that end -/

variable {σ : Type} {b : Backend (StateM σ)}

/-- Below every path, walks come to an end. -/
def WalksEnd (b : Backend (StateM σ)) : Prop :=
  ∀ s source, ∃ (P : σ → Prop) (enough : Nat → Path → Prop) (depth : Nat),
    Enough b P enough ∧ P s ∧ enough depth source

/-- **A walk that ends** has no need of a bound. -/
theorem returning_included (h : WalksEnd b) (rules : RenameRules) (visit : Visit) :
    returning.Same (included b.ended rules visit) (included b rules visit) := by
  intro s
  obtain ⟨P, enough, depth, henough, hs, hvisit⟩ := h s visit.source
  have hends := ending_attempt_included rules henough (le_max_right usualDepth depth) hvisit s hs
  refine ⟨returning_follow (Lockstep.attempt fun _ _ hagain ↦ same_includedStep
    (fun p ↦ Lockstep.partly_lift (returning_ended _)) hagain rules) (le_max_left usualDepth depth)
    ?_, trivial⟩
  rw [hends.1]
  rfl

/-- **Planning ends** where walks do. -/
theorem plan_ends (h : WalksEnd b) (readBlock : String → Option FrontMatter)
    (options : PlanOptions) (text : String) (s : σ) :
    (plan b.ended readBlock options text).run.run s =
      some (runFrom s (plan b readBlock options text).run) :=
  (trySame_plan (fun _ ↦ returning_ended _) (fun _ ↦ .of_same (returning_ended _))
    (returning_included h) options readBlock text s).1

end Planner

end Scaffold
