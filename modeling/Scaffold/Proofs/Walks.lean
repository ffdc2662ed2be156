import Scaffold.Plan.Planner
import Scaffold.Proofs.Recursion

/-!
# Walks through directories

Two recursions go down through directories: one copies a folder, the other one lists a source for
the planner. Neither has a bound. In `StateM σ` each does the same as one with a bound
(`Calls.exists_copyFolderWithin`, `Planner.exists_includedWithin`), on which what it does can be
proved directory by directory.
-/

namespace Scaffold

variable {m : Type → Type} [Monad m] {σ : Type}

/-! ### Copying folders -/

/-- A store that transfers whole folders by its primitive calls. -/
def Backend.ByCalls [Recursive m] (b : Backend m) : Prop := b = b.toCalls.backend

namespace Backend.ByCalls

variable [Recursive m] {b : Backend m} (h : b.ByCalls) (source target : Path)
include h

theorem copyFolder_eq : b.copyFolder source target = b.toCalls.copyFolder source target := by
  rw [h]
  rfl

theorem moveFolder_eq : b.moveFolder source target =
    (do b.copyFolder source target; b.rm source true) := by
  rw [h]
  rfl

end Backend.ByCalls

namespace Calls

/-- Copies the contents of the directory `source` into the directory `target`, at most `depth`
directories deep. -/
def copyFolderWithin (c : Calls m) (depth : Nat) (source target : Path) : Attempt m Unit :=
  .mk (bounded (fun paths ↦ .error (endless paths.1))
    (fun again (paths : Path × Path) ↦
      (c.copyFolderStep (fun source target ↦ .mk (again (source, target))) paths.1 paths.2).run)
    depth (source, target))

theorem copyFolderWithin_succ (c : Calls m) (depth : Nat) (source target : Path) :
    c.copyFolderWithin (depth + 1) source target =
      c.copyFolderStep (c.copyFolderWithin depth) source target := rfl

variable (c : Calls (StateM σ)) (source target : Path) (s : σ)

/-- One step is the same where calls need not have an outcome. -/
theorem sameStep_copyFolder : SameStep c.copyFolderPair fun again paths ↦
    (c.copyFolderStep (fun source target ↦ .mk (again (source, target))) paths.1 paths.2).run :=
  fun _ _ hagain _ ↦ ((Matches.of_map settles_lift c).copyFolderStep
    (fun source target ↦ .of_same (hagain (source, target))) _ _).same

/-- Copying a folder ends, and then every bound that is large enough may be set to it, or no attempt
that goes deep enough has an outcome. -/
theorem copyFolder_cases :
    (∃ depth, ∀ more, depth ≤ more → runFrom s (c.copyFolder source target).run =
      runFrom s (c.copyFolderWithin more source target).run) ∨
    runFrom s (c.copyFolder source target).run = (.error (endless source), s) ∧
      ∀ depth, usualDepth ≤ depth →
        (runFrom s (attempt c.copyFolderPair depth (source, target)).run).1 = none :=
  follow_cases c.sameStep_copyFolder _ (source, target) s

/-- **Copying a folder** is copying it with some bound. -/
theorem exists_copyFolderWithin : ∃ depth, runFrom s (c.copyFolder source target).run =
    runFrom s (c.copyFolderWithin depth source target).run :=
  exists_bounded c.sameStep_copyFolder _ (source, target) s

end Calls

/-! ### Computations that need not end -/

/-- The store among computations that need not end. -/
def Backend.ended (b : Backend (StateM σ)) : Backend (StateT σ Option) :=
  (b.toCalls.map Scaffold.ended).backend

/-! ### Listing sources -/

namespace Planner

/-- The operations for what is inside a directory, at most `depth` directories deep. -/
def includedWithin (b : Backend m) (rules : RenameRules) :
    (depth : Nat) → Visit → m (Option String × List Operation) :=
  bounded endless (includedStep (fun p ↦ (b.list p).run) rules)

theorem includedWithin_zero (b : Backend m) (rules : RenameRules) (visit : Visit) :
    includedWithin b rules 0 visit = pure (endless visit) := rfl

theorem includedWithin_succ (b : Backend m) (rules : RenameRules) (depth : Nat) (visit : Visit) :
    includedWithin b rules (depth + 1) visit =
      includedStep (fun p ↦ (b.list p).run) rules (includedWithin b rules depth) visit := rfl

variable {m' n : Type → Type} [Monad m'] [Monad n] {r : Lockstep m' n}

/-- One step asks for one listing, and is related to another one when the listings are. -/
theorem same_includedStep {list' : Path → m' (Except StorageError (List DirEntry))}
    {list : Path → n (Except StorageError (List DirEntry))}
    {again' : Visit → m' (Option String × List Operation)}
    {again : Visit → n (Option String × List Operation)} (hlist : ∀ p, r.Same (list' p) (list p))
    (hagain : ∀ visit, r.Same (again' visit) (again visit)) (rules : RenameRules) (visit : Visit) :
    r.Same (includedStep list' rules again' visit) (includedStep list rules again visit) := by
  refine .bind (hlist visit.source) fun listed _ ↦ ?_
  cases listed with
  | error e => exact .pure trivial
  | ok entries =>
    refine .bind (Lockstep.Same.foldlM (fun entry _ found ↦ ?_) []) fun _ _ ↦ .pure trivial
    dsimp only
    split
    · exact .bind (hagain _) fun _ _ ↦ .pure trivial
    · exact .pure trivial

variable (b : Backend (StateM σ)) (rules : RenameRules)

theorem sameStep_included : SameStep (includedStep (fun p ↦ OptionT.lift (b.list p).run) rules)
    (includedStep (fun p ↦ (b.list p).run) rules) :=
  fun _ _ hagain ↦ same_includedStep (fun _ ↦ settles_lift _) hagain rules

/-- **Listing a source** is listing it with some bound. -/
theorem exists_includedWithin (visit : Visit) (s : σ) :
    ∃ depth, runFrom s (included b rules visit) = runFrom s (includedWithin b rules depth visit) :=
  exists_bounded (sameStep_included b rules) _ visit s

/-- A bound that is enough for the walk below a path: it is positive, and if it is one more than
another one, that is enough below the directories that are listed there. -/
structure Enough (P : σ → Prop) (enough : Nat → Path → Prop) : Prop where
  pos : ∀ {depth source}, enough depth source → 0 < depth
  list : ∀ {depth source}, enough (depth + 1) source → ∀ s, P s →
    (∀ entries, (runFrom s (b.list source).run).1 = .ok entries →
      ∀ e ∈ entries, enough depth (source.child e.name)) ∧ P (runFrom s (b.list source).run).2

variable {b} {P : σ → Prop} {enough : Nat → Path → Prop}

/-- **The walk ends** before a bound that is enough. -/
theorem ending_attempt_included (h : Enough b P enough) {depth more : Nat} (hmore : depth ≤ more)
    {visit : Visit} (hvisit : enough depth visit.source) : (ending P).Same
      (attempt (includedStep (fun p ↦ OptionT.lift (b.list p).run) rules) more visit)
      (includedWithin b rules depth visit) := by
  induction depth generalizing more visit with
  | zero => exact absurd (h.pos hvisit) (Nat.lt_irrefl 0)
  | succ depth ih =>
    obtain ⟨more, rfl⟩ : ∃ n, more = n + 1 := ⟨more - 1, by omega⟩
    rw [attempt, includedWithin_succ, includedStep, includedStep]
    have hlist : (ending P).Together (fun listed ↦ ∀ entries, listed = .ok entries →
        ∀ e ∈ entries, enough depth (visit.source.child e.name))
        (OptionT.lift (b.list visit.source).run) (b.list visit.source).run :=
      ending_lift (h.list hvisit)
    refine .bind hlist fun listed hlisted ↦ ?_
    cases listed with
    | error e => exact .pure trivial
    | ok entries =>
      refine .bind (Lockstep.Same.foldlM (fun entry hentry found ↦ ?_) []) fun _ _ ↦ .pure trivial
      dsimp only
      split
      · exact .bind (ih (by omega) (hlisted entries rfl entry hentry)) fun _ _ ↦ .pure trivial
      · exact .pure trivial

theorem included_of_enough (h : Enough b P enough) {depth : Nat} {visit : Visit}
    (hvisit : enough depth visit.source) {s : σ} (hs : P s) :
    runFrom s (included b rules visit) = runFrom s (includedWithin b rules depth visit) ∧
      P (runFrom s (included b rules visit)).2 := by
  have hsame := runFrom_follow_of_ending (sameStep_included b rules) endless
    (fun _ hmore ↦ ending_attempt_included rules h hmore hvisit) hs
  refine ⟨hsame, ?_⟩
  show P (runFrom s (Recursive.follow endless _ visit)).2
  rw [hsame]
  exact (ending_attempt_included rules h (Nat.le_refl depth) hvisit s hs).2.2

end Planner

end Scaffold
