/-!
# Recursions without a bound

Directories are walked through by a recursion that goes as deep as they lie in each other, and it
need not end: nothing keeps a store from listing a directory in every directory.

A recursion is given by its step, which says what is done for one argument in terms of further
calls. Followed a limited number of calls deep it has an outcome or none (`attempt`); the recursion
itself has the outcome of the attempts that go deep enough. What it means that there are none
depends on the monad (`Recursive`).
-/

namespace Scaffold

variable {m : Type → Type} {ι α β σ : Type}

/-- The recursion with the given step, followed at most `depth` calls deep. A call beyond that has
no outcome. -/
def attempt [Monad m] (step : (ι → OptionT m α) → ι → OptionT m α) : (depth : Nat) → ι → OptionT m α
  | 0, _ => failure
  | depth + 1, i => step (attempt step depth) i

/-- A monad in which recursions are followed as deep as they go. -/
class Recursive (m : Type → Type) where
  /-- The recursion with the given step. What it answers where it does not end is given too, for
  monads in which every computation has an answer. -/
  follow {ι α : Type} (endless : ι → α) (step : (ι → OptionT m α) → ι → OptionT m α) : ι → m α

/-! ### Deeper and deeper -/

/-- The first outcome of attempts from a number on. -/
def search (outcome : Nat → Option β) (k : Nat) : Option {b // ∃ k, outcome k = some b} :=
  (repeatM (m := Option) (fun k ↦
    match h : outcome k with
    | some b => some (.inr (some ⟨b, k, h⟩))
    | none => some (.inl (k + 1))) k).join

/-- The depth of the first attempt. Few directories lie deeper in each other. -/
def usualDepth : Nat := 32

/-- The outcome of attempts that go deeper and deeper. -/
def firstOutcome (outcome : Nat → Option β) : Option β :=
  match outcome usualDepth with
  | some b => some b
  | none => (search (fun more ↦ outcome (usualDepth + more)) 1).map (·.1)

/-- The answer of an attempt with the state that it leaves, if it has one. -/
def settled : Option α × σ → Option (α × σ)
  | (some a, s) => some (a, s)
  | (none, _) => none

/-- Every computation on a state has an answer; where a recursion does not end, the state is left
as it was. -/
instance : Recursive (StateM σ) where
  follow endless step i := fun s ↦
    (firstOutcome fun depth ↦ settled ((attempt step depth i).run s)).getD (endless i, s)

/-- A computation that may answer nothing does so where a recursion does not end. -/
instance : Recursive (StateT σ Option) where
  follow _ step i := fun s ↦
    firstOutcome fun depth ↦ ((attempt step depth i).run s).bind settled

end Scaffold
