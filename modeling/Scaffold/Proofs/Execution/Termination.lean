import Scaffold.Proofs.Execution.Simulation
import Scaffold.Proofs.Transfer.Termination

/-!
# Runs end

A run asks for whole folders to be transferred, and nothing bounds how deep these are but the store
itself. It only asks for targets that do not lie in the source, and for those the transfer ends
(`MemoryStore.copyFolder_ends`). So a run ends too, with its report and its store; and of the folder
calls that it makes, which are noted one by one, none has a target in its source
(`folder_transfers_end`).
-/

namespace Scaffold

variable {σ α : Type}

/-! ### Noted calls -/

/-- A call to transfer a folder as a whole. -/
structure FolderCall where
  source : Path
  target : Path
deriving DecidableEq

/-- The target of the call is not its source and does not lie in it. -/
def FolderCall.LeavesSource (call : FolderCall) : Prop := call.target.startsWith call.source = false

/-- A computation that notes nothing, beside calls that are noted. -/
def besideNotes (x : StateT σ Option α) : StateT (σ × List FolderCall) Option α :=
  fun (s, notes) ↦ (x.run s).map fun (a, s') ↦ (a, s', notes)

/-- A computation that notes a call, behind those that are noted already. -/
def noting (call : FolderCall) (x : StateT σ Option α) : StateT (σ × List FolderCall) Option α :=
  fun (s, notes) ↦ (x.run s).map fun (a, s') ↦ (a, s', notes ++ [call])

/-- A store whose folder calls are noted when they are made. -/
def Backend.notingFolders (b : Backend (StateT σ Option)) :
    Backend (StateT (σ × List FolderCall) Option) :=
  { b.toCalls.map besideNotes with
    copyFolder source target :=
      ExceptT.mk (noting ⟨source, target⟩ (b.copyFolder source target).run)
    moveFolder source target :=
      ExceptT.mk (noting ⟨source, target⟩ (b.moveFolder source target).run) }

/-- The first computation ends with what the second one answers and leaves, and notes no call but
those whose target leaves the source. -/
def endingNoted (σ : Type) : Lockstep (StateT (σ × List FolderCall) Option) (StateM σ) where
  rel answers x y := ∀ s notes, (∀ call ∈ notes, call.LeavesSource) →
    ∃ notes', x.run (s, notes) = some ((runFrom s y).1, (runFrom s y).2, notes') ∧
      (∀ call ∈ notes', call.LeavesSource) ∧ answers (runFrom s y).1
  pure h s notes hnotes := ⟨notes, rfl, hnotes, h⟩
  bind hx hf s notes hnotes := by
    obtain ⟨notes₁, hrun, hnotes₁, hanswer⟩ := hx s notes hnotes
    obtain ⟨notes₂, hrest, hnotes₂, hanswer'⟩ := hf _ hanswer _ notes₁ hnotes₁
    refine ⟨notes₂, ?_, hnotes₂, hanswer'⟩
    rw [runFrom_bind, StateT.run_bind, hrun]
    exact hrest

theorem endingNoted_besideNotes (x : StateM σ α) :
    (endingNoted σ).Same (besideNotes (ended x)) x :=
  fun _ notes hnotes ↦ ⟨notes, rfl, hnotes, trivial⟩

/-- A call that ends may be noted when its target leaves the source. -/
theorem endingNoted_noting {call : FolderCall} (hcall : call.LeavesSource)
    {x : Attempt (StateT σ Option) α} {y : Attempt (StateM σ) α}
    (h : ∀ s, x.run.run s = some (runFrom s y.run)) :
    (endingNoted σ).TrySame (ExceptT.mk (noting call x.run)) y := by
  intro s notes hnotes
  refine ⟨notes ++ [call], ?_, fun other hother ↦ ?_, fun _ _ ↦ trivial⟩
  · show (x.run.run s).map _ = _
    rw [h]
    rfl
  · rcases List.mem_append.mp hother with hother | hother
    · exact hnotes other hother
    · rwa [List.mem_singleton.mp hother]

/-! ### Runs in memory -/

namespace Execution

open MemoryStore

/-- The calls of a store in memory, among computations that need not end. -/
theorem notingFolders_matches : backend.ended.notingFolders.Matches (endingNoted MemoryStore)
    backend where
  toMatches := Calls.Matches.of_map endingNoted_besideNotes calls
  copyFolder source target houtside :=
    @endingNoted_noting _ _ ⟨source, target⟩ houtside _ _ (copyFolder_ends serves_backend houtside)
  moveFolder source target houtside :=
    @endingNoted_noting _ _ ⟨source, target⟩ houtside _ _ (moveFolder_ends serves_backend houtside)

/-- **Transfers of folders end.** A run whose folder calls need not end does end, with the report
and the store of the run, and no folder call that it makes has a target at or below its source. For
such targets the recursion that copies a folder ends, in every store, whether the source lies apart
from the target or below it, and it goes no deeper than what is stored. -/
theorem folder_transfers_end (s : MemoryStore) :
    (∀ plan, ∃ calls, (executePlan backend.ended.notingFolders plan).run (s, []) =
        some ((runFrom s (executePlan backend plan)).1, (runFrom s (executePlan backend plan)).2,
          calls) ∧
      ∀ call ∈ calls, call.target.startsWith call.source = false) ∧
    ∀ source target : Path, target.startsWith source = false →
      (backend.ended.copyFolder source target).run.run s =
        some (runFrom s (backend.copyFolder source target).run) ∧
      runFrom s (backend.copyFolder source target).run =
        runFrom s (calls.copyFolderWithin (s.depth + 1) source target).run := by
  refine ⟨fun plan ↦ ?_, fun source target houtside ↦
    ⟨copyFolder_ends serves_backend houtside s, runFrom_copyFolder serves_backend houtside s⟩⟩
  obtain ⟨calls, hrun, hnotes, -⟩ := notingFolders_matches.executePlan plan s [] (by simp)
  exact ⟨calls, hrun, hnotes⟩

end Execution

end Scaffold
