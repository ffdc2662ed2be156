import Scaffold.Proofs.Execution.Run
import Scaffold.Proofs.Store.Calls
import Scaffold.Proofs.Store.Tree

/-!
# Transfers of files

A file is copied by creating the directory in which the target lies and writing the bytes there, and
it is moved by removing the source behind that. Creating directories changes nothing that is there
(`Grows`), so the bytes read are those that the source had, and what is left to follow is one
insertion and one erasure (`Transfers.file_view`).

The two are about one entry when source and target name the same thing. A copy is then harmless, but
the removal takes away what was just written: a move of a file keeps its content exactly when the
target is not the source (`transfer_keeps_content`).
-/

namespace Scaffold

variable {σ : Type} {b : Backend (StateM σ)} {view : σ → MemoryStore} {s s' : σ}
  {source target : Path} {bytes : ByteArray}

/-! ### Copying -/

/-- **Copying leaves the bytes at the source and at the target**, if creating the directory of the
target comes first. -/
theorem Serves.copied (hb : Serves b view) {s₁ : σ}
    (hfile : (view s).node? source = some (.file bytes))
    (hgrows : MemoryStore.Grows target (view s) (view s₁))
    (hcopy : runFrom s₁ (b.copyFile source target).run = (.ok (), s')) :
    (view s').node? source = some (.file bytes) ∧ (view s').node? target = some (.file bytes) := by
  obtain ⟨read, hread, -, hview⟩ := hb.copyFile_ok hcopy
  have hbytes : read = bytes := by
    simpa [hgrows.keeps hfile] using hread.symm
  rw [hview, hbytes, MemoryStore.node?_insert, MemoryStore.node?_insert]
  refine ⟨?_, if_pos rfl⟩
  split
  · rfl
  · exact hgrows.keeps hfile

/-- Removing the source takes the target away when they are the same. -/
theorem Serves.unlinked (hb : Serves b view) {s₁ : σ}
    (hfile : (view s₁).node? target = some (.file bytes))
    (hunlink : runFrom s₁ (b.unlink source).run = (.ok (), s')) :
    (view s').node? target = some (.file bytes) ↔ ¬target ≈ source := by
  rw [hb.unlink_ok hunlink, MemoryStore.node?_erase]
  constructor
  · intro h heq
    rw [if_pos (Path.equiv_iff.mp heq).symm] at h
    cases h
  · intro hne
    rw [if_neg fun heq ↦ hne (Path.equiv_iff.mp heq).symm]
    exact hfile

/-- What is stored as a file is not found to be a directory. -/
theorem Serves.kind_of_file (hb : Serves b view) {found : Metadata}
    (hfile : (view s).node? source = some (.file bytes)) (hroot : source.isRoot = false)
    (hstat : runFrom s (b.stat source).run = (.ok found, s')) : found.kind = .file := by
  have hkind := (hb.stat_ok hstat).2
  rw [MemoryStore.kindOf?_of_node? hroot hfile] at hkind
  exact (Option.some.inj hkind).symm

/-! ### Moving an entry -/

/-- **Moving a file keeps its content** exactly when the target is not the file itself. -/
theorem Serves.moveEntry_file (hb : Serves b view)
    (hfile : (view s).node? source = some (.file bytes)) (hroot : source.isRoot = false)
    (hmove : runFrom s (b.moveEntry source target).run = (.ok (), s')) :
    (view s').node? target = some (.file bytes) ↔ ¬target ≈ source := by
  obtain ⟨found, s₁, hstat, hmove⟩ := run_bind_eq_ok_iff.mp hmove
  have hview₁ := ((hb.stat source).ok hstat).1
  have hkind := hb.kind_of_file hfile hroot hstat
  rw [← hview₁] at hfile
  split at hmove
  · rename_i hdir
    rw [hkind] at hdir
    cases hdir
  · obtain ⟨⟨⟩, s₂, hcopy, hunlink⟩ := run_bind_eq_ok_iff.mp hmove
    refine hb.unlinked ?_ hunlink
    obtain ⟨found', s₃, hstat', hcopy⟩ := run_bind_eq_ok_iff.mp hcopy
    have hview₃ := ((hb.stat source).ok hstat').1
    have hkind' := hb.kind_of_file hfile hroot hstat'
    rw [← hview₃] at hfile
    split at hcopy
    · rename_i hdir
      rw [hkind'] at hdir
      cases hdir
    · dsimp only at hcopy
      split at hcopy
      · rename_i parent hparent
        obtain ⟨⟨⟩, s₄, hdir, hcopy⟩ := run_bind_eq_ok_iff.mp hcopy
        exact (hb.copied hfile ((hb.ensureDir_ok hdir).1.below hparent) hcopy).2
      · exact (hb.copied hfile (.refl target _) hcopy).2

namespace Execution

/-! ### Moving and copying as operations -/

/-- **What the transfer of a file leaves.** -/
theorem Transfers.file_view (hb : Serves b view) {last? : Option Nat} {op : Operation}
    {pending : Option PendingMove} (h : Transfers b last? op source s pending s')
    (hfile : (view s).node? source = some (.file bytes)) (hroot : source.isRoot = false) :
    pending = none ∧
      (op.kind ≠ .move → (view s').node? source = some (.file bytes) ∧
        (view s').node? op.target = some (.file bytes)) ∧
      (op.kind = .move →
        ((view s').node? op.target = some (.file bytes) ↔ ¬op.target ≈ source)) := by
  cases h with
  | opens hstat hkind =>
    rw [hb.kind_of_file hfile hroot hstat] at hkind
    cases hkind
  | whole hstat hkind =>
    rw [hb.kind_of_file hfile hroot hstat] at hkind
    cases hkind
  | file hstat hkind hparent hcopy hunlink =>
    rw [← ((hb.stat source).ok hstat).1] at hfile
    have hcopied := hb.copied hfile (hb.ensureParent_ok hparent) hcopy
    refine ⟨rfl, fun hmove ↦ ?_, fun hmove ↦ ?_⟩
    · rw [if_neg hmove] at hunlink
      rw [← hunlink]
      exact hcopied
    · rw [if_pos hmove] at hunlink
      exact hb.unlinked hcopied.2 hunlink

/-- The store when the operations in front of position `n` are done. -/
def storeBefore (plan : Plan) (store : MemoryStore) (n : Nat) : MemoryStore :=
  (runFrom store (runBefore MemoryStore.backend plan n)).2

/-- A transfer of a file that is logged as succeeded has been made, and nothing else was done. -/
theorem transfers_of_logged {plan : Plan} {store : MemoryStore} {i : Nat} {op : Operation}
    (hop : plan.operations[i]? = some op) (hkind : op.kind = .copy ∨ op.kind = .move)
    (hsource : op.source = some source) (hroot : source.isRoot = false)
    (hfile : (storeBefore plan store i).node? source = some (.file bytes))
    (hlog : (runFrom store (executePlan MemoryStore.backend plan)).1.log[i]? =
      some (op.logged .succeeded)) :
    Transfers MemoryStore.backend (plan.includedEnd? i) op source (storeBefore plan store i) none
      (storeBefore plan store (i + 1)) := by
  have hi : i < plan.operations.length := (List.getElem?_eq_some_iff.mp hop).1
  have hreached := reached_runBefore MemoryStore.backend plan store (Nat.le_of_lt hi)
  have hafter : storeBefore plan store (i + 1) =
      (runFrom (storeBefore plan store i) (advance MemoryStore.backend plan
        (runFrom store (runBefore MemoryStore.backend plan i)).1 (op, i))).2 := by
    rw [storeBefore, runBefore_succ _ plan hop, runFrom_bind]
    rfl
  rw [report_log_eq _ plan store hop] at hlog
  rw [hafter]
  simp only [advance, runFrom_bind]
  set run := (runFrom store (runBefore MemoryStore.backend plan i)).1
  have hsteps := step_cases MemoryStore.backend plan i op run (storeBefore plan store i)
  set next := runFrom (storeBefore plan store i) (step MemoryStore.backend plan i op run)
  have hpushed : next.1.log = run.log.push (op.logged .succeeded) := by
    obtain ⟨outcome, houtcome⟩ := hsteps.log_eq
    change next.1.log[i]? = _ at hlog
    rw [houtcome, ← hreached.size, Array.getElem?_push_size] at hlog
    rw [houtcome, Option.some.inj hlog]
  obtain ⟨pending, s₁, hexists, htransfers, hnext⟩ := hsteps.of_succeeded hpushed hkind hsource
  -- asking whether the source is there has changed nothing
  have hsame : storeBefore plan store i = s₁ := (MemoryStore.serves_backend.exists_ok hexists).symm
  have hnone : pending = none :=
    (htransfers.file_view MemoryStore.serves_backend (hsame ▸ hfile) hroot).1
  subst hnone hsame
  have hnil : next.1.pending = [] := by
    have hown : op.kind ≠ .included := by
      rcases hkind with h | h <;> simp [h]
    rw [hnext]
    simp [Run.record, hreached.pending_eq_nil hop hown]
  rw [settleMoves_of_ahead i (by simp [hnil])]
  exact htransfers

/-- **Transfers of files keep content, moves onto themselves apart.** Let `source` be stored as a
file. When the execution of a plan logs a copy of it as succeeded, then right behind that operation
both source and target hold its bytes. When it logs a move as succeeded, or when moving the entry
returns without an error, then the target holds the bytes exactly if it is not the source itself. -/
theorem transfer_keeps_content (source target : Path) (bytes : ByteArray)
    (hroot : source.isRoot = false) :
    (∀ (plan : Plan) (store : MemoryStore) (i : Nat) (op : Operation),
      plan.operations[i]? = some op → op.source = some source → op.target = target →
      (storeBefore plan store i).node? source = some (.file bytes) →
      (runFrom store (executePlan MemoryStore.backend plan)).1.log[i]? =
        some (op.logged .succeeded) →
      (op.kind = .copy →
        (storeBefore plan store (i + 1)).node? source = some (.file bytes) ∧
          (storeBefore plan store (i + 1)).node? target = some (.file bytes)) ∧
      (op.kind = .move →
        ((storeBefore plan store (i + 1)).node? target = some (.file bytes) ↔
          ¬target ≈ source))) ∧
    ∀ store store' : MemoryStore, store.node? source = some (.file bytes) →
      runFrom store (MemoryStore.backend.moveEntry source target).run = (.ok (), store') →
      (store'.node? target = some (.file bytes) ↔ ¬target ≈ source) := by
  constructor
  · rintro plan store i op hop hsource rfl hfile hlog
    constructor
    · intro hkind
      have htransfers := transfers_of_logged hop (.inl hkind) hsource hroot hfile hlog
      have hview := htransfers.file_view MemoryStore.serves_backend hfile hroot
      exact hview.2.1 (by simp [hkind])
    · intro hkind
      have htransfers := transfers_of_logged hop (.inr hkind) hsource hroot hfile hlog
      have hview := htransfers.file_view MemoryStore.serves_backend hfile hroot
      exact hview.2.2 hkind
  · intro store store' hfile hmove
    exact MemoryStore.serves_backend.moveEntry_file hfile hroot hmove

/-- A store with one file, `/r/a.txt`. -/
def oneFile : MemoryStore := MemoryStore.empty.withFile (.ofText "/r/a.txt") ⟨#[120]⟩

/-- The plan to move that file. -/
def moveOneFile (target : Path) : Plan where
  operations := [⟨.move, target, some (.ofText "/r/a.txt"), false, 0, "", none, none⟩]
  options := { root := .ofText "/r" }
  frontMatter := none

theorem transfer_keeps_content_renamed :
    (storeBefore (moveOneFile (.ofText "/r/b.txt")) oneFile 1).node? (.ofText "/r/b.txt") =
      some (.file ⟨#[120]⟩) := by
  have hkeeps := (transfer_keeps_content (.ofText "/r/a.txt") (.ofText "/r/b.txt") ⟨#[120]⟩
    (by decide +kernel)).1 (moveOneFile (.ofText "/r/b.txt")) oneFile 0
    ⟨.move, .ofText "/r/b.txt", some (.ofText "/r/a.txt"), false, 0, "", none, none⟩ rfl rfl rfl
    (by decide +kernel) (by decide +kernel)
  exact (hkeeps.2 rfl).mpr (by decide +kernel)

/-- A file that is moved onto itself is lost, and the move is logged as succeeded all the same. -/
theorem move_onto_itself_loses :
    let moved := runFrom oneFile (execute MemoryStore.backend (fun _ ↦ none)
      { root := .ofText "/r" } "(a.txt)").run
    let renamed := runFrom oneFile
      (MemoryStore.backend.moveEntry (.ofText "/r/a.txt") (.ofText "/r/a.txt")).run
    oneFile.WellFormed ∧ oneFile.node? (.ofText "/r/a.txt") = some (.file ⟨#[120]⟩) ∧
      moved.1.toOption.map Report.log =
        some [⟨.move, .ofText "/r/a.txt", some (.ofText "/r/a.txt"), false, .succeeded⟩] ∧
      moved.2.node? (.ofText "/r/a.txt") = none ∧
      renamed.1.toOption = some () ∧ renamed.2.node? (.ofText "/r/a.txt") = none := by
  decide +kernel

end Execution

end Scaffold
