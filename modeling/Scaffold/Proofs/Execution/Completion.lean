import Scaffold.Proofs.Execution.Account
import Scaffold.Proofs.Execution.Termination

/-!
# Every run completes and accounts for itself

The calls of a backend may answer anything, and nothing bounds how far a folder call goes, so a run
can only be expected to end where its calls do. That is enough (`Backend.Answers`): a run makes
finitely many calls itself. And a run that has ended has done the same as on a backend all of whose
calls answer (`Backend.answering`), so its report accounts for it (`report_accounts`).
-/

namespace Scaffold

variable {σ α : Type}

/-! ### Calls that answer -/

/-- The computation ends, from every state. -/
def Ends (x : StateT σ Option α) : Prop := ∀ s, (x.run s).isSome = true

/-- Each call that a run makes answers; a call that transfers a folder, where the target does not
lie in the source. -/
structure Backend.Answers (b : Backend (StateT σ Option)) : Prop where
  exists_ : ∀ p, Ends (b.exists_ p)
  mkdir : ∀ p recursive, Ends (b.mkdir p recursive).run
  write : ∀ p bytes, Ends (b.write p bytes).run
  stat : ∀ p, Ends (b.stat p).run
  list : ∀ p, Ends (b.list p).run
  rm : ∀ p recursive, Ends (b.rm p recursive).run
  unlink : ∀ p, Ends (b.unlink p).run
  copyFile : ∀ source target, Ends (b.copyFile source target).run
  copyFolder : ∀ source target, target.startsWith source = false →
    Ends (b.copyFolder source target).run
  moveFolder : ∀ source target, target.startsWith source = false →
    Ends (b.moveFolder source target).run

/-- The first computation ends. -/
def completing : Lockstep (StateT σ Option) (StateT σ Option) where
  rel answers x _ := ∀ s, ∃ a s', x.run s = some (a, s') ∧ answers a
  pure {_ _ a} h s := ⟨a, s, rfl, h⟩
  bind hx hf s := by
    obtain ⟨a, s₁, hrun, ha⟩ := hx s
    obtain ⟨b, s₂, hrest, hb⟩ := hf a ha s₁
    refine ⟨b, s₂, ?_, hb⟩
    rw [StateT.run_bind, hrun]
    exact hrest

theorem Ends.completing {x : StateT σ Option α} (h : Ends x) : completing.Same x x := fun s ↦ by
  obtain ⟨⟨a, s'⟩, hrun⟩ := Option.isSome_iff_exists.mp (h s)
  exact ⟨a, s', hrun, trivial⟩

/-- **Where every call answers, every run ends.** -/
theorem Backend.Answers.matches {b : Backend (StateT σ Option)} (h : b.Answers) :
    b.Matches completing b where
  exists_ p := (h.exists_ p).completing
  mkdir p recursive := .of_same (h.mkdir p recursive).completing
  write p bytes := .of_same (h.write p bytes).completing
  stat p := .of_same (h.stat p).completing
  list p := .of_same (h.list p).completing
  rm p recursive := .of_same (h.rm p recursive).completing
  unlink p := .of_same (h.unlink p).completing
  copyFile source target := .of_same (h.copyFile source target).completing
  copyFolder source target houtside := .of_same (h.copyFolder source target houtside).completing
  moveFolder source target houtside := .of_same (h.moveFolder source target houtside).completing

/-! ### Backends that always answer -/

/-- What the computation answers and leaves; where it does not end, the given answer. -/
def answeringOr (otherwise : α) (x : StateT σ Option α) : StateM σ α := fun s ↦
  (x.run s).getD (otherwise, s)

/-- The same for a computation that can fail. -/
def tryAnswering (x : Attempt (StateT σ Option) α) : Attempt (StateM σ) α :=
  ExceptT.mk (answeringOr (.error (.failed .root "no answer")) x.run)

/-- The backend, with an answer where it has none. -/
def Backend.answering (b : Backend (StateT σ Option)) : Backend (StateM σ) where
  exists_ p := answeringOr false (b.exists_ p)
  mkdir p recursive := tryAnswering (b.mkdir p recursive)
  write p bytes := tryAnswering (b.write p bytes)
  read p := tryAnswering (b.read p)
  stat p := tryAnswering (b.stat p)
  list p := tryAnswering (b.list p)
  rm p recursive := tryAnswering (b.rm p recursive)
  unlink p := tryAnswering (b.unlink p)
  rename source target := tryAnswering (b.rename source target)
  copyFile source target := tryAnswering (b.copyFile source target)
  copyFolder source target := tryAnswering (b.copyFolder source target)
  moveFolder source target := tryAnswering (b.moveFolder source target)

/-- If the first computation ends, the second one does the same. -/
def agreeing : Lockstep (StateT σ Option) (StateM σ) where
  rel answers x y := ∀ s a s', x.run s = some (a, s') → runFrom s y = (a, s') ∧ answers a
  pure h s a s' hrun := by
    obtain ⟨rfl, rfl⟩ := Prod.mk.inj (Option.some.inj hrun)
    exact ⟨rfl, h⟩
  bind {_ _ _ _ x y f g} hx hf s b s' hrun := by
    rw [StateT.run_bind] at hrun
    rcases hfirst : x.run s with - | ⟨a, s₁⟩
    · rw [hfirst] at hrun
      cases hrun
    · rw [hfirst] at hrun
      obtain ⟨hy, ha⟩ := hx s a s₁ hfirst
      rw [runFrom_bind, hy]
      exact hf a ha s₁ b s' hrun

theorem agreeing_answeringOr (otherwise : α) (x : StateT σ Option α) :
    agreeing.Same x (answeringOr otherwise x) := by
  intro s a s' hrun
  refine ⟨?_, trivial⟩
  show (x.run s).getD (otherwise, s) = (a, s')
  rw [hrun]
  rfl

theorem agreeing_tryAnswering (x : Attempt (StateT σ Option) α) :
    agreeing.TrySame x (tryAnswering x) :=
  .of_same (agreeing_answeringOr _ x.run)

theorem Backend.agreeing_answering (b : Backend (StateT σ Option)) :
    b.Matches agreeing b.answering where
  exists_ _ := agreeing_answeringOr _ _
  mkdir _ _ := agreeing_tryAnswering _
  write _ _ := agreeing_tryAnswering _
  stat _ := agreeing_tryAnswering _
  list _ := agreeing_tryAnswering _
  rm _ _ := agreeing_tryAnswering _
  unlink _ := agreeing_tryAnswering _
  copyFile _ _ := agreeing_tryAnswering _
  copyFolder _ _ _ := agreeing_tryAnswering _
  moveFolder _ _ _ := agreeing_tryAnswering _

namespace Execution

variable {b : Backend (StateT σ Option)} {plan : Plan} {s₀ : σ}

/-! ### Directories that are moved -/

/-- In the state `s` the backend answers that there is a directory at the path. -/
def AnswersDirectory (b : Backend (StateT σ Option)) (s : σ) (p : Path) : Prop :=
  ∃ s₁ found s₂, (b.exists_ p).run s = some (true, s₁) ∧
    (b.stat p).run.run s₁ = some (.ok found, s₂) ∧ found.kind = .directory

/-- In the run from `s₀` the operation at position `i` moves the directory `p`. -/
def DirectoryMove (b : Backend (StateT σ Option)) (plan : Plan) (s₀ : σ) (i : Nat) (p : Path) :
    Prop :=
  ∃ op run s, plan.operations[i]? = some op ∧ op.kind = .move ∧ op.source = some p ∧
    (runBefore b plan i).run s₀ = some (run, s) ∧ AnswersDirectory b s p

/-- An answer that is not the one for none. -/
theorem run_of_answeringOr {otherwise : α} {x : StateT σ Option α} {s s' : σ} {a : α}
    (h : runFrom s (answeringOr otherwise x) = (a, s')) (hne : a ≠ otherwise) :
    x.run s = some (a, s') := by
  have hget : (x.run s).getD (otherwise, s) = (a, s') := h
  rcases hrun : x.run s with - | result
  · rw [hrun] at hget
    exact absurd (congrArg Prod.fst hget).symm hne
  · rw [hrun] at hget
    exact congrArg some hget

/-- Where a run ends it has come to every position. -/
theorem exists_runBefore {report : Report} {s' : σ}
    (h : (executePlan b plan).run s₀ = some (report, s')) (n : Nat) :
    ∃ run s, (runBefore b plan n).run s₀ = some (run, s) := by
  have hsplit : executePlan b plan = runBefore b plan n >>= fun run ↦
      (plan.operations.zipIdx.drop n).foldlM (advance b plan) run >>= fun run ↦
        pure (run.report plan) := by
    rw [executePlan, runBefore, ← bind_assoc, ← List.foldlM_append, List.take_append_drop]
  rw [hsplit, StateT.run_bind] at h
  rcases hbefore : (runBefore b plan n).run s₀ with - | ⟨run, s⟩
  · rw [hbefore] at h
    cases h
  · exact ⟨run, s, rfl⟩

/-- A directory is moved in the run if one is moved on the backend that always answers. -/
theorem directoryMove_of_answering {report : Report} {s' : σ} {i : Nat} {p : Path}
    (hrun : (executePlan b plan).run s₀ = some (report, s'))
    (h : MovesDirectory b.answering plan s₀ i p) : DirectoryMove b plan s₀ i p := by
  obtain ⟨op, hop, hmove, hsource, s₁, found, s₂, hexists, hstat, hkind⟩ := h
  obtain ⟨run, s, hbefore⟩ := exists_runBefore hrun i
  have hsame : agreeing.Same (runBefore b plan i) (runBefore b.answering plan i) :=
    Lockstep.Same.foldlM (fun op _ run ↦ b.agreeing_answering.advance plan run op) _
  rw [(hsame s₀ run s hbefore).1] at hexists
  exact ⟨op, run, s, hop, hmove, hsource, hbefore, s₁, found, s₂,
    run_of_answeringOr hexists (by simp), run_of_answeringOr hstat (by simp), hkind⟩

/-! ### Reports -/

/-- **Every run completes and accounts for itself.** Whatever the plan, and however the calls of the
backend succeed or fail: if each of them answers, the run ends with a report. In every report the
log has one entry for each operation, in order and with what the operation says. The warnings are
those of the plan and behind them those of the execution, each of which has an origin: the setbacks
are, one by one and in order, those of the entries that fell back or failed, under their targets,
and all others are about the sources of moved directories, of no move twice. A report without
warnings has nothing but successes. -/
theorem report_accounts (b : Backend (StateT σ Option)) (plan : Plan) (s₀ : σ) :
    (b.Answers → ∃ report s', (executePlan b plan).run s₀ = some (report, s')) ∧
    ∀ report s', (executePlan b plan).run s₀ = some (report, s') →
      List.Forall₂ (fun op entry ↦ entry.kind = op.kind ∧ entry.path = op.target ∧
        entry.source = op.source ∧ entry.isDirectory = op.isDirectory) plan.operations
        report.log ∧
      (∃ found : List (Origin × Warning),
        report.warnings =
          plan.warnings.map (fun w ↦ ⟨w.1.target, w.2⟩) ++ found.map Prod.snd ∧
        (found.filter (·.1.move?.isNone)).map (fun x ↦ x.2.path) =
          (report.log.filter (·.outcome.isSetback)).map LogEntry.path ∧
        (found.filterMap (·.1.move?)).Nodup ∧
        ∀ i w, (.kept i, w) ∈ found → DirectoryMove b plan s₀ i w.path) ∧
      (report.hadWarnings = true ↔ report.warnings ≠ []) ∧
      (report.warnings = [] → ∀ entry ∈ report.log, entry.outcome = .succeeded) := by
  refine ⟨fun hanswers ↦ ?_, fun report s' hrun ↦ ?_⟩
  · obtain ⟨report, s', hrun, -⟩ := hanswers.matches.executePlan plan s₀
    exact ⟨report, s', hrun⟩
  have hsame := (b.agreeing_answering.executePlan plan s₀ report s' hrun).1
  obtain ⟨heach, ⟨found, hwarnings, hsetbacks, honce, hkept⟩, hquiet⟩ :=
    accounted_report b.answering plan s₀
  rw [hsame] at heach hwarnings hsetbacks hquiet
  exact ⟨heach, ⟨found, hwarnings, hsetbacks, honce,
    fun i w hw ↦ directoryMove_of_answering hrun (hkept i w hw)⟩, hquiet⟩

/-- The calls of a store in memory answer, refused ones included. -/
theorem answers_of_serves {b : Backend (StateM σ)} {view : σ → MemoryStore} (hb : Serves b view) :
    b.ended.Answers where
  exists_ _ _ := rfl
  mkdir _ _ _ := rfl
  write _ _ _ := rfl
  stat _ _ := rfl
  list _ _ := rfl
  rm _ _ _ := rfl
  unlink _ _ := rfl
  copyFile _ _ _ := rfl
  copyFolder _ _ houtside s := by rw [MemoryStore.copyFolder_ends hb houtside s]; rfl
  moveFolder _ _ houtside s := by rw [MemoryStore.moveFolder_ends hb houtside s]; rfl

/-- The plan of one line that moves a directory as a whole. -/
def wholeMove : Plan :=
  { operations := [⟨.move, .ofText "/b", some (.ofText "/a"), true, 0, "b", none, none⟩]
    options := { root := .root, recursive := false }
    frontMatter := none }

/-- A directory with a file in it is moved: the run ends, with one entry in its report. -/
theorem report_accounts_whole : MemoryStore.backend.ended.Answers ∧ ∃ report s',
    (executePlan MemoryStore.backend.ended wholeMove).run
        (MemoryStore.empty.withFile (.ofText "/a/x") ⟨#[120]⟩) = some (report, s') ∧
      report.log.map LogEntry.path = [.ofText "/b"] ∧
      (report.warnings = [] → ∀ entry ∈ report.log, entry.outcome = .succeeded) := by
  obtain ⟨hcompletes, haccounts⟩ := report_accounts MemoryStore.backend.ended wholeMove
    (MemoryStore.empty.withFile (.ofText "/a/x") ⟨#[120]⟩)
  obtain ⟨report, s', hrun⟩ := hcompletes (answers_of_serves MemoryStore.serves_backend)
  obtain ⟨heach, -, -, hquiet⟩ := haccounts report s' hrun
  refine ⟨answers_of_serves MemoryStore.serves_backend, report, s', hrun, ?_, hquiet⟩
  obtain ⟨entry, rest, ⟨-, hpath, -⟩, hrest, hlog⟩ := List.forall₂_cons_left_iff.mp heach
  rw [hlog, List.forall₂_nil_left_iff.mp hrest, List.map_singleton, hpath]

end Execution

end Scaffold
