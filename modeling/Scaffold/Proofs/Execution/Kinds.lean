import Scaffold.Proofs.Execution.Extent
import Scaffold.Proofs.Execution.Fallback

/-!
# What kind of entry an operation leaves

The log says of every operation whether it is for a directory, and that is read off the name of its
target. An operation that creates an entry, or carries one along, goes by it. A transfer does not:
it looks at its source when its turn comes and leaves what it has found there (`kindLeft?`), so a
file that is copied under the name of a directory is a file, and the log does not say so
(`transfer_leaves_source_kind`).

Behind a step that has succeeded there is an entry of this kind at the target
(`succeeded_leaves_kind`). Files are written there last. A directory is made first, and stays one
while its contents are copied, because nothing is written in the place of a directory
(`keeps_directory`); and when its source is removed it is not below it. Two things are left out. A
file that is moved onto itself is gone, and a directory at the empty path is no entry of a store.
-/

namespace Scaffold

namespace MemoryStore

variable {s s' : MemoryStore} {p q : Path} {bytes : ByteArray}

/-- What is written is a file. -/
theorem kindOf?_of_write (h : s.write p bytes = .ok s') : s'.kindOf? p = some .file := by
  obtain ⟨hkind, rfl⟩ := of_write h
  have hnode : (s.insert p (.file bytes)).node? p = some (.file bytes) := by
    rw [node?_insert, if_pos rfl]
  exact kindOf?_of_node? (s.isRoot_eq_false hkind) hnode

/-- Nothing is written in the place of a directory. -/
theorem directory_of_write (h : s.write p bytes = .ok s') (hq : s.kindOf? q = some .directory) :
    s'.kindOf? q = some .directory := by
  obtain ⟨hkind, rfl⟩ := of_write h
  have hne : ¬p ≈ q := fun hpq ↦ hkind (by rw [s.kindOf?_congr hpq, hq])
  exact kindOf?_directory_of (fun hnode ↦ by rw [node?_insert, if_neg hne, hnode]) hq

theorem directory_of_mkdir (h : s.mkdir p true = .ok s') (hq : s.kindOf? q = some .directory) :
    s'.kindOf? q = some .directory :=
  (of_mkdir h).1.kindOf?_keeps hq

end MemoryStore

namespace Execution

open MemoryStore

variable {σ : Type} {b : Backend (StateM σ)} {view : σ → MemoryStore} {plan : Plan}
  {op : Operation} {source target : Path} {s s' : σ}

/-! ### What the calls leave -/

theorem kindOf?_of_copyFile (hb : Serves b view)
    (hok : runFrom s (b.copyFile source target).run = (.ok (), s')) :
    (view s').kindOf? target = some .file := by
  obtain ⟨bytes, -, hwrite⟩ := copyFile_cases ((hb.copyFile source target s s').1 hok)
  exact kindOf?_of_write hwrite

/-- **Directories stay** while entries are made and copied. -/
theorem keeps_directory (hb : Serves b view) (op : Operation) (q : Path) :
    Keeps b view (Preserved fun store ↦ store.kindOf? q = some .directory) op where
  exists_ p s := by
    rw [(hb.exists_ p s).1]
    exact refl _
  byCalls := hb.byCalls
  stat p := (hb.stat p).leads
  list p := (hb.list p).leads
  mkdir p _ := (hb.mkdir p true).leads fun _ _ hmkdir hq ↦ directory_of_mkdir hmkdir hq
  write p bytes _ := (hb.write p bytes).leads fun _ _ hwrite hq ↦ directory_of_write hwrite hq
  copyFile source p _ := (hb.copyFile source p).leads fun _ _ hcopy hq ↦ by
    obtain ⟨bytes, -, hwrite⟩ := copyFile_cases hcopy
    exact directory_of_write hwrite hq

/-- A relation that holds wherever a computation leads holds where it has led. -/
theorem related_of_leads {α : Type} {R : MemoryStore → MemoryStore → Prop}
    {x : Attempt (StateM σ) α} {result : Except StorageError α}
    (hrun : runFrom s x.run = (result, s')) (hleads : Leads view R x) : R (view s) (view s') := by
  have hs := hleads s
  rwa [hrun] at hs

/-- **A directory that is copied as a whole** is made first, and stays. -/
theorem directory_of_copyFolder (hb : Serves b view) (hkind : op.kind = .copy ∨ op.kind = .move)
    (hempty : op.target.isEmpty = false)
    (hok : runFrom s (b.copyFolder source op.target).run = (.ok (), s')) :
    (view s').kindOf? op.target = some .directory := by
  have hkeeps := keeps_directory hb op op.target
  obtain ⟨depth, hdepth⟩ := b.exists_copyFolderWithin source op.target s
  rw [hb.byCalls.copyFolder_eq, hdepth] at hok
  rcases depth with - | depth
  · cases hok
  · rw [Calls.copyFolderWithin_succ] at hok
    obtain ⟨⟨⟩, s₂, hdir, hrest⟩ := run_bind_eq_ok_iff.mp hok
    have hplace : ∀ (name : EntryName) (q : Path), q.startsWith (op.target.child name) = true →
        Places op q := fun name q hq ↦ by
      rw [Path.startsWith_iff, Path.parts_child] at hq
      exact .inr ⟨hkind, Path.startsWith_iff.mpr ((List.prefix_append _ _).trans hq)⟩
    refine related_of_leads hrest (.bind (hkeeps.list source) fun listing ↦
      .bind (.forIn fun entry _ ↦ ?_) fun _ ↦ .pure _) ((hb.ensureDir_ok hdir).2 hempty)
    split
    · exact .bind (hkeeps.copyFolderWithin depth (hplace entry.name)) fun _ ↦ .pure _
    · exact .bind (hkeeps.copyFile _ _ (hplace entry.name _ (Path.startsWith_of_equiv rfl)))
        fun _ ↦ .pure _

/-! ### What the operations leave -/

/-- The kind of what an operation that starts in the store leaves at its target: a transfer that of
its source, any other operation the one of which its entry in the log speaks. -/
def kindLeft? (op : Operation) (store : MemoryStore) : Option EntryKind :=
  match op.kind, op.source with
  | .copy, some source | .move, some source => store.kindOf? source
  | _, _ => some (.ofIsDirectory op.isDirectory)

theorem kindLeft?_of_transfer (hkind : op.kind = .copy ∨ op.kind = .move)
    (hsource : op.source = some source) (store : MemoryStore) :
    kindLeft? op store = store.kindOf? source := by
  rcases hkind with h | h <;> simp [kindLeft?, h, hsource]

theorem kindLeft?_of_own (h : op.kind = .create ∨ op.kind = .included ∨ op.source = none)
    (store : MemoryStore) : kindLeft? op store = some (.ofIsDirectory op.isDirectory) := by
  unfold kindLeft?
  split <;> simp_all

/-- An empty entry is of the kind of which the log speaks. -/
theorem kindOf?_of_makeEmpty (hb : Serves b view)
    (hempty : op.isDirectory = true → op.target.isEmpty = false)
    (hok : runFrom s (makeEmpty b op).run = (.ok (), s')) :
    (view s').kindOf? op.target = some (.ofIsDirectory op.isDirectory) := by
  unfold makeEmpty at hok
  split at hok
  · rename_i hdir
    rw [hdir]
    exact (hb.ensureDir_ok hok).2 (hempty hdir)
  · rename_i hfile
    rw [Bool.not_eq_true] at hfile
    obtain ⟨⟨⟩, s₁, hparent, hwrite⟩ := run_bind_eq_ok_iff.mp hok
    rw [hfile]
    exact kindOf?_of_write ((hb.write _ _ s₁ s').1 hwrite)

/-- What is carried along is, too. -/
theorem kindOf?_of_tryInclude (hb : Serves b view)
    (hempty : op.isDirectory = true → op.target.isEmpty = false)
    (hok : runFrom s (tryInclude b op source).run = (.ok (), s')) :
    (view s').kindOf? op.target = some (.ofIsDirectory op.isDirectory) := by
  obtain ⟨there, s₁, hasked, hdone⟩ := run_bind_eq_ok_iff.mp hok
  split at hdone
  · split at hdone
    · rename_i hdir
      rw [hdir]
      exact (hb.ensureDir_ok hdone).2 (hempty hdir)
    · rename_i hfile
      rw [Bool.not_eq_true] at hfile
      obtain ⟨⟨⟩, s₂, hparent, hcopy⟩ := run_bind_eq_ok_iff.mp hdone
      rw [hfile]
      exact kindOf?_of_copyFile hb hcopy
  · cases hdone

/-- **What is transferred** is of the kind of its source. -/
theorem Transfers.kindOf?_target (hb : Serves b view) {last? : Option Nat}
    {pending : Option PendingMove} (h : Transfers b last? op source s pending s')
    (hkind : op.kind = .copy ∨ op.kind = .move)
    (hself : op.kind = .move → ¬source ≈ op.target)
    (hempty : (view s).kindOf? source = some .directory → op.target.isEmpty = false) :
    ∃ kind, (view s).kindOf? source = some kind ∧ (view s').kindOf? op.target = some kind := by
  cases h with
  | file hstat hfile hparent hcopy hunlink =>
    rename_i found s₁ s₂ s₃
    have hleft := kindOf?_of_copyFile hb hcopy
    refine ⟨.file, by rw [(hb.stat_ok hstat).2, hfile], ?_⟩
    split at hunlink
    · rename_i hmove
      have hother : (view s₃).kindOf? op.target ≠ some .directory := by
        rw [hleft]
        decide
      have hroot := (view s₃).isRoot_eq_false hother
      rw [kindOf?_of_not_root hroot] at hleft ⊢
      rw [hb.unlink_ok hunlink, node?_erase, if_neg (hself hmove), hleft]
    · rw [← hunlink, hleft]
  | opens hstat hdir houtside hlast hmade =>
    have hsource := (hb.stat_ok hstat).2
    rw [hdir] at hsource
    exact ⟨.directory, hsource, (hb.ensureDir_ok hmade).2 (hempty hsource)⟩
  | whole hstat hdir houtside hlast hfolder =>
    have hsource := (hb.stat_ok hstat).2
    rw [hdir] at hsource
    refine ⟨.directory, hsource, ?_⟩
    split at hfolder
    rw [hb.byCalls.moveFolder_eq] at hfolder
    · obtain ⟨⟨⟩, s₂, hcopy, hrm⟩ := run_bind_eq_ok_iff.mp hfolder
      refine kindOf?_directory_of (fun hnode ↦ ?_)
        (directory_of_copyFolder hb hkind (hempty hsource) hcopy)
      rw [node?_of_rm ((hb.rm source true s₂ s').1 hrm) houtside, hnode]
    · exact directory_of_copyFolder hb hkind (hempty hsource) hfolder

/-- **A step that has succeeded** leaves an entry of the kind that its operation leaves. -/
theorem Steps.kindOf?_target (hb : Serves b view) {i : Nat} {run run' : Run}
    (h : Steps b plan i op run s run' s')
    (hlog : run'.log = run.log.push (op.logged .succeeded))
    (hself : op.kind = .move → ∀ source ∈ op.source, ¬source ≈ op.target)
    (hempty : kindLeft? op (view s) = some .directory → op.target.isEmpty = false) :
    ∃ kind, kindLeft? op (view s) = some kind ∧ (view s').kindOf? op.target = some kind := by
  -- an operation that goes by the log leaves a directory where the log says so
  have hown : ∀ store, kindLeft? op store = some (.ofIsDirectory op.isDirectory) →
      op.isDirectory = true → kindLeft? op store = some .directory := fun store hleft hdir ↦ by
    rw [hleft, hdir]
    rfl
  cases h with
  | skips => cases outcome_of_push hlog
  | falls hmarked houtcome =>
    have hsucceeded := outcome_of_push (by cases hmarked <;> exact hlog)
    rcases houtcome with rfl | rfl <;> cases hsucceeded
  | creates hcreate hok =>
    have hleft := kindLeft?_of_own (hcreate.imp_right .inr) (view s)
    exact ⟨_, hleft, kindOf?_of_makeEmpty hb (fun hdir ↦ hempty (hown _ hleft hdir)) hok⟩
  | includes hincluded hsource hskips hok =>
    have hleft := kindLeft?_of_own (.inr (.inl hincluded)) (view s)
    exact ⟨_, hleft, kindOf?_of_tryInclude hb (fun hdir ↦ hempty (hown _ hleft hdir)) hok⟩
  | transfers hkind hsource hexists hok =>
    rw [kindLeft?_of_transfer hkind hsource] at hempty ⊢
    rw [← hb.exists_ok hexists] at hempty ⊢
    exact (tryTransfer_cases hok).kindOf?_target hb hkind
      (fun hmove ↦ hself hmove _ hsource) hempty

/-- **An operation that has succeeded leaves an entry at its target.** Let any plan be executed on
any store, with any schedule of failures in front of the calls. When an operation is logged as
succeeded, there is an entry at its target right behind its step. What was created or carried along
is a directory if the log says so, and a file if not; what was copied or moved is what was at the
source in front of the step, whatever the log says. This leaves out the move of an entry onto
itself, and directories at the empty path. -/
theorem succeeded_leaves_kind {τ : Type} (gate : Gate τ) (plan : Plan) (store : MemoryStore) (t : τ)
    {i : Nat} {op : Operation} (hop : plan.operations[i]? = some op)
    (hlog : (runFrom (store, t)
      (executePlan (Backend.gated gate MemoryStore.backend) plan)).1.log[i]? =
        some (op.logged .succeeded)) :
    let b := Backend.gated gate MemoryStore.backend
    let before := runFrom (store, t) (runBefore b plan i)
    let behind := runFrom before.2 (step b plan i op before.1)
    (op.kind = .move → ∀ source ∈ op.source, ¬source ≈ op.target) →
    (kindLeft? op before.2.1 = some .directory → op.target.isEmpty = false) →
      ∃ kind, kindLeft? op before.2.1 = some kind ∧ behind.2.1.kindOf? op.target = some kind := by
  intro b before behind hself hempty
  have hb : Serves b (id ∘ Prod.fst) := serves_gated gate serves_backend
  exact (step_cases b plan i op before.1 before.2).kindOf?_target hb (log_of_report hop hlog)
    hself hempty

/-- A file whose name could be that of a directory, and a directory. -/
def mixedStore : MemoryStore :=
  (MemoryStore.empty.withFile (.ofText "/t/LICENSE") ⟨#[120]⟩).withFile (.ofText "/t/pkg/a.rs")
    ⟨#[121]⟩

/-- The planning of copies of the one under the name of a directory and of the other under that of a
file. -/
def mixedPlanning : Except PlanError Plan × MemoryStore × List Fault :=
  runFrom (mixedStore, []) (Planner.plan (Backend.gated Fault.gate MemoryStore.backend)
    (fun _ ↦ none) { root := .ofText "/t" } "[LICENSE] > license\n[pkg] > pkg.bak").run

/-- The copy of the file. -/
def licenseCopy : Operation :=
  ⟨.copy, .ofText "/t/license", some (.ofText "/t/LICENSE"), true, 0, "license", none, none⟩

/-- The copy of the directory. -/
def packageCopy : Operation :=
  ⟨.copy, .ofText "/t/pkg.bak", some (.ofText "/t/pkg"), false, 0, "pkg.bak", none, none⟩

/-- The planning of a directory that loses its name, in a root without one. -/
def namelessPlanning : Except PlanError Plan × MemoryStore × List Fault :=
  runFrom (MemoryStore.empty, []) (Planner.plan (Backend.gated Fault.gate MemoryStore.backend)
    (fun _ ↦ none) { root := .ofText "", rules := ⟨[⟨"x", ""⟩], [], []⟩ } "x").run

/-- The directory. -/
def namelessDirectory : Operation := ⟨.create, .ofText "", none, true, 0, "", none, none⟩

/-- What is copied under the name of a file is a directory all the same. -/
theorem succeeded_leaves_kind_mixed : ∃ plan s₀, mixedPlanning = (.ok plan, s₀) ∧
    let b := Backend.gated Fault.gate MemoryStore.backend
    let before := runFrom s₀ (runBefore b plan 1)
    let behind := runFrom before.2 (step b plan 1 packageCopy before.1)
    behind.2.1.kindOf? packageCopy.target = some .directory := by
  obtain ⟨plan, s₀, hplan, hop, hlog, hleft⟩ :
      ∃ plan s₀, mixedPlanning = (.ok plan, s₀) ∧
        let b := Backend.gated Fault.gate MemoryStore.backend
        plan.operations[1]? = some packageCopy ∧
          (runFrom s₀ (executePlan b plan)).1.log[1]? = some (packageCopy.logged .succeeded) ∧
          kindLeft? packageCopy (runFrom s₀ (runBefore b plan 1)).2.1 = some .directory :=
    exists_runFrom_eq_ok (by decide +kernel)
  obtain ⟨kind, hkind, hthere⟩ :=
    succeeded_leaves_kind Fault.gate plan s₀.1 s₀.2 hop hlog nofun fun _ ↦ by decide
  obtain rfl := Option.some.inj (hleft.symm.trans hkind)
  exact ⟨plan, s₀, hplan, hthere⟩

/-- The log calls the copied file a directory and the copied directory a file, and a directory that
has been created at the empty path is not there. -/
theorem transfer_leaves_source_kind : mixedStore.WellFormed ∧
    let b := Backend.gated Fault.gate MemoryStore.backend
    let behind (plan : Plan) (s₀ : MemoryStore × List Fault) (i : Nat) (op : Operation) :=
      let before := runFrom s₀ (runBefore b plan i)
      (runFrom before.2 (step b plan i op before.1)).2.1
    (∃ plan s₀, mixedPlanning = (.ok plan, s₀) ∧ plan.operations = [licenseCopy, packageCopy] ∧
      (runFrom s₀ (executePlan b plan)).1.log =
        [licenseCopy.logged .succeeded, packageCopy.logged .succeeded] ∧
      licenseCopy.isDirectory = true ∧
        (behind plan s₀ 0 licenseCopy).kindOf? licenseCopy.target = some .file ∧
      packageCopy.isDirectory = false ∧
        (behind plan s₀ 1 packageCopy).kindOf? packageCopy.target = some .directory) ∧
    ∃ plan s₀, namelessPlanning = (.ok plan, s₀) ∧ plan.operations = [namelessDirectory] ∧
      (runFrom s₀ (executePlan b plan)).1.log = [namelessDirectory.logged .succeeded] ∧
      (behind plan s₀ 0 namelessDirectory).kindOf? namelessDirectory.target = none := by
  exact ⟨by decide +kernel, exists_runFrom_eq_ok (by decide +kernel),
    exists_runFrom_eq_ok (by decide +kernel)⟩

end Execution

end Scaffold
