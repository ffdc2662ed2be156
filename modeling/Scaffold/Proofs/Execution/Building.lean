import Scaffold.Proofs.Execution.Run
import Scaffold.Proofs.Plan.Described
import Scaffold.Proofs.Store.Calls
import Scaffold.Proofs.Store.Directories

/-!
# Building a tree

A text that only describes files and directories is built as it is described, where nothing is in
the way (`execute_builds`). The operations make a tree, so each of them finds the directory that it
needs, and nothing in the place of its entry.

The store is known after every operation (`Built`): the entries of the operations that are done are
there, the root and what is above it are directories as soon as there was one operation, and
everything else is as it was. So the root and the directories that were made are open for further
entries (`Built.isOpen`), and one more operation makes its entry and nothing else (`Built.step`).
-/

namespace Scaffold.Execution

open MemoryStore Planner

variable {s s' : MemoryStore} {q around : Path} {op : Operation} {name : EntryName}

/-! ### Empty entries -/

/-- What an operation that creates something stores. -/
def emptyNode (op : Operation) : StoredNode :=
  if op.isDirectory then .dir else .file ByteArray.empty

/-- In `s'` the entry of an operation is there, with the directory `around` it, and otherwise it is
like `s`. -/
def Adds (op : Operation) (around : Path) (s s' : MemoryStore) : Prop :=
  ∀ q, s'.node? q =
    if op.target ≈ q then some (emptyNode op)
    else if s.node? q = none ∧ q.Supports around then some .dir else s.node? q

theorem Adds.keeps (h : Adds op around s s') (hnone : s.node? op.target = none) {n : StoredNode}
    (hq : s.node? q = some n) : s'.node? q = some n := by
  rw [h, if_neg fun htarget ↦ by simp [← s.node?_congr htarget, hnone] at hq, if_neg, hq]
  rintro ⟨hmissing, -⟩
  rw [hq] at hmissing
  cases hmissing

/-- The directory around the entry is there, with all that supports it. -/
theorem Adds.supports (h : Adds op around s s') (hnone : s.node? op.target = none)
    (hparts : op.target.parts = around.parts ++ [.entry name]) (hopen : s.IsOpen around)
    (hq : q.Supports around) : s'.node? q = some .dir := by
  rcases hopen.clear q hq with hmissing | hdir
  · have hapart : ¬op.target ≈ q := fun htarget ↦ by
      have hlength := hq.1.length_le
      rw [← Path.equiv_iff.mp htarget, hparts, List.length_append, List.length_singleton] at hlength
      omega
    rw [h, if_neg hapart, if_pos ⟨hmissing, hq⟩]
  · exact h.keeps hnone hdir

/-- **An empty entry is made** where nothing is, with the directories that are missing for it. -/
theorem runFrom_makeEmpty (hparts : op.target.parts = around.parts ++ [.entry name])
    (haround : s.IsOpen around) (hfree : s.kindOf? op.target = none) :
    ∃ s', runFrom s (makeEmpty backend op).run = (.ok (), s') ∧ Adds op around s s' := by
  have hnone : s.node? op.target = none := by
    rwa [kindOf?_of_not_root (s.isRoot_eq_false (by simp [hfree])), Option.map_eq_none_iff] at hfree
  unfold makeEmpty
  rcases hdir : op.isDirectory with - | -
  · obtain ⟨parent, hparent, hsame⟩ := Path.parent?_of_parts hparts
    have hopen := haround.congr (Path.equiv_iff.mpr (Path.equiv_iff.mp hsame).symm)
    have hne := Path.parts_ne_nil_of_absolute hopen.isAbsolute
    obtain ⟨s₁, hmade, hview⟩ := hopen.mkdir
    have hensured : runFrom s (ensureParent backend op.target).run = (.ok (), s₁) := by
      unfold ensureParent
      simp only [hparent, Path.isEmpty_eq_false hne, Bool.false_eq_true, if_false]
      exact run_ensureDir_eq_ok_iff.mpr hmade
    -- the directory around the file is there now, and nothing is in the place of the file
    have hthere : s₁.kindOf? parent = some .directory :=
      (of_mkdir hmade).2 (Path.isEmpty_eq_false hne)
    have hfree₁ : s₁.kindOf? op.target = none := by
      have hroot : op.target.isRoot = false := s.isRoot_eq_false (by simp [hfree])
      rw [kindOf?_of_not_root hroot, hview, if_neg, hnone]
      · rfl
      · rintro ⟨-, hsupports⟩
        have hlength := hsupports.1.length_le
        rw [hparts, ← Path.equiv_iff.mp hsame, List.length_append, List.length_singleton] at hlength
        omega
    have hwritten : s₁.write op.target ByteArray.empty =
        .ok (s₁.insert op.target (.file ByteArray.empty)) := by
      have hrequired : s₁.requireParent op.target = .ok () := by
        simp [requireParent, hparent, hthere]
      simp only [write, hfree₁, hrequired]
      rfl
    refine ⟨_, run_bind_eq_ok_iff.mpr ⟨(), s₁, hensured, run_changing_eq_ok_iff.mpr hwritten⟩,
      fun q ↦ ?_⟩
    simp only [node?_insert, hview, emptyNode, hdir, Path.Supports, Path.equiv_iff.mp hsame]
    rfl
  · obtain ⟨s', hmade, hview⟩ := (haround.concat hparts hfree).mkdir
    refine ⟨s', run_ensureDir_eq_ok_iff.mpr hmade, fun q ↦ ?_⟩
    simp only [hview, emptyNode, hdir, if_true, Path.supports_concat_iff hparts]
    by_cases hq : op.target ≈ q
    · rw [if_pos ⟨s.node?_congr hq ▸ hnone, .inl hq⟩, if_pos hq]
    · simp only [hq, false_or, if_false]

/-! ### Trees of operations -/

/-- Where the entries of a tree are made: nothing is stored at or below the root of the tree, and
there is no file above it. -/
structure Vacant (store : MemoryStore) (root : Path) : Prop where
  isAbsolute : root.isAbsolute = true
  not_root : root.isRoot = false
  free : ∀ q : Path, q.startsWith root = true → store.node? q = none
  clear : ∀ q ∈ root.ancestors, store.kindOf? q ≠ some .file

/-- The store has the entries of the operations and the directories that support them, and is
otherwise as it was. -/
structure Built (store : MemoryStore) (root : Path) (done : List Operation) (s : MemoryStore) :
    Prop where
  made : ∀ op ∈ done, s.node? op.target = some (emptyNode op)
  rest : ∀ q : Path, (∀ op ∈ done, ¬op.target ≈ q) →
    s.node? q = if done ≠ [] ∧ q.Supports root then some .dir else store.node? q
  supported : ∀ op ∈ done, op.isDirectory = true → ∀ q : Path, q.Supports op.target →
    s.node? q = some .dir

variable {store : MemoryStore} {root : Path} {done : List Operation}

/-- What supports the root is missing or a directory. -/
theorem Vacant.supports (h : Vacant store root) (hq : q.Supports root) :
    store.node? q = none ∨ store.node? q = some .dir := by
  have hself : store.kindOf? root ≠ some .file := by
    simp [kindOf?_of_not_root h.not_root, h.free root (Path.startsWith_of_equiv rfl)]
  exact (clear_iff h.isAbsolute).mpr (List.forall_mem_cons.mpr ⟨hself, h.clear⟩) q hq

/-- What supports the root is none of the entries that are made below it. -/
theorem not_equiv_of_supports {target : Path} (hbelow : target.startsWith root = true)
    (hne : ¬target ≈ root) (hq : q.Supports root) : ¬target ≈ q := by
  intro htarget
  have hstarts := Path.startsWith_iff.mp hbelow
  have hsupports : target.parts <+: root.parts := Path.equiv_iff.mp htarget ▸ hq.1
  exact hne (Path.equiv_iff.mpr (hsupports.eq_of_length_le hstarts.length_le))

/-- The root and the directories that were made are open. -/
theorem Built.isOpen (h : Built store root done s) (hroom : Vacant store root)
    (hbelow : ∀ op ∈ done, op.target.startsWith root = true ∧ ¬op.target ≈ root)
    (haround : around = root ∨ ∃ dir ∈ done, dir.isDirectory = true ∧ dir.target = around) :
    s.IsOpen around := by
  rcases haround with rfl | ⟨dir, hdir, hisDir, rfl⟩
  · have hview : ∀ q : Path, q.Supports around →
        s.node? q = if done ≠ [] then some .dir else store.node? q := by
      intro q hq
      rw [h.rest q fun op hop ↦ not_equiv_of_supports (hbelow op hop).1 (hbelow op hop).2 hq]
      simp [hq]
    refine ⟨hroom.isAbsolute, fun q hq ↦ ?_, fun hkind q hq ↦ ?_⟩
    · rw [hview q hq]
      split
      · exact .inr rfl
      · exact hroom.supports hq
    · have hself : around.Supports around := ⟨List.prefix_rfl,
        Path.parts_ne_nil_of_absolute hroom.isAbsolute, hroom.not_root⟩
      rw [hview q hq, if_pos]
      rintro rfl
      rw [kindOf?_of_not_root hroom.not_root, hview around hself, if_neg (by simp),
        hroom.free around (Path.startsWith_of_equiv rfl)] at hkind
      cases hkind
  · exact ⟨Path.isAbsolute_of_prefix hroom.isAbsolute
      (Path.startsWith_iff.mp (hbelow dir hdir).1),
      fun q hq ↦ .inr (h.supported dir hdir hisDir q hq),
      fun _ q hq ↦ h.supported dir hdir hisDir q hq⟩

/-- **One more operation** makes its entry, and nothing else. -/
theorem Built.step (h : Built store root done s) (hroom : Vacant store root)
    (hbelow : ∀ op' ∈ done ++ [op], op'.target.startsWith root = true ∧ ¬op'.target ≈ root)
    (hparts : op.target.parts = around.parts ++ [.entry name])
    (haround : around = root ∨ ∃ dir ∈ done, dir.isDirectory = true ∧ dir.target = around)
    (hfresh : ∀ op' ∈ done, ¬op'.target ≈ op.target) :
    ∃ s', runFrom s (makeEmpty backend op).run = (.ok (), s') ∧
      Built store root (done ++ [op]) s' := by
  have hdone : ∀ op' ∈ done, op'.target.startsWith root = true ∧ ¬op'.target ≈ root :=
    fun op' hop' ↦ hbelow op' (List.mem_append_left _ hop')
  obtain ⟨hstart, hne⟩ := hbelow op (by simp)
  have hopen := h.isOpen hroom hdone haround
  have hself : op.target.Supports op.target := (Path.supports_concat_iff hparts).mpr (.inl rfl)
  have hunsupported : ¬op.target.Supports root := fun hq ↦ not_equiv_of_supports hstart hne hq rfl
  have hfree : s.kindOf? op.target = none := by
    rw [kindOf?_of_not_root hself.2.2, h.rest _ hfresh, if_neg fun h ↦ hunsupported h.2,
      hroom.free _ hstart]
    rfl
  have hnone : s.node? op.target = none := by
    rwa [kindOf?_of_not_root hself.2.2, Option.map_eq_none_iff] at hfree
  obtain ⟨s', hmade, hadds⟩ := runFrom_makeEmpty hparts hopen hfree
  have hsupported : ∀ q : Path, q.Supports around → s'.node? q = some .dir :=
    fun _ ↦ hadds.supports hnone hparts hopen
  refine ⟨s', hmade, fun op' hop' ↦ ?_, fun q hq ↦ ?_, fun op' hop' hisDir q hq ↦ ?_⟩
  · rcases List.mem_append.mp hop' with hop' | hop'
    · exact hadds.keeps hnone (h.made op' hop')
    · obtain rfl := List.mem_singleton.mp hop'
      rw [hadds, if_pos rfl]
  · have hrest := h.rest q fun op' hop' ↦ hq op' (List.mem_append_left _ hop')
    by_cases hroot : q.Supports root
    · rw [if_pos ⟨by simp, hroot⟩]
      refine hsupported q ?_
      rcases haround with rfl | ⟨dir, hdir, -, rfl⟩
      · exact hroot
      · exact ⟨hroot.1.trans (Path.startsWith_iff.mp (hdone dir hdir).1), hroot.2⟩
    · rw [if_neg fun h ↦ hroot h.2] at hrest ⊢
      rw [hadds, if_neg (hq op (by simp)), ← hrest, if_neg]
      -- what supports the directory around the entry is there, unless it supports the root
      rintro ⟨hmissing, hsupports⟩
      rcases haround with rfl | ⟨dir, hdir, hisDir, rfl⟩
      · exact hroot hsupports
      · rw [h.supported dir hdir hisDir q hsupports] at hmissing
        cases hmissing
  · rcases List.mem_append.mp hop' with hop' | hop'
    · exact hadds.keeps hnone (h.supported op' hop' hisDir q hq)
    · obtain rfl := List.mem_singleton.mp hop'
      rcases (Path.supports_concat_iff hparts).mp hq with htarget | hq
      · rw [hadds, if_pos htarget, emptyNode, hisDir]
        rfl
      · exact hsupported q hq

/-! ### The run -/

/-- A run that has gone well so far, and has nothing left to complete. -/
structure Flawless (ops : List Operation) (n : Nat) (run : Run) : Prop where
  log : run.log.toList = (ops.take n).map (·.logged .succeeded)
  warnings : run.warnings = #[]
  pending : run.pending = []

variable {plan : Plan}

/-- **What a run has built in front of a position.** -/
theorem built_runBefore (hroom : Vacant store root) (htree : IsTree root plan.operations)
    (hclean : plan.warnings = []) {n : Nat} (hn : n ≤ plan.operations.length) :
    let before := runFrom store (runBefore backend plan n)
    Flawless plan.operations n before.1 ∧ Built store root (plan.operations.take n) before.2 := by
  refine runBefore_induction (fun n run s ↦ Flawless plan.operations n run ∧
    Built store root (plan.operations.take n) s) ?_ (fun n op run s hop h ↦ ?_) hn
  · rw [start_eq, hclean]
    exact ⟨⟨rfl, rfl, rfl⟩, ⟨by simp, by simp, by simp⟩⟩
  · obtain ⟨hflawless, hbuilt⟩ := h
    have htake : plan.operations.take (n + 1) = plan.operations.take n ++ [op] := by
      rw [List.take_add_one, hop]
      rfl
    have hkind := htree.creates op (List.mem_of_getElem? hop)
    obtain ⟨around, name, hparts, haround⟩ := htree.inside n op hop
    have hdistinct := htree.distinct.sublist (List.take_sublist (n + 1) plan.operations)
    rw [htake, List.pairwise_append] at hdistinct
    obtain ⟨s', hmade, hbuilt'⟩ := hbuilt.step hroom
      (fun op' hop' ↦ htree.below op' (List.mem_of_mem_take (htake ▸ hop'))) hparts haround
      (fun op' hop' ↦ hdistinct.2.2 op' hop' op List.mem_cons_self)
    have hstep : runFrom s (step backend plan n op run) = (run.record op .succeeded, s') := by
      simp [step, Run.skips, hkind, create, hmade]
    simp only [advance, runFrom_bind, hstep]
    rw [settleMoves_of_ahead n (by simp [Run.record, hflawless.pending]), htake]
    refine ⟨⟨?_, hflawless.warnings, hflawless.pending⟩, hbuilt'⟩
    rw [htake]
    simp [Run.record, hflawless.log]

/-- **A tree is built** without a warning, all of it and nothing else. -/
theorem built_executePlan (hroom : Vacant store root) (htree : IsTree root plan.operations)
    (hclean : plan.warnings = []) :
    let done := runFrom store (executePlan backend plan)
    done.1.warnings = [] ∧ done.1.log = plan.operations.map (·.logged .succeeded) ∧
      Built store root plan.operations done.2 := by
  obtain ⟨hflawless, hbuilt⟩ := built_runBefore hroom htree hclean le_rfl
  have hlog := hflawless.log
  rw [List.take_length] at hlog hbuilt
  simp only [executePlan_eq, runFrom_bind, runFrom_pure, Run.report]
  exact ⟨by rw [hflawless.warnings], hlog, hbuilt⟩

/-! ### Texts -/

/-- **A described tree is exactly what gets built.** Let a text be planned of which every line
creates something, with any rules, and let the names that come out be single names, different ones
in each directory; a slash at the end of a name makes no difference. Let the root of the structure
be an absolute path other than the root directory, with nothing stored at or below it and no file
above it. Then nothing is warned of and every operation succeeds. There is an entry for each
operation at its target, an empty file or a directory, and all of these are different. If there is
an operation at all, the root and what is above it are directories. Everything else is as it was. -/
theorem execute_builds {readBlock : String → Option FrontMatter} {options : PlanOptions}
    {text : String} {plan : Plan} {store store' : MemoryStore}
    (hcreates : OnlyCreates readBlock text)
    (hplan : runFrom store (Planner.plan MemoryStore.backend readBlock options text).run =
      (.ok plan, store'))
    (hnames : WellNamed plan.operations) (hroom : Vacant store options.root) :
    ∃ report final,
      runFrom store (execute MemoryStore.backend readBlock options text).run =
        (.ok report, final) ∧
      report.warnings = [] ∧ report.log = plan.operations.map (·.logged .succeeded) ∧
      (plan.operations.Pairwise fun op op' ↦ ¬op.target ≈ op'.target) ∧
      (∀ op ∈ plan.operations, final.node? op.target =
        some (if op.isDirectory then .dir else .file ByteArray.empty)) ∧
      ∀ q : Path, (∀ op ∈ plan.operations, ¬op.target ≈ q) → final.node? q =
        if plan.operations ≠ [] ∧ q.parts <+: options.root.parts ∧ q.parts ≠ [] ∧ q.isRoot = false
        then some .dir else store.node? q := by
  obtain ⟨rfl, hkinds⟩ := plan_of_onlyCreates hcreates hplan
  have htree := isTree_plan hplan (fun op hop ↦ (hkinds op hop).1) hnames
  have hclean : plan.warnings = [] := by
    rw [Plan.warnings, List.filterMap_eq_nil_iff]
    intro op hop
    simp [(hkinds op hop).2]
  obtain ⟨hwarnings, hlog, hbuilt⟩ := built_executePlan hroom htree hclean
  exact ⟨_, _, runFrom_execute hplan, hwarnings, hlog, htree.distinct, hbuilt.made, hbuilt.rest⟩

/-- A directory with a file and another directory in it, beside which another file is created. -/
def describedTree : String := "src\n\tmain.rs\n\tbin\nREADME.md"

/-- The options to build it with, under which something is renamed. -/
def treeOptions : PlanOptions := { root := .ofText "/r/x", rules := ⟨[⟨"main", "lib"⟩], [], []⟩ }

/-- A store with something else in the directory in which it is built. -/
def besideStore : MemoryStore := MemoryStore.empty.withFile (.ofText "/r/y.txt") ⟨#[121]⟩

/-- The plan for it. -/
def treePlan : Except PlanError Plan × MemoryStore :=
  runFrom besideStore (Planner.plan MemoryStore.backend (fun _ ↦ none) treeOptions
    describedTree).run

theorem onlyCreates_describedTree : OnlyCreates (fun _ ↦ none) describedTree := by
  have hkinds : ∀ line ∈ parseLines ["src", "\tmain.rs", "\tbin", "README.md"],
      ∃ name ∈ ["src", "main.rs", "bin", "README.md"], line.kind = .create name := by
    decide +kernel
  refine ⟨["src", "\tmain.rs", "\tbin", "README.md"], by decide +kernel, fun line hline ↦ ?_⟩
  obtain ⟨name, -, hname⟩ := hkinds line hline
  exact ⟨name, hname⟩

theorem execute_builds_described : ∃ report final,
    runFrom besideStore (execute MemoryStore.backend (fun _ ↦ none) treeOptions
      describedTree).run = (.ok report, final) ∧
    report.warnings = [] ∧ final.node? (.ofText "/r/x/src/lib.rs") = some (.file ByteArray.empty) ∧
    final.node? (.ofText "/r/x") = some .dir ∧
    final.node? (.ofText "/r/y.txt") = some (.file ⟨#[121]⟩) := by
  have hplanned : ∃ plan s₀, treePlan = (.ok plan, s₀) ∧
      (∀ op ∈ plan.operations,
        ∃ name ∈ [EntryName.spelled "src" (by decide), .spelled "lib.rs" (by decide),
            .spelled "bin" (by decide), .spelled "README.md" (by decide)],
          (Path.ofText op.name).parts = [.entry name]) ∧
      (plan.operations.Pairwise fun op op' ↦
        op.parent = op'.parent → ¬Path.ofText op.name ≈ Path.ofText op'.name) ∧
      (plan.operations ≠ [] ∧ ∀ op ∈ plan.operations,
        ¬op.target ≈ .ofText "/r/x" ∧ ¬op.target ≈ .ofText "/r/y.txt") ∧
      ∃ op ∈ plan.operations, op.target ≈ .ofText "/r/x/src/lib.rs" ∧ op.isDirectory = false :=
    exists_runFrom_eq_ok (by decide +kernel)
  obtain ⟨plan, s₀, hplan, hsingle, hdistinct, ⟨hsome, hapart⟩, op, hop, htarget, hisDir⟩ :=
    hplanned
  have hnames : WellNamed plan.operations := by
    refine ⟨fun op hop ↦ ?_, hdistinct⟩
    obtain ⟨name, -, hname⟩ := hsingle op hop
    exact ⟨name, hname⟩
  have hfree : ∀ e ∈ besideStore.entries, ¬(Path.ofText "/r/x").parts <+: e.path.parts := by
    decide +kernel
  have hroom : Vacant besideStore treeOptions.root := by
    refine ⟨by decide +kernel, by decide +kernel, fun q hq ↦ ?_, by decide +kernel⟩
    by_contra hstored
    obtain ⟨n, hn⟩ := Option.ne_none_iff_exists'.mp hstored
    obtain ⟨e, he, heq, -⟩ := node?_eq_some_iff.mp hn
    exact hfree e he (Path.equiv_iff.mp heq ▸ Path.startsWith_iff.mp hq)
  obtain ⟨report, final, hrun, hwarnings, -, -, hmade, hrest⟩ :=
    execute_builds onlyCreates_describedTree hplan hnames hroom
  refine ⟨report, final, hrun, hwarnings, ?_, ?_, ?_⟩
  · rw [← final.node?_congr htarget, hmade op hop, hisDir]
    rfl
  · rw [hrest _ fun op hop ↦ (hapart op hop).1, if_pos ⟨hsome, by decide +kernel⟩]
  · rw [hrest _ fun op hop ↦ (hapart op hop).2, if_neg (fun h ↦ absurd h.2 (by decide +kernel))]
    decide +kernel

end Scaffold.Execution
