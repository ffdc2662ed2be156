import Mathlib.Data.Nat.Init
import Scaffold.Proofs.Paths
import Scaffold.Proofs.Plan.Forest

/-!
# Trees that are described

A text of which every line creates something (`OnlyCreates`) is planned without asking the store,
and its operations make a tree (`isTree_plan`): each creates one entry, in the root of the structure
or in a directory that is created in front of it, and no two create the same.

For that the names must be those of single entries, and different in each directory (`WellNamed`);
rules can make other names out of those that were written. The depth of an operation then counts the
directories between its target and the root (`target_of_placedIn`), so operations with one target
are equally deep, have parents with one target, and by induction are one operation
(`eq_of_target_equiv`).
-/

namespace Scaffold.Planner

variable {readBlock : String → Option FrontMatter} {options : PlanOptions} {text : String}
  {plan : Plan}

/-! ### Lines -/

/-- Every line creates something. -/
def OnlyCreates (readBlock : String → Option FrontMatter) (text : String) : Prop :=
  ∃ lines, Expansion.expandText (FrontMatter.extractWith readBlock (normalize text)).2 = .ok lines ∧
    ∀ line ∈ parseLines lines, ∃ name, line.kind = .create name

/-- A line that creates something adds one operation, and nothing is looked up for it. -/
theorem planLine_of_create {σ : Type} (b : Backend (StateM σ)) (options : PlanOptions)
    (progress : Progress) {line : Line} {name : String} (h : line.kind = .create name) :
    let op := lineOperation options (progress.openDirs.take line.depth) (.create name)
    let openDirs := progress.openDirs.take line.depth
    planLine b options progress line = pure
      { progress with
        operations := progress.operations.push op
        openDirs := if op.isDirectory then
          openDirs ++ [⟨op.target, progress.operations.size⟩] else openDirs } := by
  unfold planLine
  rw [h]
  simp [lineOperation]

/-- **Lines that create something** are planned without asking the store, and each operation of the
plan creates something. -/
theorem plan_of_onlyCreates {σ : Type} {b : Backend (StateM σ)} {s s' : σ}
    (h : OnlyCreates readBlock text)
    (hplan : runFrom s (Planner.plan b readBlock options text).run = (.ok plan, s')) :
    s' = s ∧ ∀ op ∈ plan.operations, op.kind = .create ∧ op.warning = none := by
  obtain ⟨lines, hlines, hcreates⟩ := h
  obtain ⟨lines', progress, hlines', hresult, hprogress⟩ := plan_cases hplan
  obtain rfl := Except.ok.inj (hlines.symm.trans hlines')
  have hall := planLines_induction (fun done progress s₁ ↦
    (∀ line ∈ done, ∃ name, line.kind = .create name) →
      s₁ = s ∧ ∀ op ∈ progress.operations, op.kind = .create ∧ op.warning = none)
    (fun _ _ _ _ h ↦ h) (fun done line progress s₁ h hdone ↦ ?_) (fun _ ↦ ⟨rfl, by simp⟩) hprogress
    hcreates
  · rw [hresult]
    simpa using hall
  · obtain ⟨hs, hops⟩ := h fun line' hline' ↦ hdone line' (List.mem_append_left _ hline')
    obtain ⟨name, hname⟩ := hdone line (by simp)
    rw [planLine_of_create b plan.options progress hname, runFrom_pure]
    refine ⟨hs, fun op hop ↦ ?_⟩
    rcases Array.mem_push.mp hop with hop | rfl
    · exact hops op hop
    · exact ⟨rfl, rfl⟩

theorem planLines_blind {σ : Type} (b : Backend (StateM σ)) (options : PlanOptions)
    {lines : List Line} (h : ∀ line ∈ lines, ∃ name, line.kind = .create name) :
    ∃ r, ∀ s : σ, runFrom s (planLines b options lines).run = (r, s) := by
  refine run_foldlM_blind (fun line hline (progress : Progress) ↦ ?_) {}
  obtain ⟨name, hname⟩ := h line hline
  rcases checkIndent progress.style line with e | style
  · exact ⟨.error e, fun _ ↦ rfl⟩
  · exact ⟨.ok _, fun s ↦ by
      rw [runFrom_lift, planLine_of_create b options { progress with style } hname, runFrom_pure]⟩

/-- **What is planned from such lines** does not depend on the store. -/
theorem plan_blind {σ : Type} (b : Backend (StateM σ)) (options : PlanOptions)
    (h : OnlyCreates readBlock text) :
    ∃ r, ∀ s : σ, runFrom s (Planner.plan b readBlock options text).run = (r, s) := by
  obtain ⟨lines, hlines, hcreates⟩ := h
  unfold Planner.plan
  simp only [hlines]
  obtain ⟨e | progress, hprogress⟩ := planLines_blind b { options with rules := _ } hcreates
  · exact ⟨.error e, fun s ↦ by rw [runFrom_run_bind, hprogress]⟩
  · exact ⟨.ok _, fun s ↦ by rw [runFrom_run_bind, hprogress]; rfl⟩

/-! ### Names -/

/-- Each name is that of one entry, and what lies in one directory has different names. -/
structure WellNamed (ops : List Operation) : Prop where
  single : ∀ op ∈ ops, ∃ name, (Path.ofText op.name).parts = [.entry name]
  distinct : ops.Pairwise fun op op' ↦
    op.parent = op'.parent → ¬Path.ofText op.name ≈ Path.ofText op'.name

theorem WellNamed.eq_of_same {ops : List Operation} (h : WellNamed ops) {i j : Nat}
    {op op' : Operation} (hop : ops[i]? = some op) (hop' : ops[j]? = some op')
    (hparent : op.parent = op'.parent) (hname : Path.ofText op.name ≈ Path.ofText op'.name) :
    i = j := by
  obtain ⟨hi, rfl⟩ := List.getElem?_eq_some_iff.mp hop
  obtain ⟨hj, rfl⟩ := List.getElem?_eq_some_iff.mp hop'
  have hdistinct := List.pairwise_iff_getElem.mp h.distinct
  rcases Nat.lt_trichotomy i j with hlt | heq | hlt
  · exact absurd hname (hdistinct i j hi hj hlt hparent)
  · exact heq
  · exact absurd (Path.equiv_iff.mpr (Path.equiv_iff.mp hname).symm)
      (hdistinct j i hj hi hlt hparent.symm)

/-- The place of an operation whose name is that of one entry: in the root, or in the directory of
its parent. -/
structure PlacedIn (root : Path) (ops : List Operation) (i : Nat) (op : Operation) (around : Path)
    (name : EntryName) : Prop where
  name_eq : (Path.ofText op.name).parts = [.entry name]
  target_eq : op.target.parts = around.parts ++ [.entry name]
  parent : op.parent = none ∧ op.depth = 0 ∧ around = root ∨
    ∃ p dir, op.parent = some p ∧ p < i ∧ ops[p]? = some dir ∧ dir.isDirectory = true ∧
      op.depth = dir.depth + 1 ∧ around = dir.target

/-- **The operations of a plan with well-formed names** have their places in the tree. -/
theorem placedIn_plan {σ : Type} {b : Backend (StateM σ)} {s s' : σ}
    (hplan : runFrom s (Planner.plan b readBlock options text).run = (.ok plan, s'))
    (hnames : WellNamed plan.operations) {i : Nat} {op : Operation}
    (hop : plan.operations[i]? = some op) :
    ∃ around name, PlacedIn options.root plan.operations i op around name := by
  have hplaced := placed_plan hplan hop
  obtain ⟨name, hname⟩ := hnames.single op (List.mem_of_getElem? hop)
  have hjoin : ∀ p : Path, (p.join (Path.ofText op.name)).parts = p.parts ++ [.entry name] := by
    intro p
    rw [Path.parts_join (by simp [Path.isAbsolute, hname]) (by simp [hname]), hname]
  unfold Placed at hplaced
  split at hplaced
  · rename_i hparent
    obtain ⟨hdepth, htarget⟩ := hplaced
    exact ⟨options.root, name, hname, htarget ▸ hjoin _, .inl ⟨hparent, hdepth, rfl⟩⟩
  · rename_i p hparent
    obtain ⟨dir, hdir⟩ := hplaced
    exact ⟨dir.target, name, hname, hdir.target_eq ▸ hjoin _,
      .inr ⟨p, dir, hparent, hdir.before, hdir.found, hdir.isDirectory, hdir.depth_eq, rfl⟩⟩

/-! ### Trees -/

section Trees

variable {root : Path} {ops : List Operation}
  (hplaced : ∀ (i : Nat) (op : Operation), ops[i]? = some op →
    ∃ around name, PlacedIn root ops i op around name)

include hplaced

/-- The depth of an operation is the number of directories between its target and the root. -/
theorem target_of_placedIn {i : Nat} {op : Operation} (hop : ops[i]? = some op) :
    root.parts <+: op.target.parts ∧ op.target.parts.length = root.parts.length + op.depth + 1 := by
  induction i using Nat.strong_induction_on generalizing op with
  | _ i ih =>
    obtain ⟨around, name, hplace⟩ := hplaced i op hop
    rw [hplace.target_eq, List.length_append, List.length_singleton]
    rcases hplace.parent with ⟨-, hdepth, rfl⟩ | ⟨p, dir, -, hlt, hdir, -, hdepth, rfl⟩
    · exact ⟨List.prefix_append _ _, by omega⟩
    · obtain ⟨hstarts, hlength⟩ := ih p hlt hdir
      exact ⟨hstarts.trans (List.prefix_append _ _), by omega⟩

/-- **Operations with one target are one operation.** -/
theorem eq_of_target_equiv (hnames : WellNamed ops) {i j : Nat} {op op' : Operation}
    (hop : ops[i]? = some op) (hop' : ops[j]? = some op') (h : op.target ≈ op'.target) : i = j := by
  induction i using Nat.strong_induction_on generalizing j op op' with
  | _ i ih =>
    have hlength := congrArg List.length (Path.equiv_iff.mp h)
    rw [(target_of_placedIn hplaced hop).2, (target_of_placedIn hplaced hop').2] at hlength
    obtain ⟨around, name, hplace⟩ := hplaced i op hop
    obtain ⟨around', name', hplace'⟩ := hplaced j op' hop'
    have htargets := Path.equiv_iff.mp h
    rw [hplace.target_eq, hplace'.target_eq] at htargets
    obtain ⟨haround, hname⟩ := List.append_inj' htargets rfl
    refine hnames.eq_of_same hop hop' ?_ ?_
    -- the directories around them are one, so they have one parent
    · rcases hplace.parent with
          ⟨hparent, hdepth, -⟩ | ⟨p, dir, hparent, hlt, hdir, -, hdepth, rfl⟩ <;>
        rcases hplace'.parent with
          ⟨hparent', hdepth', -⟩ | ⟨p', dir', hparent', -, hdir', -, hdepth', rfl⟩
      · rw [hparent, hparent']
      · omega
      · omega
      · rw [hparent, hparent', ih p hlt hdir hdir' (Path.equiv_iff.mpr haround)]
    · rw [Path.equiv_iff, hplace.name_eq, hplace'.name_eq, hname]

end Trees

/-- Operations that make a tree: each one creates an entry in the root or in a directory that is
created in front of it, and no two create the same. -/
structure IsTree (root : Path) (ops : List Operation) : Prop where
  creates : ∀ op ∈ ops, op.kind = .create
  inside : ∀ (n : Nat) (op : Operation), ops[n]? = some op →
    ∃ (around : Path) (name : EntryName), op.target.parts = around.parts ++ [.entry name] ∧
      (around = root ∨ ∃ dir ∈ ops.take n, dir.isDirectory = true ∧ dir.target = around)
  below : ∀ op ∈ ops, op.target.startsWith root = true ∧ ¬op.target ≈ root
  distinct : ops.Pairwise fun op op' ↦ ¬op.target ≈ op'.target

/-- **A plan of which every line creates something is a tree.** -/
theorem isTree_plan {σ : Type} {b : Backend (StateM σ)} {s s' : σ}
    (hplan : runFrom s (Planner.plan b readBlock options text).run = (.ok plan, s'))
    (hcreates : ∀ op ∈ plan.operations, op.kind = .create) (hnames : WellNamed plan.operations) :
    IsTree options.root plan.operations := by
  have hplaced : ∀ (i : Nat) (op : Operation), plan.operations[i]? = some op →
      ∃ around name, PlacedIn options.root plan.operations i op around name :=
    fun _ _ ↦ placedIn_plan hplan hnames
  refine ⟨hcreates, fun n op hop ↦ ?_, fun op hop ↦ ?_, ?_⟩
  · obtain ⟨around, name, hplace⟩ := hplaced n op hop
    refine ⟨around, name, hplace.target_eq, ?_⟩
    rcases hplace.parent with ⟨-, -, haround⟩ | ⟨p, dir, -, hlt, hdir, hisDir, -, haround⟩
    · exact .inl haround
    · refine .inr ⟨dir, List.mem_of_getElem? (i := p) ?_, hisDir, haround.symm⟩
      rwa [List.getElem?_take, if_pos hlt]
  · obtain ⟨i, hi⟩ := List.mem_iff_getElem?.mp hop
    obtain ⟨hstarts, hlength⟩ := target_of_placedIn hplaced hi
    refine ⟨Path.startsWith_iff.mpr hstarts, fun hroot ↦ ?_⟩
    rw [Path.equiv_iff.mp hroot] at hlength
    omega
  · rw [List.pairwise_iff_getElem]
    intro i j hi hj hij hsame
    have := eq_of_target_equiv hplaced hnames (List.getElem?_eq_getElem hi)
      (List.getElem?_eq_getElem hj) hsame
    omega

end Scaffold.Planner
