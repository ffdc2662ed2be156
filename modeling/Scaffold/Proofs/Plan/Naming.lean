import Scaffold.CommandLine.Options
import Scaffold.Proofs.EntryText
import Scaffold.Proofs.Execution.Simulation
import Scaffold.Proofs.Plan.Forest
import Scaffold.Proofs.Plan.Termination

/-!
# The names of a plan

Rename rules come from three places, the settings, the command line and the front matter of the
structure, and each place has them in scopes. Whatever name is made, they apply in one order
(`rulesInOrder`), although they are put together in two steps: the caller joins those of the
settings and of the command line, and planning adds those of the front matter (`apply_merge`).

What a name is made from depends on the operation. For a line it is what the line says, and whether
it is a directory is decided before any rule applies (`IsFor.named`). For an included operation it
is an entry of a listing. A backend may answer anything, and something else each time, so an entry
is only known to be listed in the run that made the plan: the listings of a run are noted one by one
(`Backend.notingListings`), which changes no answer (`runFrom_plan_noted`), and every included
operation comes from a listing that has been noted (`ComesFrom`). Notes are only ever added, so what
comes from them keeps doing so.
-/

namespace Scaffold

variable {σ α : Type}

/-! ### Rules in order -/

/-- The rules for names of one kind in the order in which they apply: those for all names, of the
settings and then of the command line; then those for the kind, of the settings, of the command line
and of the front matter. -/
def rulesInOrder (settings flags : RenameRules) (f : FrontMatter) (isDirectory : Bool) :
    List RenameRule :=
  settings.all ++ flags.all ++
    if isDirectory then settings.folders ++ flags.folders ++ f.folderRules
    else settings.files ++ flags.files ++ f.fileRules

namespace RenameRules

variable (a b : RenameRules)

@[simp]
theorem all_append : (a ++ b).all = a.all ++ b.all := rfl

@[simp]
theorem files_append : (a ++ b).files = a.files ++ b.files := rfl

@[simp]
theorem folders_append : (a ++ b).folders = a.folders ++ b.folders := rfl

end RenameRules

/-- **Rules put together in two steps** apply in the one order. -/
theorem apply_merge (settings flags : RenameRules) (f : Option FrontMatter) (name : String)
    (isDirectory : Bool) :
    (FrontMatter.merge (settings ++ flags) f).apply name isDirectory =
      (rulesInOrder settings flags (f.getD {}) isDirectory).foldl
        (fun name rule ↦ rule.apply name) name := by
  have hrules : (FrontMatter.merge (settings ++ flags) f).rulesFor isDirectory =
      rulesInOrder settings flags (f.getD {}) isDirectory := by
    cases f <;> cases isDirectory <;>
      simp [FrontMatter.merge, FrontMatter.rules, RenameRules.rulesFor, rulesInOrder]
  rw [RenameRules.apply, hrules]

/-! ### Noted listings -/

/-- A listing that was answered. -/
structure Listed where
  directory : Path
  entries : List DirEntry
deriving DecidableEq

namespace Backend

/-- A call that is not noted. -/
def unnoted (x : StateM σ α) : StateM (σ × List Listed) α := fun (s, listings) ↦
  let (answer, s) := x s
  (answer, s, listings)

/-- A store whose listings are noted, behind those noted before. -/
def notingListings (b : Backend (StateM σ)) : Backend (StateM (σ × List Listed)) :=
  { b.toCalls.map unnoted with
    list p := ExceptT.mk do
      let answer ← unnoted (b.list p).run
      if let .ok entries := answer then
        modify fun (s, listings) ↦ (s, listings ++ [⟨p, entries⟩])
      return answer
    copyFolder source target := ExceptT.mk (unnoted (b.copyFolder source target).run)
    moveFolder source target := ExceptT.mk (unnoted (b.moveFolder source target).run) }

/-- What a noted listing answers, leaves and notes. -/
theorem runFrom_list_notingListings (b : Backend (StateM σ)) (p : Path) (s : σ)
    (listings : List Listed) : runFrom (s, listings) (b.notingListings.list p).run =
      ((runFrom s (b.list p).run).1, (runFrom s (b.list p).run).2,
        match (runFrom s (b.list p).run).1 with
        | .ok entries => listings ++ [⟨p, entries⟩]
        | .error _ => listings) := by
  have hnoted : runFrom (s, listings) (unnoted (b.list p).run) =
      ((runFrom s (b.list p).run).1, (runFrom s (b.list p).run).2, listings) := rfl
  simp only [notingListings, ExceptT.run_mk, runFrom_bind, hnoted]
  cases (runFrom s (b.list p).run).1 <;> rfl

/-- Noting the listings changes no answer. -/
theorem reproduces_notingListings (b : Backend (StateM σ)) :
    ReproducesCalls Prod.fst b.notingListings.toCalls b.toCalls where
  exists_ _ _ := rfl
  mkdir _ _ _ := rfl
  write _ _ _ := rfl
  stat _ _ := rfl
  list p t := by rw [b.runFrom_list_notingListings p t.1 t.2]
  rm _ _ _ := rfl
  unlink _ _ := rfl
  copyFile _ _ _ := rfl

end Backend

namespace Planner

variable {b : Backend (StateM σ)} {rules : RenameRules} {listings more : List Listed}
  {op : Operation}

/-- **Planning does not notice** that its listings are noted. -/
theorem runFrom_plan_noted (b : Backend (StateM σ)) (readBlock : String → Option FrontMatter)
    (options : PlanOptions) (text : String) (s : σ) :
    let noted := runFrom (s, []) (plan b.notingListings readBlock options text).run
    runFrom s (plan b readBlock options text).run = (noted.1, noted.2.1) := by
  have hcalls := b.reproduces_notingListings.calls_match
  exact (trySame_plan hcalls.exists_ hcalls.stat
    (same_included (reproducing_recurses Prod.fst) fun p ↦ (hcalls.list p).same) options readBlock
    text).1 (s, [])

/-! ### Where included operations come from -/

/-- The operation is for an entry of one of the listings, under the name that the rules make of the
name of the entry. -/
def ComesFrom (rules : RenameRules) (listings : List Listed) (op : Operation) : Prop :=
  ∃ listing ∈ listings, ∃ entry ∈ listing.entries,
    op.source = some (listing.directory.child entry.name) ∧
    op.isDirectory = (entry.kind == .directory) ∧
    op.name = rules.apply entry.name.text op.isDirectory

theorem ComesFrom.mono (h : ComesFrom rules listings op) (hmore : listings ⊆ more) :
    ComesFrom rules more op := by
  obtain ⟨listing, hlisting, hentry⟩ := h
  exact ⟨listing, hmore hlisting, hentry⟩

theorem comesFrom_includedOperation {source : Path} {entries : List DirEntry} {entry : DirEntry}
    (hlisting : ⟨source, entries⟩ ∈ listings) (hentry : entry ∈ entries) (parent : Nat)
    (target : Path) (depth : Nat) (warning : Option String) : ComesFrom rules listings
      { includedOperation rules parent source target depth entry with warning } :=
  ⟨⟨source, entries⟩, hlisting, entry, hentry, rfl, rfl, rfl⟩

/-- **What a walk finds** comes from the listings that have been noted behind it. -/
theorem comesFrom_includedWithin (rules : RenameRules) (bound parent : Nat) (source target : Path)
    (depth : Nat) (t : σ × List Listed) :
    let out := runFrom t
      (includedWithin b.notingListings rules bound ⟨parent, source, target, depth⟩)
    t.2 ⊆ out.2.2 ∧ ∀ op ∈ out.1.2, ComesFrom rules out.2.2 op := by
  induction bound generalizing parent source target depth t with
  | zero => exact ⟨List.Subset.refl _, nofun⟩
  | succ bound ih =>
    simp only [includedWithin_succ, includedStep, runFrom_bind]
    rw [b.runFrom_list_notingListings source t.1 t.2]
    rcases (runFrom t.1 (b.list source).run).1 with e | entries
    · exact ⟨List.Subset.refl _, by simp⟩
    simp only [runFrom_bind, runFrom_pure]
    -- the listing of this directory stays noted in every round
    set P : List DirEntry → List Operation → σ × List Listed → Prop := fun _ found t' ↦
      t.2 ++ [⟨source, entries⟩] ⊆ t'.2 ∧ ∀ op ∈ found, ComesFrom rules t'.2 op
    have hdone : ∀ out : List Operation × σ × List Listed, P entries out.1 out.2 →
        t.2 ⊆ out.2.2 ∧ ∀ op ∈ out.1, ComesFrom rules out.2.2 op := fun out h ↦
      ⟨List.Subset.trans (List.subset_append_left _ _) h.1, h.2⟩
    refine hdone _ (foldlM_induction P entries ?_ _ ⟨List.Subset.refl _, by simp⟩)
    rintro done entry rest found t' hsplit ⟨hkept, hfound⟩
    have hentry : entry ∈ entries := by simp [hsplit]
    have hlisting : (⟨source, entries⟩ : Listed) ∈ t'.2 := hkept (by simp)
    split
    · simp only [runFrom_bind, runFrom_pure]
      set walk := runFrom t' (includedWithin b.notingListings rules bound
        ⟨parent + 1 + found.length, source.child entry.name,
          (includedOperation rules parent source target depth entry).target, depth + 1⟩)
      obtain ⟨hgrown, hbelow⟩ : t'.2 ⊆ walk.2.2 ∧ ∀ op ∈ walk.1.2, ComesFrom rules walk.2.2 op :=
        ih _ _ _ _ t'
      refine ⟨List.Subset.trans hkept hgrown, fun op hop ↦ ?_⟩
      rcases List.mem_append.mp hop with hop | hop
      · exact (hfound op hop).mono hgrown
      rcases List.mem_cons.mp hop with rfl | hop
      · exact comesFrom_includedOperation (hgrown hlisting) hentry parent target depth walk.1.1
      · exact hbelow op hop
    · refine ⟨hkept, fun op hop ↦ ?_⟩
      rcases List.mem_append.mp hop with hop | hop
      · exact hfound op hop
      · obtain rfl := List.mem_singleton.mp hop
        exact comesFrom_includedOperation hlisting hentry parent target depth none

theorem comesFrom_inspectSource (options : PlanOptions) (index : Nat) (op : Operation)
    (source : Path) (t : σ × List Listed) :
    let out := runFrom t (inspectSource b.notingListings options index op source)
    t.2 ⊆ out.2.2 ∧ ∀ op ∈ out.1.2, ComesFrom options.rules out.2.2 op := by
  have hnothing : t.2 ⊆ t.2 ∧ ∀ op ∈ [], ComesFrom options.rules t.2 op :=
    ⟨List.Subset.refl _, by simp⟩
  unfold inspectSource
  simp only [runFrom_bind]
  split
  · exact hnothing
  split
  · exact hnothing
  simp only [runFrom_bind]
  split
  · exact hnothing
  split
  · exact hnothing
  · -- the questions asked so far are not noted
    set asked := (runFrom (runFrom t (b.notingListings.exists_ source)).2
      (b.notingListings.stat source).run).2
    obtain ⟨bound, hbound⟩ := exists_includedWithin b.notingListings options.rules
      ⟨index, source, op.target, op.depth + 1⟩ asked
    rw [hbound]
    exact comesFrom_includedWithin options.rules bound index source op.target (op.depth + 1) asked

/-- **A line adds what comes from noted listings.** -/
theorem comesFrom_planLine (options : PlanOptions) (progress : Progress) (line : Line)
    (t : σ × List Listed)
    (h : ∀ op ∈ progress.operations.toList, op.kind = .included →
      ComesFrom options.rules t.2 op) :
    let out := runFrom t (planLine b.notingListings options progress line)
    ∀ op ∈ out.1.operations.toList, op.kind = .included → ComesFrom options.rules out.2.2 op := by
  set own := lineOperation options (progress.openDirs.take line.depth) line.kind with hown
  have hkind : own.kind ≠ .included := lineOperation_kind_ne options _ line.kind
  have hadded : ∀ (inside : List Operation) (warning : Option String) (listings : List Listed),
      t.2 ⊆ listings → (∀ op ∈ inside, ComesFrom options.rules listings op) →
      ∀ op ∈ (progress.operations.push { own with warning } ++ inside).toList,
        op.kind = .included → ComesFrom options.rules listings op := by
    intro inside warning listings hkept hinside op hop hincluded
    rw [Array.toList_appendList, Array.toList_push, List.append_assoc] at hop
    rcases List.mem_append.mp hop with hop | hop
    · exact (h op hop hincluded).mono hkept
    rcases List.mem_cons.mp hop with rfl | hop
    · exact absurd hincluded hkind
    · exact hinside op hop
  simp only [planLine, ← hown]
  split
  · exact hadded [] none t.2 (List.Subset.refl _) (by simp)
  · rename_i source _
    obtain ⟨hkept, hinside⟩ :=
      comesFrom_inspectSource (b := b) options progress.operations.size own source t
    exact hadded _ _ _ hkept hinside

/-- **Included operations come from noted listings.** -/
theorem comesFrom_plan {readBlock : String → Option FrontMatter} {options : PlanOptions}
    {text : String} {t t' : σ × List Listed} {result : Plan}
    (h : runFrom t (plan b.notingListings readBlock options text).run = (.ok result, t')) :
    ∀ op ∈ result.operations, op.kind = .included → ComesFrom result.options.rules t'.2 op := by
  obtain ⟨lines, progress, -, hresult, hprogress⟩ := plan_cases h
  have hcomes := planLines_induction
    (fun _ progress (t : σ × List Listed) ↦ ∀ op ∈ progress.operations.toList,
      op.kind = .included → ComesFrom result.options.rules t.2 op)
    (fun _ _ _ _ h ↦ h) (fun _ line progress t h ↦ comesFrom_planLine _ progress line t h)
    (by simp) hprogress
  rw [hresult] at hcomes ⊢
  exact hcomes

/-! ### Names -/

/-- **The operation for a line** is a directory if the line says so, and the rules make its name. -/
theorem IsFor.named {options : PlanOptions} {line : Line} (h : IsFor options line op) :
    op.isDirectory = EntryText.isDirectoryName line.kind.written ∧
      op.name = options.rules.apply (EntryText.unescape line.kind.written) op.isDirectory := by
  obtain ⟨openDirs, hop⟩ := h
  have hisDir : op.isDirectory = EntryText.isDirectoryName line.kind.written :=
    (congrArg Operation.isDirectory hop).trans (lineOperation_isDirectory options openDirs _)
  refine ⟨hisDir, ?_⟩
  rw [hisDir]
  exact (congrArg Operation.name hop).trans (lineOperation_name options openDirs _)

/-- **Rename rules apply in one order**, wherever they come from. With the options that settings and
a command line make, the name of each operation of a plan is what the rules in that order make of a
text. The operations for lines are directories if their lines say so, before any rule, and the text
is what the line says. Every included operation comes from an entry that was listed in the run, and
has its kind and its name for the text. -/
theorem plan_renames {readBlock : String → Option FrontMatter} {settings : Settings}
    {arguments : CommandLine.StructureArguments} {directory : Path} {home text : String}
    {s s' : σ} {result : Plan}
    (h : runFrom s (plan b readBlock (arguments.planOptions settings directory home) text).run =
      (.ok result, s')) :
    let renamed (isDirectory : Bool) (name : String) : String :=
      (rulesInOrder settings.rules arguments.rules (result.frontMatter.getD {}) isDirectory).foldl
        (fun name rule ↦ rule.apply name) name
    result.frontMatter = (FrontMatter.extractWith readBlock (normalize text)).1 ∧
    (∃ lines, Expansion.expandText (FrontMatter.extractWith readBlock (normalize text)).2 =
        .ok lines ∧
      List.Forall₂ (fun (line : Line) (op : Operation) ↦
          op.isDirectory = EntryText.isDirectoryName line.kind.written ∧
          op.name = renamed op.isDirectory (EntryText.unescape line.kind.written))
        (parseLines lines) (ownOperations result.operations)) ∧
    ∃ listings,
      runFrom (s, []) (plan b.notingListings readBlock
          (arguments.planOptions settings directory home) text).run =
        (.ok result, s', listings) ∧
      ∀ op ∈ result.operations, op.kind = .included →
        ∃ listing ∈ listings, ∃ entry ∈ listing.entries,
          op.source = some (listing.directory.child entry.name) ∧
          op.isDirectory = (entry.kind == .directory) ∧
          op.name = renamed op.isDirectory entry.name.text := by
  intro renamed
  obtain ⟨lines, progress, hlines, hops, -, hsound⟩ := sound_plan h
  obtain ⟨_, _, -, hresult, -⟩ := plan_cases h
  have hfrontMatter : result.frontMatter =
      (FrontMatter.extractWith readBlock (normalize text)).1 := by rw [hresult]
  have hmerged : result.options.rules =
      FrontMatter.merge (settings.rules ++ arguments.rules) result.frontMatter := by
    have hrules : (arguments.planOptions settings directory home).rules =
        settings.rules ++ arguments.rules := rfl
    rw [hresult, ← hrules]
  have hrenamed : ∀ name isDirectory,
      result.options.rules.apply name isDirectory = renamed isDirectory name := by
    intro name isDirectory
    rw [hmerged]
    exact apply_merge settings.rules arguments.rules result.frontMatter name isDirectory
  refine ⟨hfrontMatter, ⟨lines, hlines, ?_⟩, ?_⟩
  · rw [hops]
    refine hsound.each.imp fun line op hline ↦ ?_
    obtain ⟨hisDir, hname⟩ := hline.named
    exact ⟨hisDir, hname.trans (hrenamed _ _)⟩
  · rcases hnoted : runFrom (s, []) (plan b.notingListings readBlock
      (arguments.planOptions settings directory home) text).run with ⟨answer, s₁, listings⟩
    have hsame := runFrom_plan_noted b readBlock (arguments.planOptions settings directory home)
      text s
    rw [h, hnoted] at hsame
    obtain ⟨rfl, rfl⟩ := Prod.mk.inj hsame
    refine ⟨listings, rfl, fun op hop hincluded ↦ ?_⟩
    obtain ⟨listing, hlisting, entry, hentry, hsource, hisDir, hname⟩ :=
      comesFrom_plan hnoted op hop hincluded
    exact ⟨listing, hlisting, entry, hentry, hsource, hisDir, hname.trans (hrenamed _ _)⟩

/-- A directory in which a directory of its own name holds a file. -/
def nestedNamesake : MemoryStore :=
  MemoryStore.empty.withFile (.ofText "/r/a/a/a.h") ByteArray.empty

/-- Settings whose rules read the first letters of the alphabet, one letter on. -/
def lettersSettings : Settings :=
  { rules := ⟨[⟨"a", "b"⟩], [⟨"c", "d"⟩], [⟨"c", "x"⟩]⟩ }

/-- A command line with the rules that go on from there. -/
def lettersArguments : CommandLine.StructureArguments :=
  { input := .ofText "-", root := some (.ofText "/r")
    rules := ⟨[⟨"b", "c"⟩], [⟨"d", "e"⟩], [⟨"x", "y"⟩]⟩ }

/-- A structure whose front matter has the last rules: its directory is copied, and a file made. -/
def lettersPlan : Except PlanError Plan × MemoryStore :=
  runFrom nestedNamesake (plan MemoryStore.backend (fun _ ↦ some ⟨[⟨"e", "f"⟩], [⟨"y", "z"⟩]⟩)
    (lettersArguments.planOptions lettersSettings (.ofText "/") "") "---\n---\n[a] > a\na.h").run

theorem plan_renames_letters : ∃ result s', lettersPlan = (.ok result, s') ∧
    result.operations.map (fun op ↦ (op.kind, op.name)) =
      [(.copy, "z"), (.included, "z"), (.included, "f.h"), (.create, "f.h")] ∧
    result.frontMatter = some ⟨[⟨"e", "f"⟩], [⟨"y", "z"⟩]⟩ ∧
    ∃ listings : List Listed, ∀ op ∈ result.operations, op.kind = .included →
      ∃ listing ∈ listings, ∃ entry ∈ listing.entries,
        op.source = some (listing.directory.child entry.name) ∧
        op.isDirectory = (entry.kind == .directory) ∧
        op.name = (rulesInOrder lettersSettings.rules lettersArguments.rules
          (result.frontMatter.getD {}) op.isDirectory).foldl (fun name rule ↦ rule.apply name)
            entry.name.text := by
  obtain ⟨result, s', hplan, hnames, hblock⟩ : ∃ result s', lettersPlan = (.ok result, s') ∧
      result.operations.map (fun op ↦ (op.kind, op.name)) =
        [(.copy, "z"), (.included, "z"), (.included, "f.h"), (.create, "f.h")] ∧
      result.frontMatter = some ⟨[⟨"e", "f"⟩], [⟨"y", "z"⟩]⟩ :=
    exists_runFrom_eq_ok (by decide +kernel)
  obtain ⟨-, -, listings, -, hincluded⟩ := plan_renames hplan
  exact ⟨result, s', hplan, hnames, hblock, listings, hincluded⟩

end Planner

end Scaffold
