import Scaffold.Proofs.Plan.Enumeration

/-!
# Structures of one line

A structure of a single line is the smallest one in which a transfer can be followed from the store
in which it is planned to the one that it leaves. Its plan is the operation for the line, and behind
it what was found in the source (`IsLineUnder.plan_eq`), with whatever rules names are changed.

What was found is known in two situations. When nothing is renamed and nothing is warned of
(`IsOneLine`), whatever store was asked, all of the source is carried along unless the line has the
name of a file (`inside_of_oneLine`). In memory that is so for every source that is there, and
nothing is warned of (`plan_of_stored`).
-/

namespace Scaffold.Planner

variable {σ : Type} {b : Backend (StateM σ)} {view : σ → MemoryStore}
  {readBlock : String → Option FrontMatter} {options : PlanOptions} {text : String}
  {rules : RenameRules} {op : Operation} {source : Path} {s s' : σ} {result : Plan}

/-- The text is a single line, of which `op` is the operation, and `rules` are those under which it
is planned: the rules of the options, and behind them those of the text. -/
def IsLineUnder (readBlock : String → Option FrontMatter) (options : PlanOptions) (text : String)
    (rules : RenameRules) (op : Operation) : Prop :=
  ∃ lines line,
    Expansion.expandText (FrontMatter.extractWith readBlock (normalize text)).2 = .ok lines ∧
    parseLines lines = [line] ∧
    FrontMatter.merge options.rules (FrontMatter.extractWith readBlock (normalize text)).1 = rules ∧
    op = lineOperation { options with rules } [] line.kind

/-- The text is a single line, of which `op` is the operation, and nothing is renamed. -/
def IsOneLine (readBlock : String → Option FrontMatter) (options : PlanOptions) (text : String)
    (op : Operation) : Prop :=
  ∃ lines line,
    Expansion.expandText (FrontMatter.extractWith readBlock (normalize text)).2 = .ok lines ∧
    parseLines lines = [line] ∧
    FrontMatter.merge options.rules (FrontMatter.extractWith readBlock (normalize text)).1 = {} ∧
    op = lineOperation { options with rules := {} } [] line.kind

theorem IsOneLine.isLineUnder (h : IsOneLine readBlock options text op) :
    IsLineUnder readBlock options text {} op := h

/-- The plan for a single line is its operation, and behind it what is inside the source. -/
theorem IsLineUnder.plan_eq (h : IsLineUnder readBlock options text rules op)
    (hsource : op.source = some source)
    (hplan : runFrom s (plan b readBlock options text).run = (.ok result, s')) :
    let found := runFrom s (inspectSource b { options with rules } 0 op source)
    result.options = { options with rules } ∧
      result.operations = { op with warning := found.1.1 } :: found.1.2 ∧ s' = found.2 := by
  obtain ⟨lines, line, hlines, hline, hrules, rfl⟩ := h
  obtain ⟨lines', progress, hlines', hresult, hprogress⟩ := plan_cases hplan
  obtain rfl := Except.ok.inj (hlines.symm.trans hlines')
  have hoptions : result.options = { options with rules } := by
    rw [hresult, hrules]
  rw [hline, hoptions, planLines, List.foldlM_cons] at hprogress
  obtain ⟨progress', s₁, hfirst, hrest⟩ := run_bind_eq_ok_iff.mp hprogress
  obtain ⟨rfl, rfl⟩ : progress' = progress ∧ s₁ = s' := by simpa using hrest
  split at hfirst
  · cases hfirst
  · rename_i style _
    simp only [runFrom_lift, Prod.mk.injEq, Except.ok.injEq, planLine, List.take_nil, hsource,
      runFrom_bind, runFrom_pure] at hfirst
    obtain ⟨rfl, rfl⟩ := hfirst
    refine ⟨hoptions, ?_, rfl⟩
    rw [hresult]
    simp [hsource]

theorem IsLineUnder.kind_of_source (h : IsLineUnder readBlock options text rules op)
    (hsource : op.source = some source) : op.kind = .copy ∨ op.kind = .move := by
  obtain ⟨-, line, -, -, -, rfl⟩ := h
  cases hkind : line.kind with
  | create => simp [hkind, lineOperation] at hsource
  | copy => exact .inl rfl
  | move => exact .inr rfl

theorem IsOneLine.kind_of_source (h : IsOneLine readBlock options text op)
    (hsource : op.source = some source) : op.kind = .copy ∨ op.kind = .move :=
  h.isLineUnder.kind_of_source hsource

theorem lineOperation_warning (options : PlanOptions) (openDirs : List OpenDir) (kind : LineKind) :
    (lineOperation options openDirs kind).warning = none := by
  cases kind <;> rfl

theorem IsLineUnder.kind_ne (h : IsLineUnder readBlock options text rules op) :
    op.kind ≠ .included ∧ op.warning = none := by
  obtain ⟨-, line, -, -, -, rfl⟩ := h
  exact ⟨lineOperation_kind_ne _ _ _, lineOperation_warning _ _ _⟩

/-- In a plan of one block, the included operations end where the plan ends. -/
theorem CarriedIn.includedEnd?_eq {store : MemoryStore} {inside : List Operation}
    (h : CarriedIn store rules result.operations)
    (hoperations : result.operations = op :: inside) (hown : op.kind ≠ .included)
    (hincluded : ∀ o ∈ inside, o.kind = .included) :
    result.includedEnd? 0 = if inside = [] then none else some inside.length := by
  have hfirst : result.operations[0]? = some op := by simp [hoperations]
  obtain ⟨inside', hinside⟩ := h 0 op hfirst hown
  rw [hinside.includedEnd?_eq hfirst, Nat.zero_add,
    hinside.eq_of_included (by rw [hoperations]; rfl) hincluded]

/-- **What is carried along by a single line.** When nothing is warned of, the plan to transfer a
directory whose names are texts has an operation for all that is stored in it, unless the line has
the name of a file. -/
theorem inside_of_oneLine (hb : Serves b view) (h : IsOneLine readBlock options text op)
    (hrecursive : options.recursive = true) (hsource : op.source = some source)
    (hwf : (view s).WellFormed) (hdir : (view s).node? source = some .dir)
    (hspelled : (view s).SpelledBelow source)
    (hplan : runFrom s (plan b readBlock options text).run = (.ok result, s'))
    (hquiet : result.warnings = []) :
    view s' = view s ∧ ∃ inside, result.operations = op :: inside ∧
      result.includedEnd? 0 = (if inside = [] then none else some inside.length) ∧
      (op.isDirectory = false → inside = []) ∧
      (op.isDirectory = true → ∃ items, inside = items.map Prod.snd ∧
        (∀ x ∈ items, x.2.warning = none) ∧
        Walk (view s) {} source op.target (fun _ ↦ True) items) := by
  obtain ⟨hview, hcarried⟩ := carriedIn_plan hb hwf hplan
  obtain ⟨hoptions, hoperations, -⟩ := h.isLineUnder.plan_eq hsource hplan
  obtain ⟨-, hfound⟩ :=
    walk_inspectSource hb { options with rules := {} } 0 op source s hwf
  set found := runFrom s (inspectSource b { options with rules := {} } 0 op source)
  have hnone : found.1.1 = none :=
    warning_eq_none hquiet (o := { op with warning := found.1.1 })
      (hoperations ▸ List.mem_cons_self)
  have hown := h.isLineUnder.kind_ne
  have hop : { op with warning := found.1.1 } = op := by rw [hnone, ← hown.2]
  rw [hop] at hoperations
  refine ⟨hview, found.1.2, hoperations, ?_, ?_, ?_⟩
  -- nothing follows the included operations
  · have hincluded : ∀ o ∈ found.1.2, o.kind = .included := by
      intro o ho
      rcases hfound with ⟨hnil, -⟩ | ⟨-, hwalk⟩
      · rw [hnil] at ho
        cases ho
      · obtain ⟨items, hitems, hwalk⟩ := hwalk hspelled
        rw [hitems] at ho
        obtain ⟨x, hx, rfl⟩ := List.mem_map.mp ho
        exact (hwalk.carries x hx).kind_eq
    exact hcarried.includedEnd?_eq hoperations hown.1 hincluded
  · intro hname
    rcases hfound with ⟨hnil, -⟩ | ⟨hname', -⟩
    · exact hnil
    · rw [hname] at hname'
      cases hname'
  · intro hname
    rcases hfound with ⟨-, hno⟩ | ⟨-, hwalk⟩
    · refine absurd ?_ (hno hnone hname hrecursive)
      exact MemoryStore.kindOf?_eq_directory_iff.mpr (.inr hdir)
    · obtain ⟨items, hitems, hwalk⟩ := hwalk hspelled
      refine ⟨items, hitems, fun x hx ↦ warning_eq_none hquiet ?_,
        hwalk.congr fun _ _ _ ↦ iff_of_true hnone trivial⟩
      rw [hoperations, hitems]
      exact List.mem_cons_of_mem _ (List.mem_map_of_mem hx)

/-- **What a single line carries along in memory**: all that a walk through its source is told, if
that is a directory, the line has the name of one, and what is inside is to be carried along. That
is everything stored in it, if all names are texts. -/
theorem plan_of_stored {store store' : MemoryStore} (hwf : store.WellFormed)
    (h : IsLineUnder readBlock options text rules op) (hsource : op.source = some source)
    {kind : EntryKind} (hkind : store.kindOf? source = some kind)
    (hplan : runFrom store (plan MemoryStore.backend readBlock options text).run =
      (.ok result, store')) :
    store' = store ∧ ∃ items, result.operations = op :: items.map Prod.snd ∧
      result.includedEnd? 0 = (if items = [] then none else some items.length) ∧
      (¬(op.isDirectory = true ∧ options.recursive = true ∧ kind = .directory) → items = []) ∧
      (op.isDirectory = true → options.recursive = true → kind = .directory →
        items.map toldBy = store.told source (store.depth + 1) [] ∧
        (∀ x ∈ items, x.2.kind = .included ∧
          Relocated rules source op.target op.depth x.1 x.2) ∧
        (store.SpelledBelow source → (∀ x ∈ items, x.2.warning = none) ∧
          Walk store rules source op.target (fun _ ↦ True) items)) := by
  obtain ⟨-, hoperations, rfl⟩ := h.plan_eq hsource hplan
  obtain ⟨-, hcarried⟩ := carriedIn_plan MemoryStore.serves_backend (s := store) hwf hplan
  obtain ⟨hown, hwarning⟩ := h.kind_ne
  by_cases hall : op.isDirectory = true ∧ options.recursive = true ∧ kind = .directory
  · obtain ⟨hname, hrecursive, rfl⟩ := hall
    obtain ⟨items, hfound, htold, hitems, hwhole⟩ :=
      @inspectSource_memory store { options with rules } source op hwf 0 hkind hname
        hrecursive
    rw [hfound] at hoperations ⊢
    rw [show ({ op with warning := none } : Operation) = op by rw [← hwarning]] at hoperations
    have hend := hcarried.includedEnd?_eq hoperations hown fun o ho ↦ by
      obtain ⟨x, hx, rfl⟩ := List.mem_map.mp ho
      exact (hitems x hx).1
    refine ⟨rfl, items, hoperations, by simpa using hend, fun hnot ↦ ?_,
      fun _ _ _ ↦ ⟨htold, hitems, hwhole⟩⟩
    exact absurd ⟨hname, hrecursive, rfl⟩ hnot
  -- there is nothing to look for
  · have hnothing : runFrom store (inspectSource MemoryStore.backend
        { options with rules } 0 op source) = ((none, []), store) := by
      obtain ⟨found, hfound, rfl⟩ := store.stat_of_kindOf? source hkind
      rcases hone : op.isDirectory && options.recursive with - | -
      · simp [inspectSource, hkind, hone]
      · have hfile : found.kind = .file := by
          rcases hfound' : found.kind with - | -
          · rfl
          · exact absurd ⟨(Bool.and_eq_true _ _ ▸ hone).1, (Bool.and_eq_true _ _ ▸ hone).2, hfound'⟩
              hall
        simp [inspectSource, hkind, hone, hfound, hfile]
    rw [hnothing] at hoperations ⊢
    rw [show ({ op with warning := none } : Operation) = op by rw [← hwarning]] at hoperations
    have hend := hcarried.includedEnd?_eq hoperations hown (by simp)
    refine ⟨rfl, [], hoperations, hend, fun _ ↦ rfl, fun hname hrecursive hdir ↦ ?_⟩
    exact absurd ⟨hname, hrecursive, hdir⟩ hall

end Scaffold.Planner
