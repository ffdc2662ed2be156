import Scaffold.Proofs.Expansion.Joining
import Scaffold.Proofs.Line.Kind
import Scaffold.Proofs.Plan.Steady

/-!
# Planning texts that are joined

A line that is not indented closes all directories, so nothing that was planned in front of it bears
on what comes behind, but for two things: the positions of the operations, and the style of
indentation, which the whole structure shares. Two texts of which the second starts with such a line
are therefore planned one after the other, and the operations for the second are those for it alone,
with their parents so much further back (`plan_joined`).

The style is why the statement goes from the joined text to its parts and not back: each part may
have its own, and then the joined text is refused. Going this way, a part on its own has either no
style yet or the one of the whole (`Follows`), and what the whole accepts the part does too
(`checkIndent_of_follows`).
-/

namespace Scaffold

/-! ### Lines -/

/-- The line as it is numbered behind `n` others. -/
def Line.behind (n : Nat) (line : Line) : Line := { line with number := n + line.number }

@[simp]
theorem Line.behind_zero (line : Line) : line.behind 0 = line := by simp [Line.behind]

@[simp]
theorem Line.depth_behind (n : Nat) (line : Line) : (line.behind n).depth = line.depth := rfl

@[simp]
theorem Line.indent_behind (n : Nat) (line : Line) : (line.behind n).indent = line.indent := rfl

@[simp]
theorem Line.kind_behind (n : Nat) (line : Line) : (line.behind n).kind = line.kind := rfl

theorem Line.parse?_add (n number : Nat) (raw : String) :
    Line.parse? (n + number) raw = (Line.parse? number raw).map (·.behind n) := by
  unfold Line.parse?
  dsimp only
  split <;> rfl

/-- The blank lines are those that are not read. -/
theorem Line.parse?_eq_none_iff (number : Nat) (raw : String) :
    Line.parse? number raw = none ↔ Text.allBlank raw = true := by
  rw [← Text.isEmpty_trim, Line.parse?]
  simp

theorem Line.depth_of_parse? {number : Nat} {raw : String} {line : Line}
    (h : Line.parse? number raw = some line) : line.depth = depthOf raw := by
  unfold Line.parse? at h
  dsimp only at h
  split at h
  · cases h
  · rw [← Option.some.inj h]
    rfl

namespace Planner

/-- Lines behind others are the same, with higher numbers. -/
theorem parseLines_append (above below : List String) :
    parseLines (above ++ below) =
      parseLines above ++ (parseLines below).map (·.behind above.length) := by
  have hbelow : (below.zipIdx above.length).filterMap (fun x ↦ Line.parse? (x.2 + 1) x.1) =
      (parseLines below).map (·.behind above.length) := by
    rw [List.zipIdx_eq_map_add, List.filterMap_map, parseLines, List.map_filterMap]
    refine List.filterMap_congr fun x _ ↦ ?_
    rw [← Line.parse?_add, Function.comp_apply, Nat.add_assoc]
  rw [← hbelow]
  simp only [parseLines, List.zipIdx_append, List.filterMap_append, Nat.zero_add]

theorem parseLines_cons (raw : String) (rest : List String) :
    parseLines (raw :: rest) =
      (Line.parse? 1 raw).toList ++ (parseLines rest).map (·.behind 1) := by
  rw [← List.singleton_append, parseLines_append]
  rcases hline : Line.parse? 1 raw with - | line <;> simp [parseLines, hline]

/-- Blank lines are not read. -/
theorem parseLines_of_blank {blank : List String}
    (h : ∀ raw ∈ blank, Text.allBlank raw = true) : parseLines blank = [] := by
  induction blank with
  | nil => rfl
  | cons raw blank ih =>
    obtain ⟨hraw, hblank⟩ := List.forall_mem_cons.mp h
    rw [parseLines_cons, (Line.parse?_eq_none_iff 1 raw).mpr hraw, ih hblank]
    rfl

/-- The first line of a structure at the margin is not indented. -/
theorem depth_eq_zero_of_startsBy {lines : List String} (h : Expansion.StartsBy 0 lines) :
    ∀ line ∈ (parseLines lines).head?, line.depth = 0 := by
  induction lines with
  | nil => nofun
  | cons raw rest ih =>
    rw [parseLines_cons]
    rcases hraw : Line.parse? 1 raw with - | line
    · have hblank := (Line.parse?_eq_none_iff 1 raw).mp hraw
      intro line hline
      obtain ⟨first, hfirst, rfl⟩ := Option.map_eq_some_iff.mp (List.head?_map ▸ hline)
      exact ih ((Expansion.startsBy_cons_of_blank hblank).mp h) first hfirst
    · have hwritten : Text.allBlank raw = false := by
        rw [Bool.eq_false_iff, Ne, ← Line.parse?_eq_none_iff 1, hraw]
        nofun
      rintro _ ⟨⟩
      rw [Line.depth_of_parse? hraw]
      exact Nat.le_zero.mp ((Expansion.startsBy_cons_of_written hwritten).mp h)

/-! ### Line by line -/

variable {σ : Type} {among : σ → Prop} {b : Backend (StateM σ)} {options : PlanOptions}
  {before : List Operation} {progress alone progress' : Progress} {s t s' : σ}

/-- What planning does with one line: it checks the indentation first. -/
def checkedLine (b : Backend (StateM σ)) (options : PlanOptions) (progress : Progress)
    (line : Line) : ExceptT PlanError (StateM σ) Progress :=
  match checkIndent progress.style line with
  | .error e => throw e
  | .ok style => ExceptT.lift (planLine b options { progress with style } line)

theorem planLines_eq_foldlM (lines : List Line) :
    planLines b options lines = lines.foldlM (checkedLine b options) {} := rfl

/-- The progress with the operation for one more line among `openDirs`, and with what was found
inside its source. -/
def Progress.added (progress : Progress) (openDirs : List OpenDir) (op : Operation)
    (found : Option String × List Operation) : Progress :=
  { progress with
    operations := progress.operations.push { op with warning := found.1 } ++ found.2
    openDirs :=
      if op.isDirectory then openDirs ++ [⟨op.target, progress.operations.size⟩] else openDirs }

theorem planLine_eq_bind (progress : Progress) (line : Line) {openDirs : List OpenDir}
    {op : Operation} (hopenDirs : progress.openDirs.take line.depth = openDirs)
    (hop : lineOperation options openDirs line.kind = op) :
    planLine b options progress line =
      (match op.source with
        | none => pure (none, [])
        | some source => inspectSource b options progress.operations.size op source) >>=
      fun found ↦ pure (progress.added openDirs op found) := by
  subst hopenDirs hop
  unfold planLine Progress.added
  dsimp only
  rcases (lineOperation options (progress.openDirs.take line.depth) line.kind).source with
    - | source <;> rfl

/-- The directory as it is open behind `k` operations. -/
def OpenDir.behind (k : Nat) (dir : OpenDir) : OpenDir := { dir with index := dir.index + k }

theorem lineOperation_behind (options : PlanOptions) (k : Nat) (openDirs : List OpenDir)
    (kind : LineKind) :
    lineOperation options (openDirs.map (·.behind k)) kind =
      (lineOperation options openDirs kind).behind k := by
  simp only [lineOperation, Operation.behind, List.getLast?_map, Option.map_map, List.length_map]
  rfl

/-- Planning has come as far behind the operations `before` as it has alone: what was added to them
are the operations alone, moved, and the directories that are open for a line of the given level
are the same. -/
structure Follows (before : List Operation) (level : Nat) (progress alone : Progress) : Prop where
  operations : progress.operations.toList =
    before ++ alone.operations.toList.map (·.behind before.length)
  openDirs : progress.openDirs.take level =
    (alone.openDirs.take level).map (·.behind before.length)
  style : alone.style = none ∨ alone.style = progress.style

theorem Follows.size_eq {level : Nat} (h : Follows before level progress alone) :
    progress.operations.size = alone.operations.size + before.length := by
  have hlength := congrArg List.length h.operations
  rw [List.length_append, List.length_map] at hlength
  exact hlength.trans (Nat.add_comm _ _)

theorem follows_nil (level : Nat) : Follows [] level {} {} where
  operations := rfl
  openDirs := by simp
  style := .inl rfl

/-- The start of a structure follows whatever was planned, for a line that is not indented. -/
theorem follows_start (progress : Progress) :
    Follows progress.operations.toList 0 progress {} where
  operations := by simp
  openDirs := by simp
  style := .inl rfl

/-- Which indentations are accepted, and the style behind them. -/
theorem checkIndent_eq_ok_iff {style after : Option IndentStyle} {line : Line} :
    checkIndent style line = .ok after ↔
      match line.indent with
      | .none => after = style
      | .tabs _ => (style = none ∨ style = some .tabs) ∧ after = some .tabs
      | .spaces _ => (style = none ∨ style = some .spaces) ∧ after = some .spaces
      | .mixed _ _ => False := by
  unfold checkIndent
  rcases line.indent with - | n | n | ⟨t, n⟩ <;> rcases style with - | style
  case none.none | none.some | tabs.none | spaces.none => simp [eq_comm]
  case mixed.none | mixed.some => simp
  all_goals cases style <;> simp [eq_comm]

/-- **An indentation that is accepted** is accepted also where the style is not settled yet. -/
theorem checkIndent_of_follows {style style' after : Option IndentStyle} {line : Line} {n : Nat}
    (hstyle : style' = none ∨ style' = style)
    (h : checkIndent style (line.behind n) = .ok after) :
    ∃ after', checkIndent style' line = .ok after' ∧ (after' = none ∨ after' = after) := by
  rw [checkIndent_eq_ok_iff, Line.indent_behind] at h
  simp only [checkIndent_eq_ok_iff]
  split at h
  · exact ⟨style', rfl, h ▸ hstyle⟩
  · exact ⟨after, ⟨hstyle.elim .inl fun hsame ↦ hsame ▸ h.1, h.2⟩, .inr rfl⟩
  · exact ⟨after, ⟨hstyle.elim .inl fun hsame ↦ hsame ▸ h.1, h.2⟩, .inr rfl⟩
  · exact h.elim

/-- **What a line adds** follows what it adds alone. -/
theorem Follows.added {level : Nat} (h : Follows before level progress alone)
    (openDirs : List OpenDir) (op : Operation) (found : Option String × List Operation)
    (level' : Nat) :
    Follows before level'
      (progress.added (openDirs.map (·.behind before.length)) (op.behind before.length)
        (foundBehind before.length found))
      (alone.added openDirs op found) := by
  refine ⟨?_, ?_, h.style⟩
  · simp [Progress.added, h.operations, foundBehind, Operation.behind]
  · rw [List.map_take, Progress.added, Progress.added, h.size_eq]
    by_cases hdir : op.isDirectory = true <;> simp [hdir, OpenDir.behind]

theorem alike_planLine (hb : Steady b among) (options : PlanOptions) {line : Line}
    (h : Follows before line.depth progress alone) (n : Nat) :
    Alike among (fun progress alone ↦ ∀ level, Follows before level progress alone)
      (planLine b options progress (line.behind n)) (planLine b options alone line) := by
  rw [planLine_eq_bind progress (line.behind n) h.openDirs (lineOperation_behind _ _ _ _),
    planLine_eq_bind alone line rfl rfl, h.size_eq, Line.kind_behind]
  generalize lineOperation options (alone.openDirs.take line.depth) line.kind = op
  refine .bind (R := fun found found' ↦ found = foundBehind before.length found') ?_ ?_
  · rw [Operation.source_behind]
    rcases op.source with - | source
    · exact .pure rfl
    · exact alike_inspectSource hb before.length options _ op source
  · rintro _ found rfl
    exact .pure (h.added _ op found)

/-- **One line more.** -/
theorem follows_checkedLine (hb : Steady b among) {line : Line} {n : Nat}
    (h : Follows before line.depth progress alone) (hs : among s) (ht : among t)
    (hrun : runFrom s (checkedLine b options progress (line.behind n)).run = (.ok progress', s')) :
    among s' ∧ ∃ alone' t', among t' ∧
      runFrom t (checkedLine b options alone line).run = (.ok alone', t') ∧
      ∀ level, Follows before level progress' alone' := by
  unfold checkedLine at hrun ⊢
  split at hrun
  · cases hrun
  · rename_i style hcheck
    obtain ⟨style', hcheck', hstyle⟩ := checkIndent_of_follows h.style hcheck
    rw [hcheck']
    have hnext : Follows before line.depth { progress with style } { alone with style := style' } :=
      ⟨h.operations, h.openDirs, hstyle⟩
    obtain ⟨hfollows, hs', ht'⟩ := alike_planLine hb options hnext n s t hs ht
    simp only [runFrom_lift, Prod.mk.injEq, Except.ok.injEq] at hrun ⊢
    obtain ⟨rfl, rfl⟩ := hrun
    exact ⟨hs', _, _, ht', ⟨rfl, rfl⟩, hfollows⟩

/-- **All lines.** What is planned for them follows what is planned for them alone, and where the
whole is accepted they are accepted alone. -/
theorem follows_foldlM (hb : Steady b among) (n : Nat) {lines : List Line}
    (h : Follows before 0 progress alone)
    (hfirst : ∀ line ∈ lines.head?, Follows before line.depth progress alone) (hs : among s)
    (ht : among t)
    (hrun : runFrom s ((lines.map (·.behind n)).foldlM (checkedLine b options) progress).run =
      (.ok progress', s')) :
    among s' ∧ ∃ alone' t', among t' ∧
      runFrom t (lines.foldlM (checkedLine b options) alone).run = (.ok alone', t') ∧
      Follows before 0 progress' alone' := by
  induction lines generalizing progress alone s t with
  | nil =>
    obtain ⟨rfl, rfl⟩ : progress = progress' ∧ s = s' := by simpa using hrun
    exact ⟨hs, alone, t, ht, rfl, h⟩
  | cons line lines ih =>
    rw [List.map_cons, List.foldlM_cons, run_bind_eq_ok_iff] at hrun
    obtain ⟨next, s₁, hline, hrest⟩ := hrun
    obtain ⟨hs₁, next', t₁, ht₁, hline', hnext⟩ :=
      follows_checkedLine hb (hfirst line rfl) hs ht hline
    obtain ⟨hs', alone', t', ht', hrest', hfollows⟩ :=
      ih (hnext 0) (fun line _ ↦ hnext line.depth) hs₁ ht₁ hrest
    refine ⟨hs', alone', t', ht', ?_, hfollows⟩
    rw [List.foldlM_cons, run_bind_eq_ok_iff]
    exact ⟨next', t₁, hline', hrest'⟩

/-! ### Whole texts -/

/-- A text without carriage returns and byte order marks is normal. -/
theorem normalize_eq {text : String} (h : ∀ c ∈ text.toList, c ≠ '\r' ∧ c ≠ '\uFEFF') :
    normalize text = text := by
  have hmarks : text.toList.dropWhile (· == '\uFEFF') = text.toList := by
    rw [List.dropWhile_eq_self_iff]
    intro hlt
    simpa using (h _ (List.getElem_mem hlt)).2
  rw [normalize, hmarks, Text.unifyLineEnds_eq fun hreturn ↦ (h _ hreturn).1 rfl,
    String.ofList_toList]

/-- A text without front matter is a structure as a whole. -/
theorem extractWith_of_none {readBlock : String → Option FrontMatter} {text : String}
    (h : (FrontMatter.extractWith readBlock text).1 = none) :
    FrontMatter.extractWith readBlock text = (none, text) := by
  unfold FrontMatter.extractWith at h ⊢
  split
  · rfl
  · rename_i block rest hblock
    rw [hblock] at h
    dsimp only at h
    split
    · rename_i f hread
      rw [hread] at h
      cases h
    · rfl

/-- The plan of a text that is a structure as a whole. -/
theorem plan_eq_ok_iff {readBlock : String → Option FrontMatter} {text : String} {result : Plan}
    (hplain : ∀ c ∈ text.toList, c ≠ '\r' ∧ c ≠ '\uFEFF')
    (hnone : (FrontMatter.extractWith readBlock text).1 = none) :
    runFrom s (plan b readBlock options text).run = (.ok result, s') ↔
      ∃ lines progress, Expansion.expandText text = .ok lines ∧
        runFrom s (planLines b options (parseLines lines)).run = (.ok progress, s') ∧
        result = ⟨progress.operations.toList, options, none⟩ := by
  unfold plan
  rw [normalize_eq hplain, extractWith_of_none hnone]
  dsimp only [FrontMatter.merge]
  rcases Expansion.expandText text with e | lines
  · simp
  · simp only [run_bind_eq_ok_iff, Except.ok.injEq, runFrom_run_pure, Prod.mk.injEq]
    constructor
    · rintro ⟨progress, s₁, hrun, rfl, rfl⟩
      exact ⟨lines, progress, rfl, hrun, rfl⟩
    · rintro ⟨_, progress, rfl, hrun, rfl⟩
      exact ⟨progress, s', hrun, rfl, rfl⟩

/-- **Planning is compositional** at lines that are not indented. When two texts are joined by a
line feed and the second one starts with such a line, then the joined text can be planned only if
both can, from whichever states, and its operations are those of the first text and those of the
second, with the parents of the latter moved behind the former. -/
theorem plan_joined (hb : Steady b among) {readBlock : String → Option FrontMatter}
    {above below : String} {result : Plan}
    (hplain : ∀ c ∈ above.toList ++ below.toList, c ≠ '\r' ∧ c ≠ '\uFEFF')
    (hnone : ∀ text ∈ [above, below, above ++ "\n" ++ below],
      (FrontMatter.extractWith readBlock text).1 = none)
    (hmargin : Expansion.StartsBy 0 (Text.lines below)) (hs : among s)
    (h : runFrom s (plan b readBlock options (above ++ "\n" ++ below)).run = (.ok result, s')) :
    ∀ t t', among t → among t' → ∃ planAbove planBelow u u',
      runFrom t (plan b readBlock options above).run = (.ok planAbove, u) ∧
      runFrom t' (plan b readBlock options below).run = (.ok planBelow, u') ∧
      result.operations = planAbove.operations ++
        planBelow.operations.map (·.behind planAbove.operations.length) := by
  intro t t' ht ht'
  simp only [List.forall_mem_cons] at hnone
  obtain ⟨hnoneAbove, hnoneBelow, hnoneJoined, -⟩ := hnone
  obtain ⟨hplainAbove, hplainBelow⟩ := List.forall_mem_append.mp hplain
  have hplainJoined : ∀ c ∈ (above ++ "\n" ++ below).toList, c ≠ '\r' ∧ c ≠ '\uFEFF' := by
    simp only [String.toList_append, List.forall_mem_append]
    exact ⟨⟨hplainAbove, by simp⟩, hplainBelow⟩
  obtain ⟨lines, progress, hlines, hrun, rfl⟩ := (plan_eq_ok_iff hplainJoined hnoneJoined).mp h
  obtain ⟨outAbove, blank, outBelow, hAbove, hBelow, hblank, hstarts, rfl⟩ :=
    Expansion.expandText_joined (fun hreturn ↦ (hplainAbove _ hreturn).1 rfl) hmargin hlines
  have hempty : parseLines blank = [] :=
    parseLines_of_blank fun line hline ↦ by rw [hblank line hline]; rfl
  rw [parseLines_append, parseLines_append outAbove, hempty, List.map_nil, List.append_nil,
    planLines_eq_foldlM, List.foldlM_append, run_bind_eq_ok_iff] at hrun
  obtain ⟨first, s₁, hfirst, hsecond⟩ := hrun
  -- the first part alone is the case of nothing in front
  have hmoved : (parseLines outAbove).map (·.behind 0) = parseLines outAbove := by simp
  obtain ⟨hs₁, firstAlone, u, -, hrunAbove, hfollowsAbove⟩ :=
    follows_foldlM hb 0 (follows_nil 0) (fun line _ ↦ follows_nil line.depth) hs ht
      (hmoved.symm ▸ hfirst)
  obtain ⟨-, secondAlone, u', -, hrunBelow, hfollowsBelow⟩ :=
    follows_foldlM hb _ (follows_start first)
      (fun line hline ↦ depth_eq_zero_of_startsBy hstarts line hline ▸ follows_start first)
      hs₁ ht' hsecond
  have hsame : first.operations.toList = firstAlone.operations.toList := by
    simpa using hfollowsAbove.operations
  refine ⟨_, _, u, u', (plan_eq_ok_iff hplainAbove hnoneAbove).mpr ⟨_, _, hAbove, hrunAbove, rfl⟩,
    (plan_eq_ok_iff hplainBelow hnoneBelow).mpr ⟨_, _, hBelow, hrunBelow, rfl⟩, ?_⟩
  rw [hfollowsBelow.operations, hsame]

/-- A structure with a repeated file, which ends in a line feed. -/
def sketchAbove : String := "a\n\tb_$*2.txt\n"

/-- A structure that starts with a blank line and copies a directory. -/
def sketchBelow : String := "\n[s] > d\n\te.txt"

/-- A store with a directory to copy. -/
def sketchStore : MemoryStore :=
  MemoryStore.empty.withFile (.ofText "/r/s/x.txt") ByteArray.empty

/-- The plan of the two structures, one behind the other. -/
def sketchPlan : Except PlanError Plan × MemoryStore :=
  runFrom sketchStore (plan MemoryStore.backend (fun _ ↦ some {}) { root := .ofText "/r" }
    (sketchAbove ++ "\n" ++ sketchBelow)).run

theorem plan_joined_sketch : ∃ result planAbove planBelow u u', sketchPlan.1 = .ok result ∧
    runFrom sketchStore (plan MemoryStore.backend (fun _ ↦ some {}) { root := .ofText "/r" }
      sketchAbove).run = (.ok planAbove, u) ∧
    runFrom sketchStore (plan MemoryStore.backend (fun _ ↦ some {}) { root := .ofText "/r" }
      sketchBelow).run = (.ok planBelow, u') ∧
    result.operations = planAbove.operations ++
      planBelow.operations.map (·.behind planAbove.operations.length) ∧
    result.operations.map (·.parent) = [none, some 0, some 0, none, some 3, some 3] := by
  have hparents : sketchPlan.1.toOption.map (fun result ↦ result.operations.map (·.parent)) =
      some [none, some 0, some 0, none, some 3, some 3] := by
    decide +kernel
  rcases hrun : sketchPlan with ⟨e | result, s'⟩
  · rw [hrun] at hparents
    cases hparents
  · rw [hrun] at hparents
    obtain ⟨planAbove, planBelow, u, u', habove, hbelow, hops⟩ :=
      plan_joined (MemoryStore.steady_backend sketchStore) (by simp [sketchAbove, sketchBelow])
        (by decide +kernel) (by decide +kernel) rfl hrun sketchStore sketchStore rfl rfl
    exact ⟨result, planAbove, planBelow, u, u', rfl, habove, hbelow, hops,
      Option.some.inj hparents⟩

end Planner

end Scaffold
