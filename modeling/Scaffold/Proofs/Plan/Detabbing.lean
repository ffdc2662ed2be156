import Scaffold.Proofs.Expansion.Detabbing
import Scaffold.Proofs.Plan.Joining

/-!
# Planning with spaces in place of tabs

A structure that is indented by tabs is planned like the one in which four spaces stand in place of
each tab (`plan_detab`). The two are read line by line with the same depths and the same kinds
(`parseLines_detabLine`), and this is all that planning a line depends on, whatever the backend
answers.

The style is checked too, and it is not the same. But where nothing but tabs indents a line, none
is refused in either text: the one structure has the style of tabs as soon as the other has that of
spaces (`checkIndent_detabbed`), and so the two runs stay in step (`detabbed_checkedLine`,
`detabbed_foldlM`).

Front matter would be changed by the spaces, so the text must not start with a line of dashes. Byte
order marks at the start are dropped before the lines are read, so what stands behind them is then
in front of the first line (`MarksClear`, `mark_hides_tab`).
-/

namespace Scaffold

/-- The line with four spaces in place of each tab in front of it. -/
def Line.detabbed (line : Line) : Line := { line with indent := line.indent.detabbed }

@[simp]
theorem Line.kind_detabbed (line : Line) : line.detabbed.kind = line.kind := rfl

@[simp]
theorem Line.depth_detabbed (line : Line) : line.detabbed.depth = line.depth :=
  line.indent.depth_detabbed

theorem Line.parse?_detabLine (number : Nat) (raw : String) :
    Line.parse? number (detabLine raw) = (Line.parse? number raw).map Line.detabbed := by
  simp only [Line.parse?, trim_detabLine, measure_detabLine]
  split
  · rfl
  · rw [Option.map_some, Line.detabbed]

/-- Nothing but tabs indents the line. -/
def Line.TabsOnly (line : Line) : Prop :=
  match line.indent with
  | .none | .tabs _ => True
  | .spaces _ | .mixed _ _ => False

theorem tabsOnly_of_parse? {number : Nat} {raw : String} {line : Line}
    (hraw : ∀ c ∈ leadOf raw, c = '\t') (h : Line.parse? number raw = some line) :
    line.TabsOnly := by
  have hindent : line.indent = Indent.measure raw := by
    unfold Line.parse? at h
    dsimp only at h
    split at h
    · cases h
    · rw [← Option.some.inj h]
  have hspaces : (leadOf raw).count ' ' = 0 :=
    List.count_eq_zero.mpr fun hmem ↦ absurd (hraw ' ' hmem) (by decide)
  rw [Line.TabsOnly, hindent, measure_eq, hspaces]
  rcases (leadOf raw).count '\t' with - | t <;> trivial

namespace Planner

variable {σ : Type} {b : Backend (StateM σ)} {options : PlanOptions} {progress : Progress}
  {line : Line} {text : String}

/-! ### Line by line -/

theorem parseLines_detabLine (lines : List String) :
    parseLines (lines.map detabLine) = (parseLines lines).map Line.detabbed := by
  rw [parseLines, List.zipIdx_map, List.filterMap_map, parseLines, List.map_filterMap]
  refine List.filterMap_congr ?_
  rintro ⟨raw, i⟩ -
  simp only [Function.comp_apply, Prod.map_apply, id, Line.parse?_detabLine]

theorem tabsOnly_of_mem_parseLines {lines : List String}
    (h : ∀ raw ∈ lines, ∀ c ∈ leadOf raw, c = '\t') : ∀ line ∈ parseLines lines, line.TabsOnly := by
  intro line hline
  obtain ⟨⟨raw, i⟩, hmem, hparse⟩ := List.mem_filterMap.mp hline
  exact tabsOnly_of_parse? (h raw (List.fst_mem_of_mem_zipIdx hmem)) hparse

/-- The progress with the style of spaces, once there is a style. -/
def Progress.detabbed (progress : Progress) : Progress :=
  { progress with style := progress.style.map fun _ ↦ .spaces }

theorem Progress.operations_detabbed (progress : Progress) :
    progress.detabbed.operations = progress.operations := rfl

theorem Progress.added_detabbed (progress : Progress) (openDirs : List OpenDir) (op : Operation)
    (found : Option String × List Operation) :
    progress.detabbed.added openDirs op found = (progress.added openDirs op found).detabbed := rfl

/-- **The style check** accepts tabs unless spaces have been seen, and it accepts spaces in their
place. -/
theorem checkIndent_detabbed {style : Option IndentStyle} (hstyle : style ≠ some .spaces)
    (hline : line.TabsOnly) :
    ∃ style', style' ≠ some .spaces ∧ checkIndent style line = .ok style' ∧
      checkIndent (style.map fun _ ↦ .spaces) line.detabbed = .ok (style'.map fun _ ↦ .spaces) := by
  simp only [checkIndent_eq_ok_iff, Line.detabbed]
  rcases line with ⟨number, - | t | n | ⟨t, n⟩, kind⟩
  case none => exact ⟨style, hstyle, rfl, rfl⟩
  case tabs =>
    refine ⟨some .tabs, nofun, ?_⟩
    rcases style with - | - | -
    · exact ⟨⟨.inl rfl, rfl⟩, ⟨.inl rfl, rfl⟩⟩
    · exact ⟨⟨.inr rfl, rfl⟩, ⟨.inr rfl, rfl⟩⟩
    · exact absurd rfl hstyle
  case spaces | mixed => exact False.elim hline

variable (b options)

/-- **One line more.** Planning it depends on its depth and its kind only. -/
theorem detabbed_checkedLine (hstyle : progress.style ≠ some .spaces) (hline : line.TabsOnly)
    (s : σ) :
    ∃ next s', next.style ≠ some .spaces ∧
      runFrom s (checkedLine b options progress line).run = (.ok next, s') ∧
      runFrom s (checkedLine b options progress.detabbed line.detabbed).run =
        (.ok next.detabbed, s') := by
  obtain ⟨style, hstyle, hcheck, hcheck'⟩ := checkIndent_detabbed hstyle hline
  have hcheck' : checkIndent progress.detabbed.style line.detabbed = _ := hcheck'
  simp only [checkedLine, hcheck, hcheck', runFrom_lift]
  have hopenDirs : progress.openDirs.take line.detabbed.depth =
      progress.openDirs.take line.depth := by
    rw [Line.depth_detabbed]
  have hstyled : ({ progress.detabbed with style := style.map fun _ ↦ .spaces } : Progress) =
      Progress.detabbed { progress with style } := rfl
  rw [hstyled, planLine_eq_bind { progress with style } line rfl rfl,
    planLine_eq_bind (Progress.detabbed { progress with style }) line.detabbed hopenDirs rfl,
    runFrom_bind, runFrom_bind, runFrom_pure, runFrom_pure]
  simp only [Progress.added_detabbed, Progress.operations_detabbed, Line.kind_detabbed]
  exact ⟨_, _, hstyle, rfl, rfl⟩

/-- **All lines.** -/
theorem detabbed_foldlM (hstyle : progress.style ≠ some .spaces) {lines : List Line}
    (hlines : ∀ line ∈ lines, line.TabsOnly) (s : σ) :
    ∃ next s', runFrom s (lines.foldlM (checkedLine b options) progress).run = (.ok next, s') ∧
      runFrom s ((lines.map Line.detabbed).foldlM (checkedLine b options) progress.detabbed).run =
        (.ok next.detabbed, s') := by
  induction lines generalizing progress s with
  | nil => exact ⟨progress, s, rfl, rfl⟩
  | cons line lines ih =>
    obtain ⟨hline, hlines⟩ := List.forall_mem_cons.mp hlines
    obtain ⟨next, s₁, hnext, hrun, hrun'⟩ :=
      detabbed_checkedLine b options hstyle hline s
    obtain ⟨last, s₂, hrest, hrest'⟩ := ih hnext hlines s₁
    refine ⟨last, s₂, ?_, ?_⟩
    · rw [List.foldlM_cons, runFrom_run_bind, hrun]
      exact hrest
    · rw [List.map_cons, List.foldlM_cons, runFrom_run_bind, hrun']
      exact hrest'

variable {b options}

/-! ### Whole texts -/

/-- The text with four spaces in place of each tab in front of a line. -/
def detab (text : String) : String := String.ofList (detabFrom true text.toList)

/-- Where a text starts with byte order marks, neither a tab nor a space comes next. With the marks
gone it would stand in front of the first line. -/
def MarksClear (text : String) : Prop :=
  text.toList.head? = some '\uFEFF' →
    ∀ c, (text.toList.dropWhile (· == '\uFEFF')).head? = some c → Indent.isIndentChar c = false

theorem toList_normalize (text : String) :
    (normalize text).toList =
      Text.unifyLineEnds (text.toList.dropWhile (· == '\uFEFF')) := by
  rw [normalize, String.toList_ofList]

/-- Lines end in line feeds, once line ends are in one spelling. -/
theorem return_not_mem_normalize (text : String) : '\r' ∉ (normalize text).toList := by
  rw [toList_normalize]
  exact Text.return_not_mem_unifyLineEnds _

theorem dropWhile_mark {s : List Char} (h : s.head? ≠ some '\uFEFF') :
    s.dropWhile (· == '\uFEFF') = s := by
  rcases s with - | ⟨c, s⟩
  · rfl
  · exact List.dropWhile_cons_of_neg (by simpa using h)

/-- Marks are no indentation, so nothing is replaced on the line behind them. -/
theorem detabFrom_marks {marks s : List Char} (hmarks : ∀ c ∈ marks, (c == '\uFEFF') = true)
    (hclear : marks ≠ [] → ∀ c, s.head? = some c → Indent.isIndentChar c = false) :
    detabFrom true (marks ++ s) = marks ++ detabFrom true s := by
  have hbehind : ∀ marks : List Char, (∀ c ∈ marks, (c == '\uFEFF') = true) →
      detabFrom false (marks ++ s) = marks ++ detabFrom false s := by
    intro marks hmarks
    induction marks with
    | nil => rfl
    | cons c marks ih =>
      obtain ⟨hc, hrest⟩ := List.forall_mem_cons.mp hmarks
      rw [beq_iff_eq.mp hc, List.cons_append, detabFrom_cons_of_written false rfl, ih hrest,
        List.cons_append]
  rcases marks with - | ⟨c, marks⟩
  · rfl
  · obtain ⟨hc, hrest⟩ := List.forall_mem_cons.mp hmarks
    rw [beq_iff_eq.mp hc, List.cons_append, detabFrom_cons_of_written true rfl, hbehind marks hrest,
      detabFrom_true_of_clear (hclear (List.cons_ne_nil _ _)), List.cons_append]

theorem toList_normalize_detab {text : String} (hclear : MarksClear text) :
    (normalize (detab text)).toList = detabFrom true (normalize text).toList := by
  obtain ⟨marks, s, htext, hmarks, hs⟩ : ∃ marks s, text.toList = marks ++ s ∧
      (∀ c ∈ marks, (c == '\uFEFF') = true) ∧ s.head? ≠ some '\uFEFF' := by
    refine ⟨_, _, List.takeWhile_append_dropWhile.symm, fun _ ↦ List.mem_takeWhile_imp,
      fun hhead ↦ ?_⟩
    have hnot := List.head?_dropWhile_not (· == '\uFEFF') text.toList
    rw [hhead] at hnot
    cases hnot
  have hdrop : ∀ s : List Char, s.head? ≠ some '\uFEFF' →
      (marks ++ s).dropWhile (· == '\uFEFF') = s := fun s hs ↦ by
    rw [List.dropWhile_append_of_pos hmarks, dropWhile_mark hs]
  have hclear : marks ≠ [] → ∀ c, s.head? = some c → Indent.isIndentChar c = false := by
    intro hne
    obtain ⟨c, rest, rfl⟩ := List.exists_cons_of_ne_nil hne
    have hc := beq_iff_eq.mp (hmarks c List.mem_cons_self)
    have hstart := hclear (by rw [htext, hc]; rfl)
    rwa [htext, hdrop s hs] at hstart
  rw [toList_normalize, toList_normalize, detab, String.toList_ofList, htext,
    detabFrom_marks hmarks hclear, hdrop _ (head?_detabFrom_ne true (by decide) hs), hdrop s hs,
    Text.unifyLineEnds_detabFrom]

theorem expandText_normalize_detab {text : String} (hclear : MarksClear text) :
    Expansion.expandText (normalize (detab text)) =
      (Expansion.expandText (normalize text)).map (List.map detabLine) := by
  have hlines : Text.lines (normalize (detab text)) =
      (Text.lines (normalize text)).map detabLine := by
    rw [Text.lines, toList_normalize_detab hclear,
      Text.lineChars_detabFrom (return_not_mem_normalize text), Text.lines, List.map_map,
      List.map_map]
    refine List.map_congr_left fun line _ ↦ ?_
    simp [detabLine]
  rw [Expansion.expandText, hlines, Expansion.expandLines_map .detabLine, Expansion.expandText]

theorem takeWhile_detabFrom_false {s : List Char} (hreturn : '\r' ∉ s) :
    (detabFrom false s).takeWhile (· ≠ '\n') = s.takeWhile (· ≠ '\n') := by
  induction s with
  | nil => rfl
  | cons c s ih =>
    rw [List.mem_cons, not_or] at hreturn
    by_cases hfeed : c = '\n'
    · simp [detabFrom, hfeed]
    · simpa [detabFrom, hfeed, Ne.symm hreturn.1] using ih hreturn.2

/-- The first line is the same, from its first character on that is no blank. -/
theorem firstWritten_detabFrom (front : Bool) {s : List Char} (hreturn : '\r' ∉ s) :
    FrontMatter.firstWritten (detabFrom front s) = FrontMatter.firstWritten s := by
  unfold FrontMatter.firstWritten
  induction s generalizing front with
  | nil => rfl
  | cons c s ih =>
    rw [List.mem_cons, not_or] at hreturn
    rcases hc : Text.isBlank c with - | -
    · have hfeed : c ≠ '\n' := by
        rintro rfl
        cases hc
      rw [detabFrom_cons_of_written front hc, List.dropWhile_cons_of_neg (by simp [hc]),
        List.dropWhile_cons_of_neg (by simp [hc]), List.takeWhile_cons_of_pos (by simp [hfeed]),
        List.takeWhile_cons_of_pos (by simp [hfeed]), takeWhile_detabFrom_false hreturn.2]
    · have hblank : ∀ c' ∈ (if front ∧ c = '\t' then List.replicate spacesPerLevel ' ' else [c]),
          Text.isBlank c' = true := by
        split
        · exact fun c' hc' ↦ by rw [List.eq_of_mem_replicate hc']; rfl
        · simpa using hc
      rw [detabFrom, List.dropWhile_append_of_pos hblank, List.dropWhile_cons_of_pos hc,
        ih _ hreturn.2]

/-- **Tabs and spaces are interchangeable.** Let nothing but tabs stand in front of the lines of a
text, and neither a tab nor a space directly behind byte order marks at its start, and let its first
line that is not blank be no line of dashes. Then whatever the backend answers, planning the text
and planning it with four spaces in place of each of these tabs leave the same plan or the same
error, and the same state. -/
theorem plan_detab {readBlock : String → Option FrontMatter} {text : String}
    (hfence : FrontMatter.isFence (FrontMatter.firstWritten (normalize text).toList) = false)
    (htabs : ∀ line ∈ Text.lines (normalize text), ∀ c ∈ leadOf line, c = '\t')
    (hclear : MarksClear text) (options : PlanOptions) (s : σ) :
    runFrom s (plan b readBlock options (detab text)).run =
      runFrom s (plan b readBlock options text).run := by
  have hreturn := return_not_mem_normalize
  have hfence' : FrontMatter.isFence
      (FrontMatter.firstWritten (normalize (detab text)).toList) = false := by
    rw [toList_normalize_detab hclear, firstWritten_detabFrom true (hreturn text), hfence]
  simp only [plan, FrontMatter.extractWith_of_not_fence hfence (hreturn _),
    FrontMatter.extractWith_of_not_fence hfence' (hreturn _), expandText_normalize_detab hclear]
  rcases hlines : Expansion.expandText (normalize text) with e | lines
  · rfl
  · have hwritten : ∀ raw ∈ lines, ∀ c ∈ leadOf raw, c = '\t' := by
      intro raw hraw
      obtain ⟨line, hline, hlead⟩ := Expansion.exists_leadOf_of_expandText hlines hraw
      exact hlead ▸ htabs line hline
    obtain ⟨next, s', hrun, hrun'⟩ := detabbed_foldlM b
      { options with rules := FrontMatter.merge options.rules none }
      (show ({} : Progress).style ≠ some .spaces from nofun) (tabsOnly_of_mem_parseLines hwritten) s
    have hrun' : runFrom s (((parseLines lines).map Line.detabbed).foldlM (checkedLine b
        { options with rules := FrontMatter.merge options.rules none }) {}).run = _ := hrun'
    simp only [Except.map, parseLines_detabLine, planLines_eq_foldlM, runFrom_run_bind, hrun, hrun']
    rfl

/-- Lines end in all three ways, and a line is repeated with the one under it. The text starts with
a byte order mark, and its first line is not indented. -/
theorem plan_detab_repeated :
    let tabs := "\uFEFFa/\r\n\tb$*2/\r\t\tc\n\t"
    let spaces := "\uFEFFa/\r\n    b$*2/\r        c\n    "
    detab tabs = spaces ∧
      (runFrom MemoryStore.empty (plan MemoryStore.backend (fun _ ↦ none) { root := .ofText "/r" }
        spaces).run).1.toOption.map (fun result ↦ result.operations.map fun op ↦
          (op.name, op.parent)) =
        some [("a/", none), ("b1/", some 0), ("c", some 1), ("b2/", some 0), ("c", some 3)] := by
  intro tabs spaces
  have hspaces : detab tabs = spaces := by decide +kernel
  refine ⟨hspaces, ?_⟩
  have hfence : FrontMatter.isFence (FrontMatter.firstWritten (normalize tabs).toList) = false := by
    decide +kernel
  have hall : (Text.lines (normalize tabs)).all fun line ↦ (leadOf line).all (· == '\t') := by
    decide +kernel
  have htabs : ∀ line ∈ Text.lines (normalize tabs), ∀ c ∈ leadOf line, c = '\t' := by
    intro line hline c hc
    exact beq_iff_eq.mp (List.all_eq_true.mp (List.all_eq_true.mp hall line hline) c hc)
  have hclear : MarksClear tabs := by
    have hnext : (tabs.toList.dropWhile (· == '\uFEFF')).head? = some 'a' := by decide +kernel
    intro _ c hc
    obtain rfl := Option.some.inj (hnext.symm.trans hc)
    rfl
  rw [← hspaces, plan_detab hfence htabs hclear]
  decide +kernel

/-- **A byte order mark hides a tab.** The lead of the first line is empty, so in the other text the
tab behind the mark stays; once the mark is dropped that text mixes tabs and spaces. -/
theorem mark_hides_tab :
    let tabs := "\uFEFF\ta\n\tb"
    let planned := fun text ↦ (runFrom MemoryStore.empty
      (plan MemoryStore.backend (fun _ ↦ none) { root := .ofText "/r" } text).run).1
    (Text.lines tabs).map leadOf = [[], ['\t']] ∧
      FrontMatter.isFence (FrontMatter.firstWritten tabs.toList) = false ∧
      detab tabs = "\uFEFF\ta\n    b" ∧
      (planned tabs).toOption.map (fun result ↦ result.operations.map (·.name)) =
        some ["a", "b"] ∧
      (planned (detab tabs)).map (·.operations) = .error (.mixedIndentation 2 .tabs) := by
  decide +kernel

end Planner

end Scaffold
