import Scaffold.Proofs.Line.Indent
import Scaffold.Proofs.Plan.Joining

/-!
# When an indentation is refused

Planning checks the indentation of one line after the other and carries the style of the structure
along. Which structures it refuses can be said of the lines as a whole: a line that is not blank
offends if it is indented in both styles, or in another one than the first line in front of it that
is indented in one (`Offends`). The first line that offends is the one that is reported
(`plan_refused_iff_offends`), whatever the backend answers for the lines in front of it.

The style that is carried along is the one that the lines so far settle (`settledStyle?`), as long
as none of them offends (`foldlM_checkIndent_of_accepted`).
-/

namespace Scaffold.Planner

variable {style : Option IndentStyle} {lines : List String} {raw : String} {i n : Nat}

/-! ### Lines as a whole -/

/-- The style that lines settle: that of the first one that is indented in one style. -/
def settledStyle? (lines : List String) : Option IndentStyle :=
  (lines.filter fun raw ↦ !Text.allBlank raw).findSome? styleOf?

/-- The line cannot stand in a structure with the given style. -/
def Clashes (style : Option IndentStyle) (raw : String) : Prop :=
  MixesStyles raw ∨
    ∃ seen, styleOf? raw = some seen ∧ ∃ expected, style = some expected ∧ seen ≠ expected

instance (style : Option IndentStyle) : DecidablePred (Clashes style) := fun raw ↦
  inferInstanceAs (Decidable (MixesStyles raw ∨ ∃ seen, seen ∈ styleOf? raw ∧
    ∃ expected, expected ∈ style ∧ seen ≠ expected))

/-- The line at position `i` is not blank, and it cannot stand behind the lines in front of it. -/
def Offends (lines : List String) (i : Nat) : Prop :=
  ∃ raw, lines[i]? = some raw ∧ Text.allBlank raw = false ∧
    Clashes (settledStyle? (lines.take i)) raw

instance (lines : List String) (i : Nat) : Decidable (Offends lines i) :=
  inferInstanceAs (Decidable (∃ raw, raw ∈ lines[i]? ∧ Text.allBlank raw = false ∧
    Clashes (settledStyle? (lines.take i)) raw))

/-- The refusal of the line with the given number in a structure with the given style. -/
def mixture (style : Option IndentStyle) (number : Nat) : PlanError :=
  match style with
  | some expected => .mixedIndentation number expected
  | none => .mixedIndentLine number

theorem settledStyle?_concat_of_blank (h : Text.allBlank raw = true) :
    settledStyle? (lines ++ [raw]) = settledStyle? lines := by
  simp [settledStyle?, h]

theorem settledStyle?_concat_of_written (h : Text.allBlank raw = false) :
    settledStyle? (lines ++ [raw]) = (settledStyle? lines).or (styleOf? raw) := by
  simp [settledStyle?, h, List.findSome?_append]

theorem Offends.lt_length (h : Offends lines i) : i < lines.length := by
  obtain ⟨raw, hraw, -⟩ := h
  exact (List.getElem?_eq_some_iff.mp hraw).1

/-- What stands behind a line has no part in whether it offends. -/
theorem offends_append {i : Nat} (more : List String) (hi : i < lines.length) :
    Offends (lines ++ more) i ↔ Offends lines i := by
  rw [Offends, Offends, List.getElem?_append_left hi,
    List.take_append_of_le_length (Nat.le_of_lt hi)]

/-! ### Line by line -/

/-- A line that clashes with the style is refused. -/
theorem checkIndent_of_clashes (h : Clashes style raw) (number : Nat) (kind : LineKind) :
    checkIndent style ⟨number, Indent.measure raw, kind⟩ = .error (mixture style number) := by
  have hcases := measure_cases raw
  unfold checkIndent mixture
  rcases hmeasure : Indent.measure raw with - | t | s | ⟨t, s⟩ <;> rw [hmeasure] at hcases
  case mixed => cases style <;> rfl
  all_goals
    obtain ⟨seen, hseen, expected, rfl, hne⟩ := h.resolve_left hcases.1
    rw [hcases.2] at hseen
    cases hseen
  all_goals exact if_neg (Ne.symm hne)

/-- Any other line is accepted, and settles the style if it is the first to be indented. -/
theorem checkIndent_of_not_clashes (h : ¬Clashes style raw) (number : Nat) (kind : LineKind) :
    checkIndent style ⟨number, Indent.measure raw, kind⟩ =
      .ok (style.or (styleOf? raw)) := by
  obtain ⟨hmixed, hsame⟩ := not_or.mp h
  have hcases := measure_cases raw
  unfold checkIndent
  rcases hmeasure : Indent.measure raw with - | t | s | ⟨t, s⟩ <;> rw [hmeasure] at hcases
  case none => simp [hcases.2]
  case mixed => exact absurd hcases hmixed
  all_goals
    rw [hcases.2]
    rcases style with - | expected
    · rfl
    · have heq : expected = _ := not_not.mp fun hne ↦
        hsame ⟨_, hcases.2, expected, rfl, Ne.symm hne⟩
      simp [heq]

theorem parseLines_concat (lines : List String) (raw : String) :
    parseLines (lines ++ [raw]) =
      parseLines lines ++ (Line.parse? (lines.length + 1) raw).toList := by
  rw [parseLines_append, List.append_cancel_left_eq, parseLines_cons, Line.parse?_add]
  rcases Line.parse? 1 raw with - | line <;> rfl

/-- A line that is not blank is read with its indentation. -/
theorem exists_parse? (h : Text.allBlank raw = false) (number : Nat) :
    ∃ kind, Line.parse? number raw = some ⟨number, Indent.measure raw, kind⟩ := by
  rw [← Text.isEmpty_trim] at h
  exact ⟨_, by simp [Line.parse?, h]; rfl⟩

/-- **Lines none of which offends** are accepted, with the style that they settle. -/
theorem foldlM_checkIndent_of_accepted (h : ∀ i, ¬Offends lines i) :
    (parseLines lines).foldlM checkIndent none = .ok (settledStyle? lines) := by
  induction lines using List.reverseRecOn with
  | nil => rfl
  | append_singleton lines raw ih =>
    have hbefore : ∀ i, ¬Offends lines i := fun i hi ↦
      h i ((offends_append [raw] hi.lt_length).mpr hi)
    rw [parseLines_concat, List.foldlM_append, ih hbefore]
    rcases hblank : Text.allBlank raw with - | -
    · obtain ⟨kind, hkind⟩ := exists_parse? hblank (lines.length + 1)
      have hfits : ¬Clashes (settledStyle? lines) raw := fun hclash ↦
        h lines.length ⟨raw, by simp, hblank, by simpa using hclash⟩
      rw [hkind, settledStyle?_concat_of_written hblank,
        ← checkIndent_of_not_clashes hfits (lines.length + 1) kind]
      show checkIndent _ _ >>= pure = _
      rw [bind_pure]
    · rw [(Line.parse?_eq_none_iff _ raw).mpr hblank, settledStyle?_concat_of_blank hblank]
      rfl

/-- **The first line that offends** is refused. -/
theorem foldlM_checkIndent_of_offends (h : Offends lines i) (hfirst : ∀ j < i, ¬Offends lines j) :
    (parseLines lines).foldlM checkIndent none =
      .error (mixture (settledStyle? (lines.take i)) (i + 1)) := by
  obtain ⟨raw, hraw, hblank, hclash⟩ := h
  obtain ⟨hi, hget⟩ := List.getElem?_eq_some_iff.mp hraw
  have hlength : (lines.take i).length = i := List.length_take_of_le (Nat.le_of_lt hi)
  have hsplit : lines = lines.take i ++ [raw] ++ lines.drop (i + 1) := by
    rw [List.append_assoc, List.singleton_append, ← hget, List.getElem_cons_drop,
      List.take_append_drop]
  have hbefore : ∀ j, ¬Offends (lines.take i) j := by
    intro j hj
    refine hfirst j (hlength ▸ hj.lt_length) ?_
    rw [← List.take_append_drop i lines]
    exact (offends_append _ hj.lt_length).mpr hj
  obtain ⟨kind, hkind⟩ := exists_parse? hblank (i + 1)
  rw [hsplit, parseLines_append, parseLines_concat, hlength, hkind, ← hsplit, List.append_assoc,
    List.foldlM_append, foldlM_checkIndent_of_accepted hbefore]
  show checkIndent _ _ >>= _ = _
  rw [checkIndent_of_clashes hclash]
  rfl

/-! ### Whole texts -/

section Texts

variable {σ : Type} {b : Backend (StateM σ)} {readBlock : String → Option FrontMatter}
  {text : String}

/-- **Lines are refused for their indentation only**, and planning them leaves the style that
checking them does. -/
theorem planLines_style (options : PlanOptions) (lines : List Line) (s : σ) :
    (runFrom s (planLines b options lines).run).1.map Progress.style =
      lines.foldlM checkIndent none := by
  rw [planLines_eq_foldlM, show (none : Option IndentStyle) = ({} : Progress).style from rfl]
  -- only the style of the progress is looked at, wherever the lines begin
  generalize ({} : Progress) = progress
  induction lines generalizing progress s with
  | nil => rfl
  | cons line lines ih =>
    rw [List.foldlM_cons, List.foldlM_cons, runFrom_run_bind, checkedLine]
    rcases hcheck : checkIndent progress.style line with e | style
    · rfl
    · obtain ⟨warning, inside, hplanned, -⟩ :=
        planLine_eq (b := b) options { progress with style } line s
      simp only [runFrom_lift, ih, hplanned]
      rfl

/-- A plan is refused, within the budget, when its lines are. -/
theorem plan_eq_error_iff {lines : List String} (options : PlanOptions) (s : σ)
    (hlines : Expansion.expandText (FrontMatter.extractWith readBlock (normalize text)).2 =
      .ok lines) (e : PlanError) :
    (runFrom s (plan b readBlock options text).run).1 = .error e ↔
      (parseLines lines).foldlM checkIndent none = .error e := by
  simp only [plan, hlines]
  set merged : PlanOptions := { options with
    rules := FrontMatter.merge options.rules
      (FrontMatter.extractWith readBlock (normalize text)).1 }
  rw [← planLines_style (b := b) merged (parseLines lines) s, runFrom_run_bind]
  rcases runFrom s (planLines b merged (parseLines lines)).run with ⟨e' | progress, s'⟩ <;>
    simp [Except.map]

/-- **Mixed indentation is reported exactly.** Let the expansion of a text be within the budget.
Then planning fails exactly if a line of the expansion offends: it is not blank, and it is indented
in both styles or in another one than the first line in front of it that settles a style. The first
such line is the one that is reported, by its number, with the style that the lines in front of it
settle if they do. -/
theorem plan_refused_iff_offends {lines : List String} (options : PlanOptions) (s : σ)
    (hlines : Expansion.expandText (FrontMatter.extractWith readBlock (normalize text)).2 =
      .ok lines) :
    let answer := (runFrom s (plan b readBlock options text).run).1
    ((∃ e, answer = .error e) ↔ ∃ i, Offends lines i) ∧
      ∀ i, Offends lines i → (∀ j < i, ¬Offends lines j) →
        answer = .error (mixture (settledStyle? (lines.take i)) (i + 1)) := by
  intro answer
  have hreported : ∀ i, Offends lines i → (∀ j < i, ¬Offends lines j) →
      answer = .error (mixture (settledStyle? (lines.take i)) (i + 1)) := fun i hi hfirst ↦
    (plan_eq_error_iff options s hlines _).mpr (foldlM_checkIndent_of_offends hi hfirst)
  refine ⟨⟨fun ⟨e, he⟩ ↦ ?_, fun hoffends ↦ ?_⟩, hreported⟩
  · by_contra hnone
    have hrefused := (plan_eq_error_iff options s hlines e).mp he
    rw [foldlM_checkIndent_of_accepted (not_exists.mp hnone)] at hrefused
    cases hrefused
  · classical
    exact ⟨_, hreported _ (Nat.find_spec hoffends) fun _ ↦ Nat.find_min hoffends⟩

/-- A repeated line is indented in another style than the line in front of it, and its second copy
is not the line that is reported. -/
theorem plan_refused_iff_offends_repeated :
    let lines := ["a", "\tb", "", "    c1", "    c2"]
    Expansion.expandText (FrontMatter.extractWith (fun _ ↦ none)
        (normalize "a\r\n\tb\r\n\r\n    c$*2")).2 = .ok lines ∧
      (Offends lines 3 ∧ Offends lines 4 ∧ ∀ j < 3, ¬Offends lines j) ∧
      (runFrom MemoryStore.empty (plan MemoryStore.backend (fun _ ↦ none) { root := .ofText "/r" }
        "a\r\n\tb\r\n\r\n    c$*2").run).1 = .error (.mixedIndentation 4 .tabs) := by
  intro lines
  have hlines : Expansion.expandText (FrontMatter.extractWith (fun _ ↦ none)
      (normalize "a\r\n\tb\r\n\r\n    c$*2")).2 = .ok lines := by
    decide +kernel
  have hoffends : Offends lines 3 ∧ Offends lines 4 ∧ ∀ j < 3, ¬Offends lines j := by
    decide +kernel
  refine ⟨hlines, hoffends, ?_⟩
  exact (plan_refused_iff_offends { root := .ofText "/r" } MemoryStore.empty hlines).2 3 hoffends.1
    hoffends.2.2

end Texts

end Scaffold.Planner
