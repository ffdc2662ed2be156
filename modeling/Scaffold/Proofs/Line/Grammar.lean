import Scaffold.Proofs.Line.Kind

/-!
# The grammar of lines

A transfer is a line that can be cut (`Cut`): its source stands in brackets, and behind the closing
bracket there are only blanks, or blanks, `>` and a target. A line with several closing brackets may
have several cuts. What it asks for is said by the one with the longest source, once the blanks at
both ends of source and target are taken away (`Asks`); a source of which nothing is left is none.

`Means` is the grammar that comes of it. Moves come before copies, and a line that is neither is the
name of an entry. The reader goes from bracket to bracket and never looks back, and it answers what
the grammar says (`classify_eq_iff`).
-/

namespace Scaffold.LineKind

/-! ### Cuts -/

/-- The line is `source` between the brackets, and behind the closing one there are only blanks, or
blanks, `>` and `target`. Neither source nor target is empty. -/
inductive Cut (opening closing : Char) : String → String → Option String → Prop where
  | alone {source blanks : String} (hsource : source ≠ "") (hblanks : Text.allBlank blanks = true) :
    Cut opening closing
      (String.singleton opening ++ source ++ String.singleton closing ++ blanks) source none
  | aimed {source blanks target : String} (hsource : source ≠ "")
    (hblanks : Text.allBlank blanks = true) (htarget : target ≠ "") :
    Cut opening closing
      (String.singleton opening ++ source ++ String.singleton closing ++ blanks ++ ">" ++ target)
      source (some target)

/-- No cut of the line has a longer source. -/
structure LongestCut (opening closing : Char) (line source : String) (target : Option String) :
    Prop where
  cut : Cut opening closing line source target
  length_le : ∀ source' target', Cut opening closing line source' target' →
    source'.length ≤ source.length

/-- What is left of a target without the blanks around it, if anything is. -/
def named (target : String) : Option String :=
  if Text.allBlank target then none else some (Text.trim target)

/-- The longest cut of the line has a source that is not blank, and source and target are called
`name` and `aim` then. -/
def Asks (opening closing : Char) (line name : String) (aim : Option String) : Prop :=
  ∃ source target, LongestCut opening closing line source target ∧
    Text.trim source = name ∧ name ≠ "" ∧ target.bind named = aim

/-- What a line asks for. Moves come before copies, and everything else is a name. -/
inductive Means (line : String) : LineKind → Prop where
  | move {source : String} {target : Option String} (h : Asks '(' ')' line source target) :
    Means line (.move source target)
  | copy {source : String} {target : Option String}
    (hmove : ∀ source target, ¬Asks '(' ')' line source target)
    (h : Asks '[' ']' line source target) : Means line (.copy source target)
  | create (hmove : ∀ source target, ¬Asks '(' ')' line source target)
    (hcopy : ∀ source target, ¬Asks '[' ']' line source target) : Means line (.create line)

/-! ### Cuts are readings -/

variable {opening closing : Char} {line source name : String} {target aim : Option String}
  {rest : List Char}

/-- What stands behind the closing bracket of a cut. -/
theorem cut_iff_follows : Cut opening closing line source target ↔
    ∃ behind, line.toList = opening :: (source.toList ++ closing :: behind) ∧ source ≠ "" ∧
      Follows behind (target.map String.toList) := by
  constructor
  · rintro (⟨hsource, hblanks⟩ | ⟨hsource, hblanks, htarget⟩)
    · rename_i blanks
      exact ⟨blanks.toList, by simp, hsource, .alone (List.all_eq_true.mp hblanks)⟩
    · rename_i blanks aimed
      refine ⟨blanks.toList ++ '>' :: aimed.toList, by simp, hsource, ?_⟩
      exact .target (List.all_eq_true.mp hblanks) fun hnil ↦
        htarget (String.toList_eq_nil_iff.mp hnil)
  · rintro ⟨behind, hline, hsource, hfollows⟩
    rcases target with - | aimed
    · have hblanks : Text.allBlank (String.ofList behind) = true := by
        generalize hnone : (none : Option String).map String.toList = found at hfollows
        cases hfollows with
        | alone hblanks => simpa [Text.allBlank] using hblanks
        | target => cases hnone
      have heq : line = String.singleton opening ++ source ++ String.singleton closing ++
          String.ofList behind := String.toList_inj.mp (by simp [hline])
      rw [heq]
      exact .alone hsource hblanks
    · generalize hsome : (some aimed).map String.toList = found at hfollows
      cases hfollows with
      | alone => cases hsome
      | target hblanks hne =>
        rename_i blanks text
        obtain rfl : aimed.toList = text := Option.some.inj hsome
        have heq : line = String.singleton opening ++ source ++ String.singleton closing ++
            String.ofList blanks ++ ">" ++ aimed := String.toList_inj.mp (by simp [hline])
        rw [heq]
        exact .aimed hsource (by simpa [Text.allBlank] using hblanks) fun hempty ↦
          hne (by simp [hempty])

/-- **A cut is a reading** of what stands behind the opening bracket. -/
theorem cut_iff_reading (hline : line.toList = opening :: rest) (hone : '\n' ∉ rest) :
    Cut opening closing line source target ↔
      Reading closing [] rest source.toList (target.map String.toList) := by
  rw [cut_iff_follows, hline]
  constructor
  · rintro ⟨behind, hsplit, hsource, hfollows⟩
    obtain rfl := (List.cons.inj hsplit).2
    have hbehind : '\n' ∉ behind := fun hmem ↦ hone (by simp [hmem])
    refine ⟨behind, rfl, fun hmem ↦ hone (by simp [hmem]), fun hnil ↦ ?_,
      (afterBracket?_eq_some_iff hbehind).mpr hfollows⟩
    exact hsource (String.toList_eq_nil_iff.mp hnil)
  · rintro ⟨behind, rfl, -, hsource, hafter⟩
    have hbehind : '\n' ∉ behind := fun hmem ↦ hone (by simp [hmem])
    refine ⟨behind, rfl, fun hempty ↦ hsource ?_, (afterBracket?_eq_some_iff hbehind).mp hafter⟩
    simp [hempty]

/-- The longest cut is the longest reading. -/
theorem longestCut_iff_reading (hline : line.toList = opening :: rest) (hone : '\n' ∉ rest) :
    LongestCut opening closing line source target ↔
      LongestReading closing [] rest source.toList (target.map String.toList) := by
  have hcut : ∀ source target, Cut opening closing line source target ↔
      Reading closing [] rest source.toList (target.map String.toList) :=
    fun _ _ ↦ cut_iff_reading hline hone
  constructor
  · intro h
    refine ⟨(hcut _ _).mp h.cut, fun more found hreading ↦ ?_⟩
    have hmore : Cut opening closing line (String.ofList more) (found.map String.ofList) := by
      refine (hcut _ _).mpr ?_
      simpa [Function.comp_def] using hreading
    simpa [← String.length_toList] using h.length_le _ _ hmore
  · intro h
    refine ⟨(hcut _ _).mpr h.reading, fun source' target' hcut' ↦ ?_⟩
    simpa [← String.length_toList] using h.length_le _ _ ((hcut _ _).mp hcut')

/-! ### What is left of source and target -/

theorem nonBlank_eq_named (target : String) : nonBlank target.toList = named target := by
  have hblank : (Text.trimChars target.toList).isEmpty = Text.allBlank target := by
    rw [← Text.isEmpty_trim, Bool.eq_iff_iff, List.isEmpty_iff, String.isEmpty_iff, Text.trim,
      String.ofList_eq_empty_iff]
  rw [nonBlank, named, hblank]
  rfl

/-- A name is what trimming leaves, if it leaves anything. -/
theorem nonBlank_eq_some_iff : nonBlank source.toList = some name ↔
    Text.trim source = name ∧ name ≠ "" := by
  rw [nonBlank_eq_named, named, ← Text.isEmpty_trim]
  split
  · rename_i hempty
    rw [String.isEmpty_iff] at hempty
    simp [hempty, eq_comm]
  · rename_i hne
    rw [String.isEmpty_iff] at hne
    rw [Option.some_inj]
    exact ⟨fun h ↦ ⟨h, h ▸ hne⟩, And.left⟩

/-- **What the reader of transfers answers** is what the longest cut asks for. -/
theorem transfer?_eq_some_iff (hone : '\n' ∉ line.toList) :
    transfer? opening closing line = some (name, aim) ↔ Asks opening closing line name aim := by
  by_cases hopening : ∃ rest, line.toList = opening :: rest
  · obtain ⟨rest, hline⟩ := hopening
    have hrest : '\n' ∉ rest := fun hmem ↦ hone (by simp [hline, hmem])
    rw [transfer?_of_opening hline, Option.bind_eq_some_iff]
    constructor
    · rintro ⟨⟨more, found⟩, hread, hnamed⟩
      obtain ⟨name', hname, heq⟩ := Option.map_eq_some_iff.mp hnamed
      obtain ⟨rfl, rfl⟩ := Prod.mk.inj heq
      have hlongest : LongestReading closing [] rest (String.ofList more).toList
          ((found.map String.ofList).map String.toList) := by
        simpa [Function.comp_def] using sourceThenRest?_eq_some_iff.mp hread
      rw [← String.toList_ofList (l := more), nonBlank_eq_some_iff] at hname
      refine ⟨String.ofList more, found.map String.ofList,
        (longestCut_iff_reading hline hrest).mpr hlongest, hname.1, hname.2, ?_⟩
      rcases found with - | text
      · rfl
      · show named (String.ofList text) = nonBlank text
        rw [← nonBlank_eq_named, String.toList_ofList]
    · rintro ⟨source, target, hlongest, hname, hne, rfl⟩
      have hread := sourceThenRest?_eq_some_iff.mpr
        ((longestCut_iff_reading hline hrest).mp hlongest)
      refine ⟨_, hread, ?_⟩
      rw [nonBlank_eq_some_iff.mpr ⟨hname, hne⟩, Option.map_some]
      rcases target with - | text
      · rfl
      · show some (name, nonBlank text.toList) = some (name, named text)
        rw [nonBlank_eq_named]
  -- a line that starts with something else is not cut at all
  · have hcut : ∀ source target, ¬Cut opening closing line source target := by
      intro source target hcut
      obtain ⟨behind, hline, -⟩ := cut_iff_follows.mp hcut
      exact hopening ⟨_, hline⟩
    have hnone : transfer? opening closing line = none := by
      rcases hline : line.toList with - | ⟨c, rest⟩
      · rw [transfer?, hline]
      · exact transfer?_of_ne hline fun hc ↦ hopening ⟨rest, hc ▸ hline⟩
    rw [hnone]
    refine iff_of_false (Option.some_ne_none _).symm ?_
    rintro ⟨source, target, hlongest, -⟩
    exact hcut source target hlongest.cut

theorem transfer?_eq_none_iff (hone : '\n' ∉ line.toList) :
    transfer? opening closing line = none ↔ ∀ name aim, ¬Asks opening closing line name aim := by
  rw [Option.eq_none_iff_forall_ne_some, Prod.forall]
  exact forall₂_congr fun name aim ↦ not_congr (transfer?_eq_some_iff hone)

/-! ### Lines -/

/-- **A line is classified as the grammar says.** Of the ways to cut it as a move the one with the
longest source counts, if there is one and its source is not blank; if not, the same goes for
copies; and a line that is neither is the name of an entry. -/
theorem classify_eq_iff {line : String} (hone : '\n' ∉ line.toList) (kind : LineKind) :
    classify line = kind ↔ Means line kind := by
  have hmove : ∀ name aim, transfer? '(' ')' line = some (name, aim) ↔ Asks '(' ')' line name aim :=
    fun _ _ ↦ transfer?_eq_some_iff hone
  have hcopy : ∀ name aim, transfer? '[' ']' line = some (name, aim) ↔ Asks '[' ']' line name aim :=
    fun _ _ ↦ transfer?_eq_some_iff hone
  rw [classify]
  rcases hmoved : transfer? '(' ')' line with - | ⟨source, target⟩
  · have hnone := (transfer?_eq_none_iff hone).mp hmoved
    rcases hcopied : transfer? '[' ']' line with - | ⟨source, target⟩
    · have hnone' := (transfer?_eq_none_iff hone).mp hcopied
      constructor
      · rintro rfl
        exact .create hnone hnone'
      · rintro (h | ⟨-, h⟩ | -)
        · exact absurd h (hnone _ _)
        · exact absurd h (hnone' _ _)
        · rfl
    · constructor
      · rintro rfl
        exact .copy hnone ((hcopy _ _).mp hcopied)
      · rintro (h | ⟨-, h⟩ | ⟨-, hnone'⟩)
        · exact absurd h (hnone _ _)
        · obtain ⟨rfl, rfl⟩ : source = _ ∧ target = _ := by
            simpa [hcopied] using (hcopy _ _).mpr h
          rfl
        · exact absurd ((hcopy _ _).mp hcopied) (hnone' _ _)
  · have hasks := (hmove _ _).mp hmoved
    constructor
    · rintro rfl
      exact .move hasks
    · rintro (h | ⟨hnone, -⟩ | ⟨hnone, -⟩)
      · obtain ⟨rfl, rfl⟩ : source = _ ∧ target = _ := by
          simpa [hmoved] using (hmove _ _).mpr h
        rfl
      · exact absurd hasks (hnone _ _)
      · exact absurd hasks (hnone _ _)

/-- The outermost pair counts, the last bracket that can end a source does, and what is blank
between the brackets is no source. -/
theorem classify_eq_iff_nested : Means "(a (1)) > b" (.move "a (1)" (some "b")) ∧
    Means "[ a ] > b]\u3000> " (.copy "a ] > b" none) ∧
    Means "(\u2003) > (c) d" (.create "(\u2003) > (c) d") := by
  refine ⟨(classify_eq_iff ?_ _).mp ?_, (classify_eq_iff ?_ _).mp ?_, (classify_eq_iff ?_ _).mp ?_⟩
  all_goals decide

end Scaffold.LineKind
