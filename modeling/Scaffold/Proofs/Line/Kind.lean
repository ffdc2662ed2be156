import Mathlib.Data.List.Basic
import Mathlib.Data.List.TakeWhile
import Scaffold.Line.Kind

/-!
# Reading transfers

A closing bracket ends the source of a transfer when what stands behind it can be read as the end of
the line or as a target. The reader looks at every closing bracket, and it answers the reading with
the longest source (`sourceThenRest?_eq_some_iff`); where there is no reading at all it answers
nothing (`sourceThenRest?_spec`).

So a transfer that is written out, its source in brackets and its target behind `>`, is read as it
was written exactly when no bracket in the target makes the source longer
(`classify_written_iff`).
-/

namespace Scaffold

/-! ### Trimming -/

namespace Text

theorem dropEndWhile_eq_nil_iff {α : Type} {p : α → Bool} {s : List α} :
    dropEndWhile p s = [] ↔ ∀ c ∈ s, p c = true := by
  induction s with
  | nil => simp
  | cons c s ih => simp [dropEndWhile_cons, ih]

/-- Nothing is left of a text by trimming exactly when it is blank. -/
theorem isEmpty_trim (s : String) : (trim s).isEmpty = allBlank s := by
  rw [Bool.eq_iff_iff, String.isEmpty_iff, trim, String.ofList_eq_empty_iff, trimChars,
    dropEndWhile_eq_nil_iff, allBlank, List.all_eq_true]
  refine ⟨fun hdrop c hc ↦ ?_, fun hall c hc ↦ hall c ((List.dropWhile_sublist _).mem hc)⟩
  rw [← List.takeWhile_append_dropWhile (p := isBlank) (l := s.toList)] at hc
  exact (List.mem_append.mp hc).elim List.mem_takeWhile_imp (hdrop c)

theorem mem_dropEndWhile {α : Type} {p : α → Bool} {s : List α} {c : α} (hc : c ∈ s)
    (hp : p c = false) : c ∈ dropEndWhile p s := by
  induction s with
  | nil => cases hc
  | cons d s ih =>
    rw [dropEndWhile_cons]
    rcases List.mem_cons.mp hc with rfl | hc
    · simp [hp]
    · split
      · rename_i hdropped
        simp only [Bool.and_eq_true, List.isEmpty_iff] at hdropped
        rw [hdropped.2] at ih
        cases ih hc
      · exact List.mem_cons_of_mem d (ih hc)

/-- Trimming takes only blanks away. -/
theorem mem_trimChars {s : List Char} {c : Char} (hc : c ∈ s) (hblank : isBlank c = false) :
    c ∈ trimChars s := by
  refine mem_dropEndWhile ?_ hblank
  rw [← List.takeWhile_append_dropWhile (p := isBlank) (l := s), List.mem_append] at hc
  refine hc.resolve_left fun htaken ↦ ?_
  simpa [hblank] using List.mem_takeWhile_imp htaken

/-- A blank in front does not survive trimming. -/
theorem trimChars_cons_of_blank {c : Char} (hc : isBlank c = true) (s : List Char) :
    trimChars (c :: s) = trimChars s := by
  rw [trimChars, List.dropWhile_cons_of_pos hc, trimChars]

/-- What is left ends in something that is not dropped. -/
theorem of_getLast?_dropEndWhile {α : Type} {p : α → Bool} {s : List α} {c : α}
    (h : (dropEndWhile p s).getLast? = some c) : p c = false := by
  induction s with
  | nil => cases h
  | cons d s ih =>
    rw [dropEndWhile_cons] at h
    split at h
    · cases h
    · rename_i hkept
      rcases hrest : dropEndWhile p s with - | ⟨e, rest⟩
      · rw [hrest] at h hkept
        obtain rfl : d = c := by simpa using h
        simpa using hkept
      · rw [hrest, List.getLast?_cons_cons, ← hrest] at h
        exact ih h

end Text

namespace LineKind

/-! ### Behind the bracket -/

/-- Behind the bracket that ends a source there are only blanks, or blanks, `>` and a target. -/
inductive Follows : List Char → Option (List Char) → Prop where
  | alone {blanks : List Char} (hblanks : ∀ c ∈ blanks, Text.isBlank c = true) :
    Follows blanks none
  | target {blanks target : List Char} (hblanks : ∀ c ∈ blanks, Text.isBlank c = true)
    (htarget : target ≠ []) : Follows (blanks ++ '>' :: target) (some target)

/-- On one line a target is all that stands behind the `>`. -/
theorem targetText?_eq_some_iff {s target : List Char} (hline : '\n' ∉ s) :
    targetText? s = some target ↔ s ≠ [] ∧ target = s := by
  have hall : (s.reverse.takeWhile (· ≠ '\n')).reverse = s := by
    rw [List.takeWhile_eq_self_iff.mpr, List.reverse_reverse]
    intro c hc
    have hne : c ≠ '\n' := fun heq ↦ hline (heq ▸ List.mem_reverse.mp hc)
    simpa using hne
  unfold targetText?
  rw [hall]
  rcases s with - | ⟨c, s⟩
  · simp
  · simp [eq_comm]

/-- **What may follow a source** on one line. -/
theorem afterBracket?_eq_some_iff {s : List Char} {target : Option (List Char)}
    (hline : '\n' ∉ s) : afterBracket? s = some target ↔ Follows s target := by
  have hblanks : ∀ c ∈ s.takeWhile Text.isBlank, Text.isBlank c = true :=
    fun c ↦ List.mem_takeWhile_imp
  have hsplit := List.takeWhile_append_dropWhile (p := Text.isBlank) (l := s)
  constructor
  · intro h
    unfold afterBracket? at h
    split at h
    · rename_i hrest
      rw [hrest, List.append_nil] at hsplit
      rw [← Option.some.inj h, ← hsplit]
      exact .alone hblanks
    · rename_i rest hrest
      obtain ⟨found, hfound, rfl⟩ := Option.map_eq_some_iff.mp h
      rw [hrest] at hsplit
      have hrestLine : '\n' ∉ rest := fun hmem ↦ hline (hsplit ▸ by simp [hmem])
      obtain ⟨hne, rfl⟩ := (targetText?_eq_some_iff hrestLine).mp hfound
      rw [← hsplit]
      exact .target hblanks hne
    · cases h
  · rintro (hall | ⟨hall, hne⟩)
    · have hnil : s.dropWhile Text.isBlank = [] := List.dropWhile_eq_nil_iff.mpr hall
      rw [afterBracket?, hnil]
    · rename_i blanks rest
      have hgt : Text.isBlank '>' = false := by decide
      have hdrop : (blanks ++ '>' :: rest).dropWhile Text.isBlank = '>' :: rest := by
        rw [List.dropWhile_append_of_pos hall, List.dropWhile_cons_of_neg (by simp [hgt])]
      have hrestLine : '\n' ∉ rest := fun hmem ↦ hline (by simp [hmem])
      rw [afterBracket?, hdrop]
      simp only [(targetText?_eq_some_iff hrestLine).mpr ⟨hne, rfl⟩, Option.map_some]

/-! ### The longest source -/

/-- The text behind an opening bracket can be read with `more` in front of the bracket that ends the
source, of which `seen` has been read already. -/
def Reading (close : Char) (seen s more : List Char) (target : Option (List Char)) : Prop :=
  ∃ rest, s = more ++ close :: rest ∧ '\n' ∉ more ∧ seen ++ more ≠ [] ∧
    afterBracket? rest = some target

variable {close : Char} {seen s more : List Char} {target : Option (List Char)}

theorem not_reading_nil : ¬Reading close seen [] more target := by
  rintro ⟨rest, hs, -⟩
  simp at hs

/-- A reading ends the source at once, or it goes on behind the next character. -/
theorem reading_cons_iff {c : Char} : Reading close seen (c :: s) more target ↔
    (more = [] ∧ c = close ∧ seen ≠ [] ∧ afterBracket? s = some target) ∨
      c ≠ '\n' ∧ ∃ more', more = c :: more' ∧ Reading close (c :: seen) s more' target := by
  constructor
  · rintro ⟨rest, hs, hline, hne, hafter⟩
    rcases more with - | ⟨d, more'⟩
    · obtain ⟨rfl, rfl⟩ := List.cons.inj hs
      exact .inl ⟨rfl, rfl, by simpa using hne, hafter⟩
    · obtain ⟨rfl, rfl⟩ := List.cons.inj hs
      rw [List.mem_cons, not_or] at hline
      exact .inr ⟨Ne.symm hline.1, more', rfl, rest, rfl, hline.2, by simp, hafter⟩
  · rintro (⟨rfl, rfl, hne, hafter⟩ | ⟨hc, more', rfl, rest, rfl, hline, -, hafter⟩)
    · exact ⟨s, rfl, by simp, by simpa using hne, hafter⟩
    · exact ⟨rest, rfl, by simp [Ne.symm hc, hline], by simp, hafter⟩

/-- No reading has a longer source. -/
structure LongestReading (close : Char) (seen s more : List Char) (target : Option (List Char)) :
    Prop where
  reading : Reading close seen s more target
  length_le : ∀ more' target', Reading close seen s more' target' → more'.length ≤ more.length

/-- The longest reading is unique. -/
theorem LongestReading.unique {more' : List Char} {target' : Option (List Char)}
    (h : LongestReading close seen s more target)
    (h' : LongestReading close seen s more' target') : more = more' ∧ target = target' := by
  obtain ⟨rest, hs, -, -, hafter⟩ := h.reading
  obtain ⟨rest', hs', -, -, hafter'⟩ := h'.reading
  have hlength : more.length = more'.length :=
    Nat.le_antisymm (h'.length_le _ _ h.reading) (h.length_le _ _ h'.reading)
  obtain ⟨rfl, hrest⟩ := List.append_inj (hs.symm.trans hs') hlength
  obtain ⟨-, rfl⟩ := List.cons.inj hrest
  exact ⟨rfl, Option.some.inj (hafter.symm.trans hafter')⟩

/-- A reading that goes on is longer than one that ends the source at once. -/
theorem LongestReading.cons {c : Char} (hc : c ≠ '\n')
    (h : LongestReading close (c :: seen) s more target) :
    LongestReading close seen (c :: s) (c :: more) target := by
  refine ⟨reading_cons_iff.mpr (.inr ⟨hc, more, rfl, h.reading⟩), fun more' target' hreading ↦ ?_⟩
  rcases reading_cons_iff.mp hreading with ⟨rfl, -⟩ | ⟨-, later, rfl, hlater⟩
  · exact Nat.zero_le _
  · exact Nat.succ_le_succ (h.length_le later target' hlater)

/-- What the reader answers is the longest reading, and it answers nothing where there is none. -/
theorem sourceThenRest?_spec (close : Char) (seen s : List Char) :
    match sourceThenRest? close seen s with
    | some (source, target) =>
      ∃ more, source = seen.reverse ++ more ∧ LongestReading close seen s more target
    | none => ∀ more target, ¬Reading close seen s more target := by
  induction s generalizing seen with
  | nil => exact fun _ _ ↦ not_reading_nil
  | cons c s ih =>
    rw [sourceThenRest?]
    rcases hlonger : (if c = '\n' then none else sourceThenRest? close (c :: seen) s) with - | found
    -- no reading goes on, so the source ends here or there is none
    · have hstop : ∀ more target, Reading close seen (c :: s) more target →
          more = [] ∧ c = close ∧ seen ≠ [] ∧ afterBracket? s = some target := by
        intro more target hreading
        refine (reading_cons_iff.mp hreading).resolve_right ?_
        rintro ⟨hc, more', -, hmore'⟩
        rw [if_neg hc] at hlonger
        have hih := ih (c :: seen)
        rw [hlonger] at hih
        exact hih more' target hmore'
      simp only [Bool.and_eq_true, decide_eq_true_eq, Bool.not_eq_true', List.isEmpty_eq_false_iff]
      by_cases hends : c = close ∧ seen ≠ []
      · rw [if_pos hends]
        rcases hafter : afterBracket? s with - | target
        · intro more target hreading
          have hrest := (hstop more target hreading).2.2.2
          rw [hafter] at hrest
          cases hrest
        · refine ⟨[], by simp, reading_cons_iff.mpr (.inl ⟨rfl, hends.1, hends.2, hafter⟩), ?_⟩
          intro more' target' hreading
          rw [(hstop more' target' hreading).1]
      · rw [if_neg hends]
        intro more target hreading
        obtain ⟨-, hclose, hseen, -⟩ := hstop more target hreading
        exact hends ⟨hclose, hseen⟩
    · have hc : c ≠ '\n' := by
        rintro rfl
        cases hlonger
      rw [if_neg hc] at hlonger
      have hih := ih (c :: seen)
      rw [hlonger] at hih
      obtain ⟨more, hsource, hlongest⟩ := hih
      exact ⟨c :: more, by simpa using hsource, hlongest.cons hc⟩

/-- **The longest source wins.** -/
theorem sourceThenRest?_eq_some_iff {source : List Char} :
    sourceThenRest? close [] s = some (source, target) ↔
      LongestReading close [] s source target := by
  have hspec := sourceThenRest?_spec close [] s
  constructor
  · intro h
    rw [h] at hspec
    obtain ⟨more, rfl, hlongest⟩ := hspec
    exact hlongest
  · intro h
    rcases hread : sourceThenRest? close [] s with - | ⟨source', target'⟩
    · rw [hread] at hspec
      cases hspec _ _ h.reading
    · rw [hread] at hspec
      obtain ⟨more, rfl, hlongest⟩ := hspec
      obtain ⟨rfl, rfl⟩ := h.unique hlongest
      rfl

/-- What starts with the bracket is read behind it. -/
theorem transfer?_of_opening {opening : Char} {line : String} (hline : line.toList = opening :: s) :
    transfer? opening close line = (sourceThenRest? close [] s).bind fun found ↦
      (nonBlank found.1).map fun name ↦ (name, found.2.bind nonBlank) := by
  simp only [transfer?, hline, if_true]
  rcases sourceThenRest? close [] s with - | ⟨source, target⟩ <;> rfl

/-- What starts with something else is no transfer. -/
theorem transfer?_of_ne {opening c : Char} {line : String} (hline : line.toList = c :: s)
    (hc : c ≠ opening) : transfer? opening close line = none := by
  simp only [transfer?, hline, if_neg hc]

/-! ### Transfers that are written out -/

/-- The text is one line, with something on it, and no blank at either end. -/
structure IsPlain (text : String) : Prop where
  ne_empty : text ≠ ""
  trimmed : Text.trim text = text
  oneLine : '\n' ∉ text.toList

instance (text : String) : Decidable (IsPlain text) :=
  decidable_of_iff (text ≠ "" ∧ Text.trim text = text ∧ '\n' ∉ text.toList)
    ⟨fun h ↦ ⟨h.1, h.2.1, h.2.2⟩, fun h ↦ ⟨h.ne_empty, h.trimmed, h.oneLine⟩⟩

/-- A bracket in the target can end the source: behind it there are only blanks, or blanks, `>` and
something more. -/
def Reopens (close : Char) (target : String) : Prop :=
  ∃ before behind found, target.toList = before ++ close :: behind ∧ Follows behind found

namespace IsPlain

variable {text : String}

theorem toList_ne_nil (h : IsPlain text) : text.toList ≠ [] :=
  fun hnil ↦ h.ne_empty (String.toList_eq_nil_iff.mp hnil)

theorem trimChars_toList (h : IsPlain text) : Text.trimChars text.toList = text.toList := by
  have htrimmed := congrArg String.toList h.trimmed
  rwa [Text.trim, String.toList_ofList] at htrimmed

/-- A plain text is what it names, and a blank in front of it does not matter. -/
theorem nonBlank_toList (h : IsPlain text) : nonBlank text.toList = some text := by
  rw [nonBlank, h.trimChars_toList]
  simp [h.toList_ne_nil]

theorem nonBlank_cons_toList (h : IsPlain text) : nonBlank (' ' :: text.toList) = some text := by
  have hsame : nonBlank (' ' :: text.toList) = nonBlank text.toList := by
    rw [nonBlank, nonBlank, Text.trimChars_cons_of_blank (by decide)]
  rw [hsame, h.nonBlank_toList]

theorem isBlank_of_getLast? {c : Char} (h : IsPlain text) (hc : text.toList.getLast? = some c) :
    Text.isBlank c = false := by
  rw [← h.trimChars_toList] at hc
  exact Text.of_getLast?_dropEndWhile hc

end IsPlain

/-- Where no second target follows, only a bracket at the end of the target makes the source
longer. -/
theorem reopens_iff_getLast? {text : String} (h : IsPlain text) (hgt : '>' ∉ text.toList) :
    Reopens close text ↔ text.toList.getLast? = some close := by
  constructor
  · rintro ⟨before, behind, found, htext, hfollows⟩
    cases hfollows with
    | alone hblanks =>
      rcases List.eq_nil_or_concat' behind with rfl | ⟨rest, c, rfl⟩
      · simp [htext]
      · have hlast : text.toList.getLast? = some c := by
          rw [htext, ← List.cons_append, ← List.append_assoc, List.getLast?_concat]
        have hc := h.isBlank_of_getLast? hlast
        rw [hblanks c (by simp)] at hc
        cases hc
    | target => simp [htext] at hgt
  · intro hlast
    exact ⟨text.toList.dropLast, [], none, (List.dropLast_append_getLast? _ hlast).symm,
      .alone (by simp)⟩

/-- A text with a character that is not blank names something, and the character is in the name. -/
theorem nonBlank_of_mem {c : Char} (hc : c ∈ s) (hblank : Text.isBlank c = false) :
    ∃ name : String, nonBlank s = some name ∧ c ∈ name.toList := by
  have hmem := Text.mem_trimChars hc hblank
  refine ⟨String.ofList (Text.trimChars s), ?_, by simpa using hmem⟩
  have hne : Text.trimChars s ≠ [] := List.ne_nil_of_mem hmem
  simp [nonBlank, hne]

section Written

variable {opening : Char} {source target line : String}

/-- A longer beginning takes the bracket in. -/
theorem exists_of_longer {short long behind rest : List Char}
    (h : short ++ close :: behind = long ++ rest) (hlength : short.length < long.length) :
    ∃ between, long = short ++ close :: between ∧ behind = between ++ rest := by
  rcases List.append_eq_append_iff.mp h with ⟨between, hlong, hbehind⟩ | ⟨between, hshort, -⟩
  · rcases between with - | ⟨c, between⟩
    · simp [hlong] at hlength
    · simp only [List.cons_append, List.cons.injEq] at hbehind
      obtain ⟨rfl, rfl⟩ := hbehind
      exact ⟨between, hlong, rfl⟩
  · have := congrArg List.length hshort
    rw [List.length_append] at this
    omega

/-- The reading that is meant. -/
theorem reading_written (hsource : IsPlain source) (htarget : IsPlain target) :
    Reading close [] (source.toList ++ close :: ' ' :: '>' :: ' ' :: target.toList) source.toList
      (some (' ' :: target.toList)) := by
  refine ⟨_, rfl, hsource.oneLine, hsource.toList_ne_nil, ?_⟩
  have hfollows : Follows ([' '] ++ '>' :: ' ' :: target.toList) (some (' ' :: target.toList)) :=
    .target (List.forall_mem_singleton.mpr (by decide)) (by simp)
  refine (afterBracket?_eq_some_iff ?_).mpr hfollows
  simp [htarget.oneLine]

/-- **A longer source ends in the target**, at a bracket that can end it. -/
theorem reading_longer_iff (hsource : IsPlain source) (htarget : IsPlain target)
    (hspace : close ≠ ' ') (hgt : close ≠ '>') :
    (∃ more found, Reading close []
        (source.toList ++ close :: ' ' :: '>' :: ' ' :: target.toList) more found ∧
      source.toList.length < more.length) ↔ Reopens close target := by
  constructor
  · rintro ⟨more, found, ⟨rest, hs, -, -, hafter⟩, hlength⟩
    obtain ⟨between, -, hbetween⟩ := exists_of_longer hs hlength
    -- the bracket is none of the three characters in front of the target
    obtain ⟨before, htext⟩ : ∃ before, target.toList = before ++ close :: rest := by
      rcases between with - | ⟨c₁, - | ⟨c₂, - | ⟨c₃, before⟩⟩⟩ <;>
        simp only [List.nil_append, List.cons_append, List.cons.injEq] at hbetween
      · exact absurd hbetween.1.symm hspace
      · exact absurd hbetween.2.1.symm hgt
      · exact absurd hbetween.2.2.1.symm hspace
      · exact ⟨before, hbetween.2.2.2⟩
    have hline : '\n' ∉ rest := fun hmem ↦ htarget.oneLine (by simp [htext, hmem])
    exact ⟨before, rest, found, htext, (afterBracket?_eq_some_iff hline).mp hafter⟩
  · rintro ⟨before, behind, found, htext, hfollows⟩
    have hline : '\n' ∉ before ∧ '\n' ∉ close :: behind := by
      simpa [htext] using htarget.oneLine
    have hbehind : '\n' ∉ behind := fun hmem ↦ hline.2 (List.mem_cons_of_mem _ hmem)
    have hclose : '\n' ≠ close := fun heq ↦ hline.2 (heq ▸ List.mem_cons_self)
    refine ⟨source.toList ++ close :: ' ' :: '>' :: ' ' :: before, found,
      ⟨behind, by simp [htext], ?_, by simp, (afterBracket?_eq_some_iff hbehind).mpr hfollows⟩,
      by simp⟩
    simp [hsource.oneLine, hline.1, hclose]

/-- **What is made of a transfer that is written out.** -/
theorem transfer?_written (hsource : IsPlain source) (htarget : IsPlain target)
    (hmem : close ∉ source.toList) (hclose : Text.isBlank close = false) (hgt : close ≠ '>')
    (hline : line.toList =
      opening :: (source.toList ++ close :: ' ' :: '>' :: ' ' :: target.toList)) :
    ∃ found, transfer? opening close line = some found ∧
      (found = (source, some target) ↔ ¬Reopens close target) := by
  have hspace : close ≠ ' ' := by
    rintro rfl
    cases hclose
  rw [transfer?_of_opening hline, ← reading_longer_iff hsource htarget hspace hgt]
  set s := source.toList ++ close :: ' ' :: '>' :: ' ' :: target.toList with hs
  have hmeant : Reading close [] s source.toList (some (' ' :: target.toList)) :=
    reading_written hsource htarget
  have hspec := sourceThenRest?_spec close [] s
  rcases hread : sourceThenRest? close [] s with - | ⟨more, found⟩
  · rw [hread] at hspec
    cases hspec _ _ hmeant
  · have hlongest := sourceThenRest?_eq_some_iff.mp hread
    rw [Option.bind_some]
    by_cases hlonger : ∃ more found, Reading close [] s more found ∧
        source.toList.length < more.length
    -- the bracket behind the source has become part of it
    · obtain ⟨more', found', hreading, hlength⟩ := hlonger
      have hlength' := Nat.lt_of_lt_of_le hlength (hlongest.length_le _ _ hreading)
      obtain ⟨rest, hrest, -⟩ := hlongest.reading
      obtain ⟨between, hmore, -⟩ := exists_of_longer hrest hlength'
      have hin : close ∈ more := by simp [hmore]
      obtain ⟨name, hname, hcloseName⟩ := nonBlank_of_mem hin hclose
      refine ⟨(name, found.bind nonBlank), by rw [hname]; rfl, iff_of_false ?_ ?_⟩
      · intro heq
        exact hmem ((Prod.mk.inj heq).1 ▸ hcloseName)
      · exact fun hnone ↦ hnone ⟨more', found', hreading, hlength⟩
    · have hmax : LongestReading close [] s source.toList (some (' ' :: target.toList)) :=
        ⟨hmeant, fun more' found' hreading ↦ Nat.le_of_not_lt fun hlength ↦
          hlonger ⟨more', found', hreading, hlength⟩⟩
      obtain ⟨rfl, rfl⟩ := hlongest.unique hmax
      refine ⟨(source, some target), ?_, iff_of_true rfl hlonger⟩
      simp only [hsource.nonBlank_toList, Option.map_some, Option.bind_some,
        htarget.nonBlank_cons_toList]

end Written

/-- **A transfer that is written out is read as it was written**, unless a closing bracket in the
target makes the source longer: one at its end, or one that is followed, perhaps behind blanks, by
`>` and something more. -/
theorem classify_written_iff {source target : String} (hsource : IsPlain source)
    (htarget : IsPlain target) :
    (')' ∉ source.toList →
      (classify ("(" ++ source ++ ") > " ++ target) = .move source (some target) ↔
        ¬Reopens ')' target)) ∧
    (']' ∉ source.toList →
      (classify ("[" ++ source ++ "] > " ++ target) = .copy source (some target) ↔
        ¬Reopens ']' target)) := by
  constructor
  · intro hmem
    have hline : ("(" ++ source ++ ") > " ++ target).toList =
        '(' :: (source.toList ++ ')' :: ' ' :: '>' :: ' ' :: target.toList) := by simp
    obtain ⟨⟨name, target'⟩, hread, hiff⟩ := transfer?_written hsource htarget hmem (by decide)
      (by decide) hline
    rw [classify, hread, ← hiff]
    simp
  · intro hmem
    have hline : ("[" ++ source ++ "] > " ++ target).toList =
        '[' :: (source.toList ++ ']' :: ' ' :: '>' :: ' ' :: target.toList) := by simp
    obtain ⟨⟨name, target'⟩, hread, hiff⟩ := transfer?_written hsource htarget hmem (by decide)
      (by decide) hline
    rw [classify, transfer?_of_ne hline (by decide), hread, ← hiff]
    simp

/-- Brackets of the other kind do no harm, nor does a closed pair in a target that goes on. -/
theorem classify_written_iff_route :
    classify ("(" ++ "~/tpl [x]" ++ ") > " ++ "app/(slug).tsx") =
        .move "~/tpl [x]" (some "app/(slug).tsx") ∧
      classify ("[" ++ "~/tpl (x)" ++ "] > " ++ "app/[slug].tsx") =
        .copy "~/tpl (x)" (some "app/[slug].tsx") := by
  have hround : ¬Reopens ')' "app/(slug).tsx" := by
    rw [reopens_iff_getLast? (by decide) (by decide)]
    decide
  have hsquare : ¬Reopens ']' "app/[slug].tsx" := by
    rw [reopens_iff_getLast? (by decide) (by decide)]
    decide
  have hmoved : IsPlain "~/tpl [x]" := by decide
  have hcopied : IsPlain "~/tpl (x)" := by decide
  exact ⟨((classify_written_iff hmoved (by decide)).1 (by decide)).mpr hround,
    ((classify_written_iff hcopied (by decide)).2 (by decide)).mpr hsquare⟩

/-- A target in brackets is taken for a part of the source. -/
theorem bracketed_target_joins_source :
    IsPlain "tpl" ∧ ']' ∉ "tpl".toList ∧ IsPlain "[slug]" ∧
      classify ("[" ++ "tpl" ++ "] > " ++ "[slug]") = .copy "tpl] > [slug" none := by
  decide

end LineKind

end Scaffold
