import Scaffold.Proofs.Expansion.Budget

/-!
# Expanding texts that are joined

No block goes on past a line that is not indented, so two texts of which the second starts with such
a line (`StartsBy`) are expanded one after the other (`expansion_append`). The lines of the joined
text are those of the two, with a blank line between them if the first one ended in a line feed
(`lineChars_joined`); a blank line is written as it stands. Before a text is cut into lines its line
ends are brought into one spelling, which does nothing to a text without carriage returns
(`Text.unifyLineEnds_eq`).

The result is put together in the same way, since what is written for a text that starts at the
margin does so too (`StartsBy.expansion`): a line at the margin is kept, or its first copy stands in
its place, or it is dropped together with its block, and then the line that ended the block comes
first.
-/

namespace Scaffold

/-! ### Line ends -/

namespace Text

theorem unifyLineEnds_append_of_not_mem {s : List Char} (h : '\r' ∉ s) (rest : List Char) :
    unifyLineEnds (s ++ rest) = s ++ unifyLineEnds rest := by
  induction s with
  | nil => rfl
  | cons c s ih =>
    rw [List.mem_cons, not_or] at h
    rw [List.cons_append, unifyLineEnds, if_neg (Ne.symm h.1), ih h.2, List.cons_append]
    exact fun more hreturn _ ↦ h.1 hreturn.symm

/-- Without carriage returns there is nothing to unify. -/
theorem unifyLineEnds_eq {s : List Char} (h : '\r' ∉ s) : unifyLineEnds s = s := by
  have hnil := unifyLineEnds_append_of_not_mem h []
  rwa [unifyLineEnds, List.append_nil] at hnil

/-- A carriage return ends a line by itself when no line feed follows. -/
theorem unifyLineEnds_return {s : List Char} (h : s.head? ≠ some '\n') :
    unifyLineEnds ('\r' :: s) = '\n' :: unifyLineEnds s := by
  rw [unifyLineEnds, if_pos rfl]
  rintro more - rfl
  exact h rfl

theorem return_not_mem_unifyLineEnds (s : List Char) : '\r' ∉ unifyLineEnds s := by
  fun_induction unifyLineEnds s with
  | case1 => exact List.not_mem_nil
  | case2 rest ih => simpa using ih
  | case3 c rest hother ih =>
    rw [List.mem_cons, not_or]
    refine ⟨?_, ih⟩
    split
    · decide
    · rename_i hreturn
      exact Ne.symm hreturn

end Text

/-! ### Lines of joined texts -/

namespace Text

theorem splitOn_ne_nil (sep : Char) (s : List Char) : splitOn sep s ≠ [] := by
  induction s with
  | nil => exact List.cons_ne_nil _ _
  | cons c s ih =>
    obtain ⟨seg, segs, hsegs⟩ := List.exists_cons_of_ne_nil ih
    rw [splitOn_cons, hsegs]
    split <;> exact List.cons_ne_nil _ _

/-- A separator between two texts separates their segments. -/
theorem splitOn_append_cons (sep : Char) (above below : List Char) :
    splitOn sep (above ++ sep :: below) = splitOn sep above ++ splitOn sep below := by
  induction above with
  | nil => rw [List.nil_append, splitOn_cons, if_pos rfl, splitOn_nil, List.singleton_append]
  | cons c above ih =>
    rw [List.cons_append, splitOn_cons, splitOn_cons, ih]
    split
    · rfl
    · obtain ⟨seg, segs, hsegs⟩ := List.exists_cons_of_ne_nil (splitOn_ne_nil sep above)
      rw [hsegs]
      rfl

theorem not_mem_of_mem_splitOn {c sep : Char} {s seg : List Char} (hs : c ∉ s)
    (h : seg ∈ splitOn sep s) : c ∉ seg := by
  induction s generalizing seg with
  | nil =>
    rw [List.mem_singleton.mp h]
    exact List.not_mem_nil
  | cons c' s ih =>
    rw [List.mem_cons, not_or] at hs
    rw [splitOn_cons] at h
    split at h
    · rcases List.mem_cons.mp h with rfl | h
      · exact List.not_mem_nil
      · exact ih hs.2 h
    · obtain ⟨first, segs, hsegs⟩ := List.exists_cons_of_ne_nil (splitOn_ne_nil sep s)
      rw [hsegs] at h ih
      rcases List.mem_cons.mp h with rfl | h
      · rw [List.mem_cons, not_or]
        exact ⟨hs.1, ih hs.2 List.mem_cons_self⟩
      · exact ih hs.2 (List.mem_cons_of_mem _ h)

theorem map_dropReturn {segs : List (List Char)} (h : ∀ seg ∈ segs, '\r' ∉ seg) :
    segs.map dropReturn = segs := by
  refine (List.map_congr_left fun seg hseg ↦ ?_).trans (List.map_id segs)
  rw [dropReturn, if_neg, id]
  exact fun hlast ↦ h seg hseg (List.mem_of_getLast? hlast)

theorem exists_splitOn_eq_concat (sep : Char) (s : List Char) :
    ∃ whole last, splitOn sep s = whole ++ [last] :=
  (splitOn sep s).eq_nil_or_concat'.resolve_left (splitOn_ne_nil sep s)

/-- The lines of a text, by its last segment. -/
theorem lineChars_of_splitOn {s last : List Char} {whole : List (List Char)}
    (h : splitOn '\n' s = whole ++ [last]) :
    lineChars s = whole.map dropReturn ++ if last = [] then [] else [last] := by
  simp only [lineChars, h, List.dropLast_concat, List.getLast?_concat]
  rcases last with - | ⟨c, last⟩
  · exact (List.append_nil _).symm
  · rfl

/-- The segments of a text are its lines, and behind them an empty one if it ends in a line feed. -/
theorem exists_splitOn_eq {s : List Char} (h : '\r' ∉ s) :
    ∃ blank, (blank = [] ∨ blank = [[]]) ∧ splitOn '\n' s = lineChars s ++ blank := by
  obtain ⟨whole, last, hsplit⟩ := exists_splitOn_eq_concat '\n' s
  have hwhole : whole.map dropReturn = whole := map_dropReturn fun seg hseg ↦
    not_mem_of_mem_splitOn h (hsplit ▸ List.mem_append_left _ hseg)
  rw [lineChars_of_splitOn hsplit, hsplit, hwhole]
  by_cases hlast : last = []
  · exact ⟨[[]], .inr rfl, by rw [if_pos hlast, List.append_nil, hlast]⟩
  · exact ⟨[], .inl rfl, by rw [if_neg hlast, List.append_nil]⟩

/-- **The lines of joined texts**: between those of the one and those of the other stands a blank
one, if the first text ended in a line feed by itself. -/
theorem lineChars_joined {above : List Char} (h : '\r' ∉ above) (below : List Char) :
    ∃ blank, (blank = [] ∨ blank = [[]]) ∧
      lineChars (above ++ '\n' :: below) = lineChars above ++ blank ++ lineChars below := by
  obtain ⟨blank, hblank, habove⟩ := exists_splitOn_eq h
  obtain ⟨whole, last, hbelow⟩ := exists_splitOn_eq_concat '\n' below
  have hsegs : splitOn '\n' (above ++ '\n' :: below) =
      (splitOn '\n' above ++ whole) ++ [last] := by
    rw [splitOn_append_cons, hbelow, List.append_assoc]
  refine ⟨blank, hblank, ?_⟩
  rw [lineChars_of_splitOn hsegs, lineChars_of_splitOn hbelow, ← habove, List.map_append,
    map_dropReturn fun _ ↦ not_mem_of_mem_splitOn h, List.append_assoc]

end Text

namespace Expansion

variable {depth : Nat} {line : String} {lines rest above below : List String}

/-! ### Lines at the margin -/

/-- The first line that is not blank, if there is one, is at most `depth` deep. -/
def StartsBy (depth : Nat) (lines : List String) : Prop :=
  ∀ line, lines.find? (fun line ↦ !Text.allBlank line) = some line → depthOf line ≤ depth

instance (depth : Nat) (lines : List String) : Decidable (StartsBy depth lines) :=
  match h : lines.find? (fun line ↦ !Text.allBlank line) with
  | none => .isTrue fun line hline ↦ by rw [h] at hline; cases hline
  | some line => decidable_of_iff (depthOf line ≤ depth)
      ⟨fun hle line' hline ↦ by rw [h] at hline; cases hline; exact hle, fun hall ↦ hall line h⟩

theorem startsBy_cons_of_blank (h : Text.allBlank line = true) :
    StartsBy depth (line :: rest) ↔ StartsBy depth rest := by
  rw [StartsBy, StartsBy, List.find?_cons_of_neg (by simp [h])]

theorem startsBy_cons_of_written (h : Text.allBlank line = false) :
    StartsBy depth (line :: rest) ↔ depthOf line ≤ depth := by
  rw [StartsBy, List.find?_cons_of_pos (by simp [h])]
  simp

/-- No block starts with a line that is not deep enough, nor with blank lines in front of one. -/
theorem block_eq_nil (h : StartsBy depth lines) : block depth lines = [] := by
  induction lines with
  | nil => rfl
  | cons line rest ih =>
    rw [block_cons]
    rcases hblank : Text.allBlank line with - | -
    · have hle := (startsBy_cons_of_written hblank).mp h
      rw [if_pos (.inl (by simp [belongsUnder, hblank, hle]))]
    · rw [if_pos (.inr ⟨rfl, ih ((startsBy_cons_of_blank hblank).mp h)⟩)]

/-- **A block does not reach** past a line that is not deep enough. -/
theorem block_append (h : StartsBy depth below) (above : List String) :
    block depth (above ++ below) = block depth above := by
  induction above with
  | nil => exact block_eq_nil h
  | cons line above ih => rw [List.cons_append, block_cons, block_cons, ih]

theorem afterBlock_append (h : StartsBy depth below) (above : List String) :
    afterBlock depth (above ++ below) = afterBlock depth above ++ below := by
  rw [afterBlock, block_append h, List.drop_append_of_le_length (length_block_le _ _), afterBlock]

/-- What ends a block is not as deep. -/
theorem startsBy_afterBlock (depth : Nat) (rest : List String) :
    StartsBy depth (afterBlock depth rest) := by
  induction rest with
  | nil => exact fun _ h ↦ nomatch h
  | cons line rest ih =>
    rw [afterBlock, block_cons]
    split
    · rename_i hstart
      rw [List.length_nil, List.drop_zero]
      rcases hstart with hno | ⟨hblank, hnil⟩
      · rw [belongsUnder, Bool.or_eq_false_iff, decide_eq_false_iff_not, Nat.not_lt] at hno
        exact (startsBy_cons_of_written hno.1).mpr hno.2
      · rw [afterBlock, hnil] at ih
        exact (startsBy_cons_of_blank hblank).mpr ih
    · exact ih

/-! ### Expansion -/

/-- **Texts are expanded one after the other** if the second starts at the margin. -/
theorem expansion_append (h : StartsBy 0 below) (above : List String) :
    expansion (above ++ below) = expansion above ++ expansion below := by
  fun_induction expansion above with
  | case1 => rfl
  | case2 line rest hcount ih => rw [List.cons_append, expansion_cons_of_none hcount, ih,
      List.cons_append]
  | case3 line rest count hcount ihBlock ihAfter =>
    have hdepth : StartsBy (depthOf line) below :=
      fun next hnext ↦ (h next hnext).trans (Nat.zero_le _)
    rw [List.cons_append, expansion_cons_of_some hcount, block_append hdepth,
      afterBlock_append hdepth, ihAfter, List.append_assoc]

/-- Blank lines are written as they stand. -/
theorem expansion_blank_append {blank : List String} (h : ∀ line ∈ blank, Text.allBlank line = true)
    (rest : List String) : expansion (blank ++ rest) = blank ++ expansion rest := by
  induction blank with
  | nil => rfl
  | cons line blank ih =>
    obtain ⟨hline, hblank⟩ := List.forall_mem_cons.mp h
    rw [List.cons_append, expansion_cons_of_none (repeatCount?_of_allBlank hline), ih hblank,
      List.cons_append]

/-- **What is written for a text at the margin** starts there too. -/
theorem StartsBy.expansion (h : StartsBy depth lines) :
    StartsBy depth (Expansion.expansion lines) := by
  fun_induction Expansion.expansion lines with
  | case1 => exact h
  | case2 line rest hcount ih =>
    rcases hblank : Text.allBlank line with - | -
    · exact (startsBy_cons_of_written hblank).mpr ((startsBy_cons_of_written hblank).mp h)
    · exact (startsBy_cons_of_blank hblank).mpr (ih ((startsBy_cons_of_blank hblank).mp h))
  | case3 line rest count hcount ihBlock ihAfter =>
    have hle := (startsBy_cons_of_written (allBlank_of_repeatCount? hcount)).mp h
    rcases hn : min count maxCopies with - | n
    -- the line is dropped with its block
    · rw [copies, List.range_zero, List.flatMap_nil, List.nil_append]
      exact ihAfter fun next hnext ↦ (startsBy_afterBlock _ _ next hnext).trans hle
    · rw [copies, List.range_succ_eq_map, List.flatMap_cons, List.cons_append, List.cons_append,
        startsBy_cons_of_written (allBlank_numbered hcount _), depthOf_numbered]
      exact hle

/-- **Joined texts are expanded one after the other** when the second starts at the margin. When the
lines of both together are not too many, neither are those of one. -/
theorem expandText_joined {above below : String} {out : List String} (hreturn : '\r' ∉ above.toList)
    (hmargin : StartsBy 0 (Text.lines below)) (h : expandText (above ++ "\n" ++ below) = .ok out) :
    ∃ outAbove blank outBelow, expandText above = .ok outAbove ∧ expandText below = .ok outBelow ∧
      (∀ line ∈ blank, line = "") ∧ StartsBy 0 outBelow ∧ out = outAbove ++ blank ++ outBelow := by
  obtain ⟨blank, hblank, hlines⟩ := Text.lineChars_joined hreturn below.toList
  have hempty : ∀ line ∈ blank.map String.ofList, line = "" := by
    rcases hblank with rfl | rfl <;> simp
  have hsplit : Text.lines (above ++ "\n" ++ below) =
      Text.lines above ++ (blank.map String.ofList ++ Text.lines below) := by
    rw [Text.lines, String.toList_append, String.toList_append, List.append_assoc]
    exact (congrArg _ hlines).trans (by simp [Text.lines])
  have hstarts : StartsBy 0 (blank.map String.ofList ++ Text.lines below) := by
    rcases hblank with rfl | rfl
    · exact hmargin
    · exact (startsBy_cons_of_blank rfl).mpr hmargin
  have hexpansion : expansion (Text.lines (above ++ "\n" ++ below)) =
      expansion (Text.lines above) ++
        (blank.map String.ofList ++ expansion (Text.lines below)) := by
    rw [hsplit, expansion_append hstarts, expansion_blank_append fun line hline ↦ by
      rw [hempty line hline]; rfl]
  rw [expandText, expandLines_eq, hexpansion] at h
  split at h
  · rename_i hfits
    rw [List.length_append, List.length_append] at hfits
    refine ⟨expansion (Text.lines above), blank.map String.ofList, expansion (Text.lines below),
      ?_, ?_, hempty, hmargin.expansion, ?_⟩
    · rw [expandText, expandLines_eq, if_pos (by omega)]
    · rw [expandText, expandLines_eq, if_pos (by omega)]
    · rw [← Except.ok.inj h, List.append_assoc]
  · cases h

end Expansion

end Scaffold
