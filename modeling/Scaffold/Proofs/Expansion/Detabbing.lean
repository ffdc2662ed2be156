import Scaffold.Proofs.Expansion.Joining
import Scaffold.Proofs.Expansion.Idempotence
import Scaffold.Proofs.FrontMatter
import Scaffold.Proofs.Line.Kind
import Scaffold.Proofs.Paths

/-!
# Spaces in place of tabs

A tab in front of a line is worth as much as four spaces, so the lines of a text can be indented
either way (`detab`, `detabLine`). Of a line, expansion looks at its depth, at whether it is blank
and at its tokens, and it writes copies with the indentation of the line. None of this tells tabs
from spaces, so whatever is written for lines with spaces is what is written for those with tabs,
with spaces in place of the tabs (`expansion_map`, `Reindents.detabLine`).
-/

namespace Scaffold

variable {c : Char} {s : List Char} {line : String}

/-! ### Lines -/

/-- The characters of a line, with four spaces in place of each tab in front of the line. -/
def detabChars : List Char → List Char
  | [] => []
  | c :: rest =>
    if c = '\t' then List.replicate spacesPerLevel ' ' ++ detabChars rest
    else if c = ' ' then ' ' :: detabChars rest
    else c :: rest

/-- The line with four spaces in place of each tab in front of it. -/
def detabLine (line : String) : String := String.ofList (detabChars line.toList)

/-- The indentation with four spaces in place of each tab. -/
def Indent.detabbed (indent : Indent) : Indent :=
  match indent with
  | .none => .none
  | .tabs t => .spaces (spacesPerLevel * t)
  | .spaces s => .spaces s
  | .mixed t s => .spaces (spacesPerLevel * t + s)

@[simp]
theorem Indent.depth_detabbed (indent : Indent) : indent.detabbed.depth = indent.depth := by
  cases indent
  case mixed t s =>
    simp only [detabbed, depth, spacesPerLevel]
    omega
  all_goals simp [detabbed, depth, spacesPerLevel]

theorem takeWhile_detabChars (s : List Char) :
    (detabChars s).takeWhile Indent.isIndentChar =
      List.replicate (spacesPerLevel * (s.takeWhile Indent.isIndentChar).count '\t' +
        (s.takeWhile Indent.isIndentChar).count ' ') ' ' := by
  fun_induction detabChars s with
  | case1 => rfl
  | case2 rest ih =>
    rw [List.takeWhile_append_of_pos (fun c hc ↦ by rw [List.eq_of_mem_replicate hc]; rfl), ih,
      List.replicate_append_replicate]
    simp only [List.takeWhile_cons, show Indent.isIndentChar '\t' = true from rfl, if_true,
      List.count_cons_self, List.count_cons_of_ne (show '\t' ≠ ' ' by decide), Nat.mul_succ]
    rw [← Nat.add_assoc, Nat.add_comm spacesPerLevel]
  | case3 rest htab ih =>
    simp [Indent.isIndentChar, ih, List.replicate_succ, ← Nat.add_assoc]
  | case4 c rest htab hspace =>
    have hc : Indent.isIndentChar c = false := by simp [Indent.isIndentChar, htab, hspace]
    simp [hc]

theorem detabChars_eq_self (h : s.takeWhile Indent.isIndentChar = []) : detabChars s = s := by
  rcases s with - | ⟨c, s⟩
  · rfl
  · have hc : ¬(c = '\t' ∨ c = ' ') := by
      simpa [Indent.isIndentChar, List.takeWhile_cons] using h
    rw [not_or] at hc
    rw [detabChars, if_neg hc.1, if_neg hc.2]

theorem detabChars_eq_nil_iff : detabChars s = [] ↔ s = [] := by
  rcases s with - | ⟨c, s⟩
  · simp [detabChars]
  · rw [detabChars]
    split
    · simp [spacesPerLevel]
    · split <;> simp

/-- Nothing but spaces is new. -/
theorem mem_of_mem_detabChars (hc : c ≠ ' ') (h : c ∈ detabChars s) : c ∈ s := by
  fun_induction detabChars s with
  | case1 => exact h
  | case2 rest ih =>
    rcases List.mem_append.mp h with h | h
    · exact absurd (List.eq_of_mem_replicate h) hc
    · exact List.mem_cons_of_mem _ (ih h)
  | case3 rest htab ih => exact List.mem_cons_of_mem _ (ih ((List.mem_cons.mp h).resolve_left hc))
  | case4 c rest htab hspace => exact h

/-- **The indentation** of a line with spaces in place of tabs. -/
theorem measure_detabLine (line : String) :
    Indent.measure (detabLine line) = (Indent.measure line).detabbed := by
  rw [measure_eq, measure_eq, leadOf, detabLine, String.toList_ofList, takeWhile_detabChars,
    ← leadOf, List.count_replicate, List.count_replicate]
  generalize (leadOf line).count '\t' = t
  generalize (leadOf line).count ' ' = n
  rcases t with - | t <;> rcases n with - | n <;>
    simp [Indent.ofCounts, Indent.detabbed, spacesPerLevel]

example : detabLine "\t a\t" = "     a\t" ∧
    Indent.measure (detabLine "\t a\t") = .spaces 5 := by decide +kernel

theorem depthOf_detabLine (line : String) : depthOf (detabLine line) = depthOf line := by
  rw [depthOf, measure_detabLine, Indent.depth_detabbed, depthOf]

/-- What stands in front of a line is blank. -/
theorem dropWhile_isBlank_detabChars (s : List Char) :
    (detabChars s).dropWhile Text.isBlank = s.dropWhile Text.isBlank := by
  fun_induction detabChars s with
  | case1 => rfl
  | case2 rest ih => exact ih
  | case3 rest htab ih => exact ih
  | case4 c rest htab hspace => rfl

theorem trim_detabLine (line : String) : Text.trim (detabLine line) = Text.trim line := by
  rw [Text.trim, Text.trimChars, detabLine, String.toList_ofList, dropWhile_isBlank_detabChars,
    ← Text.trimChars, ← Text.trim]

theorem allBlank_detabLine (line : String) :
    Text.allBlank (detabLine line) = Text.allBlank line := by
  rw [← Text.isEmpty_trim, trim_detabLine, Text.isEmpty_trim]

/-! ### Texts -/

/-- A text with four spaces in place of each tab in front of a line, where `front` says whether
nothing but tabs and spaces has been read of the line so far. A carriage return ends a line too. -/
def detabFrom : Bool → List Char → List Char
  | _, [] => []
  | front, c :: rest =>
    (if front ∧ c = '\t' then List.replicate spacesPerLevel ' ' else [c]) ++
      detabFrom (c = '\n' ∨ c = '\r' ∨ front ∧ Indent.isIndentChar c) rest

/-- Behind a character that is no blank nothing is replaced. -/
theorem detabFrom_cons_of_written (front : Bool) (hc : Text.isBlank c = false) (rest : List Char) :
    detabFrom front (c :: rest) = c :: detabFrom false rest := by
  have hne : c ≠ '\n' ∧ c ≠ '\r' ∧ c ≠ '\t' ∧ c ≠ ' ' := by
    refine ⟨?_, ?_, ?_, ?_⟩
    all_goals
      rintro rfl
      cases hc
  simp [detabFrom, Indent.isIndentChar, hne]

/-- Nothing is replaced on a line that is not indented. -/
theorem detabFrom_true_of_clear (h : ∀ c, s.head? = some c → Indent.isIndentChar c = false) :
    detabFrom true s = detabFrom false s := by
  rcases s with - | ⟨c, s⟩
  · rfl
  · have hc := h c rfl
    have htab : c ≠ '\t' := by
      rintro rfl
      cases hc
    simp [detabFrom, htab, hc]

/-- Nothing but a space comes in front of a text. -/
theorem head?_detabFrom_ne (front : Bool) (hc : c ≠ ' ') (h : s.head? ≠ some c) :
    (detabFrom front s).head? ≠ some c := by
  rcases s with - | ⟨c', s⟩
  · exact h
  · rw [detabFrom]
    split
    · simpa [spacesPerLevel, List.replicate_succ] using Ne.symm hc
    · exact h

theorem detabFrom_append_feed (front : Bool) (line rest : List Char) :
    detabFrom front (line ++ '\n' :: rest) =
      detabFrom front line ++ '\n' :: detabFrom true rest := by
  induction line generalizing front with
  | nil => simp [detabFrom]
  | cons c line ih => rw [List.cons_append, detabFrom, detabFrom, ih, List.append_assoc]

theorem detabFrom_false_of_one (hfeed : '\n' ∉ s) (hreturn : '\r' ∉ s) :
    detabFrom false s = s := by
  induction s with
  | nil => rfl
  | cons c s ih =>
    rw [List.mem_cons, not_or] at hfeed hreturn
    simp [detabFrom, Ne.symm hfeed.1, Ne.symm hreturn.1, ih hfeed.2 hreturn.2]

/-- The tabs in front of one line. -/
theorem detabFrom_true_of_one (hfeed : '\n' ∉ s) (hreturn : '\r' ∉ s) :
    detabFrom true s = detabChars s := by
  induction s with
  | nil => rfl
  | cons c s ih =>
    rw [List.mem_cons, not_or] at hfeed hreturn
    rw [detabFrom, detabChars]
    by_cases htab : c = '\t'
    · simp [htab, Indent.isIndentChar, ih hfeed.2 hreturn.2]
    · by_cases hspace : c = ' '
      · simp [hspace, Indent.isIndentChar, ih hfeed.2 hreturn.2]
      · simp [htab, hspace, Indent.isIndentChar, Ne.symm hfeed.1, Ne.symm hreturn.1,
          detabFrom_false_of_one hfeed.2 hreturn.2]

namespace Text

/-- **Line ends are the same** in front of spaces and of tabs. -/
theorem unifyLineEnds_detabFrom (front : Bool) (s : List Char) :
    unifyLineEnds (detabFrom front s) = detabFrom front (unifyLineEnds s) := by
  fun_induction unifyLineEnds s generalizing front with
  | case1 => rfl
  | case2 rest ih => simp [detabFrom, unifyLineEnds, ih]
  | case3 c rest hother ih =>
    by_cases hreturn : c = '\r'
    · subst hreturn
      have hhead : rest.head? ≠ some '\n' := by
        rcases rest with - | ⟨c, rest⟩
        · simp
        · intro hfeed
          exact hother rest rfl (by rw [Option.some.inj hfeed])
      simpa [detabFrom, ← ih] using
        unifyLineEnds_return (head?_detabFrom_ne true (by decide) hhead)
    · have hone : '\r' ∉ if front ∧ c = '\t' then List.replicate spacesPerLevel ' ' else [c] := by
        split
        · simp
        · simpa using Ne.symm hreturn
      rw [if_neg hreturn, detabFrom, unifyLineEnds_append_of_not_mem hone, ih, detabFrom]

theorem splitOn_detabFrom (hreturn : '\r' ∉ s) :
    splitOn '\n' (detabFrom true s) = (splitOn '\n' s).map detabChars := by
  have hlast : ∀ line, '\n' ∉ line → '\r' ∉ line →
      splitOn '\n' (detabFrom true line) = [detabChars line] := fun line hfeed hreturn ↦ by
    rw [detabFrom_true_of_one hfeed hreturn,
      splitOn_of_not_mem (mt (mem_of_mem_detabChars (by decide)) hfeed)]
  induction s using FrontMatter.lines_induction with
  | last line hfeed => rw [hlast line hfeed hreturn, splitOn_of_not_mem hfeed, List.map_singleton]
  | line line rest hfeed ih =>
    rw [List.mem_append, List.mem_cons, not_or, not_or] at hreturn
    rw [detabFrom_append_feed, splitOn_append_cons, splitOn_append_cons, ih hreturn.2.2,
      hlast line hfeed hreturn.1, splitOn_of_not_mem hfeed, List.map_append, List.map_singleton]

/-- **The lines of a text** with spaces in place of tabs. -/
theorem lineChars_detabFrom (hreturn : '\r' ∉ s) :
    lineChars (detabFrom true s) = (lineChars s).map detabChars := by
  obtain ⟨whole, last, hsplit⟩ := exists_splitOn_eq_concat '\n' s
  have hwhole : ∀ line ∈ whole, '\r' ∉ line := fun line hline ↦
    not_mem_of_mem_splitOn hreturn (hsplit ▸ List.mem_append_left _ hline)
  have hsplit' : splitOn '\n' (detabFrom true s) = whole.map detabChars ++ [detabChars last] := by
    rw [splitOn_detabFrom hreturn, hsplit, List.map_append, List.map_singleton]
  rw [lineChars_of_splitOn hsplit, lineChars_of_splitOn hsplit', map_dropReturn hwhole,
    map_dropReturn, List.map_append]
  · simp only [detabChars_eq_nil_iff]
    split <;> rfl
  · intro line' hmem
    obtain ⟨line, hline, rfl⟩ := List.mem_map.mp hmem
    exact mt (mem_of_mem_detabChars (by decide)) (hwhole line hline)

end Text

/-! ### Expansion -/

namespace Expansion

/-- Nothing that expansion looks at tells the lines that `f` gives from the given ones, and numbers
can be put in before or after. -/
structure Reindents (f : String → String) : Prop where
  allBlank : ∀ line, Text.allBlank (f line) = Text.allBlank line
  depthOf : ∀ line, Scaffold.depthOf (f line) = Scaffold.depthOf line
  repeatCount? : ∀ line, Expansion.repeatCount? (f line) = Expansion.repeatCount? line
  numbered : ∀ line n, Expansion.numbered (f line) n = f (Expansion.numbered line n)

variable {f : String → String} {lines : List String} {depth : Nat}

theorem block_map (hf : Reindents f) (depth : Nat) (lines : List String) :
    block depth (lines.map f) = (block depth lines).map f := by
  induction lines with
  | nil => rfl
  | cons line lines ih =>
    have hbelongs : belongsUnder depth (f line) = belongsUnder depth line := by
      rw [belongsUnder, hf.allBlank, hf.depthOf, belongsUnder]
    rw [List.map_cons, block_cons, block_cons, hbelongs, hf.allBlank, ih,
      apply_ite (List.map f), List.map_nil, List.map_cons]
    simp only [List.map_eq_nil_iff]

theorem afterBlock_map (hf : Reindents f) (depth : Nat) (lines : List String) :
    afterBlock depth (lines.map f) = (afterBlock depth lines).map f := by
  rw [afterBlock, block_map hf, List.length_map, ← List.map_drop, afterBlock]

theorem copies_map (hf : Reindents f) (line : String) (n : Nat) (expanded : List String) :
    copies (f line) n (expanded.map f) = (copies line n expanded).map f := by
  simp only [copies, hf.numbered, List.map_flatMap, List.map_cons]

/-- **What is written** for lines that are indented in another way. -/
theorem expansion_map (hf : Reindents f) (lines : List String) :
    expansion (lines.map f) = (expansion lines).map f := by
  fun_induction expansion lines with
  | case1 => rw [List.map_nil, expansion]
  | case2 line rest hcount ih =>
    rw [List.map_cons, expansion_cons_of_none ((hf.repeatCount? line).trans hcount), ih,
      List.map_cons]
  | case3 line rest count hcount ihBlock ihAfter =>
    rw [List.map_cons, expansion_cons_of_some ((hf.repeatCount? line).trans hcount), hf.depthOf,
      block_map hf, afterBlock_map hf, ihBlock, ihAfter, copies_map hf, List.map_append]

theorem expandLines_map (hf : Reindents f) (lines : List String) (limit : Nat) :
    expandLines (lines.map f) limit = (expandLines lines limit).map (List.map f) := by
  rw [expandLines_eq, expandLines_eq, expansion_map hf, List.length_map]
  split <;> rfl

theorem countsIn_detabChars (s : List Char) : countsIn (detabChars s) = countsIn s := by
  fun_induction detabChars s with
  | case1 => rfl
  | case2 rest ih =>
    rw [countsIn_append_of_not_mem (by decide), ih,
      ← countsIn_append_of_not_mem (s := ['\t']) (by decide) rest, List.singleton_append]
  | case3 rest htab ih =>
    rw [countsIn_plain (tokenAhead_of_ne (by decide)), ih,
      countsIn_plain (tokenAhead_of_ne (by decide))]
  | case4 c rest htab hspace => rfl

theorem replaced_detabChars (n : Nat) (s : List Char) :
    replaced (Nat.toDigits 10 n) (detabChars s) = detabChars (replaced (Nat.toDigits 10 n) s) := by
  fun_induction detabChars s with
  | case1 => rfl
  | case2 rest ih =>
    rw [replaced_append_of_not_mem _ (by decide), ih,
      replaced_plain _ (tokenAhead_of_ne (by decide)), detabChars, if_pos rfl]
  | case3 rest htab ih =>
    rw [replaced_plain _ (tokenAhead_of_ne (by decide)), ih,
      replaced_plain _ (tokenAhead_of_ne (by decide)), detabChars, if_neg htab, if_pos rfl]
  | case4 c rest htab hspace =>
    refine (detabChars_eq_self ?_).symm
    rw [takeWhile_isIndentChar_replaced]
    simp [Indent.isIndentChar, htab, hspace]

/-- **Spaces in place of tabs** make no difference for an expansion. -/
theorem Reindents.detabLine : Reindents detabLine where
  allBlank := allBlank_detabLine
  depthOf := depthOf_detabLine
  repeatCount? line := by
    rw [Expansion.repeatCount?, Expansion.repeatCount?, counts_eq, counts_eq, Scaffold.detabLine,
      String.toList_ofList, countsIn_detabChars]
  numbered line n := by
    rw [← String.toList_inj, toList_numbered, Scaffold.detabLine, Scaffold.detabLine,
      String.toList_ofList, String.toList_ofList, toList_numbered, replaced_detabChars]

/-- **What is written is indented** like a line of the text. -/
theorem exists_leadOf_of_expandText {text written : String} {out : List String}
    (h : expandText text = .ok out) (hwritten : written ∈ out) :
    ∃ line ∈ Text.lines text, leadOf written = leadOf line := by
  rw [expandText, expandLines_eq] at h
  split at h
  · rw [← Except.ok.inj h] at hwritten
    obtain ⟨j, line, hline, -, hcopy⟩ := mem_expansion_iff.mp hwritten
    refine ⟨line, List.mem_of_getElem? hline, ?_⟩
    unfold IsCopy at hcopy
    split at hcopy
    · rw [hcopy]
    · obtain ⟨n, -, -, rfl⟩ := hcopy
      exact leadOf_numbered line n
  · cases h

end Expansion

end Scaffold
