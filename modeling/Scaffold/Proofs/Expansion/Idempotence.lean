import Scaffold.Proofs.Expansion.Budget

/-!
# Expanding what is expanded

A second expansion leaves a text alone exactly when none of its lines is repeated
(`expansion_eq_self_iff`). After a first expansion a line can only be one that was not repeated, or
a numbered copy of one that was (`mem_expansion_iff`). The copy is repeated again when new tokens
arose in it that agree on a count (`Renewed`): this takes a `$*` directly in front of a token, as in
`$*$*2`, whose first copy is `$*1`. So expansion is not idempotent (`expansion_leaves_tokens`), and
it is on a text exactly when no line that is written has such copies (`expandLines_again_iff`).
-/

namespace Scaffold.Expansion

variable {line written : String} {lines rest out : List String} {n limit : Nat}

/-! ### What is written -/

/-- What is written for a line: the line itself, or one of its numbered copies. -/
def IsCopy (line written : String) : Prop :=
  match repeatCount? line with
  | none => written = line
  | some count => ∃ n, 1 ≤ n ∧ n ≤ min count maxCopies ∧ written = numbered line n

theorem mem_copies {expanded : List String} :
    written ∈ copies line n expanded ↔
      (∃ i, 1 ≤ i ∧ i ≤ n ∧ written = numbered line i) ∨ n ≠ 0 ∧ written ∈ expanded := by
  simp only [copies, List.mem_flatMap, List.mem_range, List.mem_cons]
  constructor
  · rintro ⟨i, hi, rfl | hwritten⟩
    · exact .inl ⟨i + 1, by omega, hi, rfl⟩
    · exact .inr ⟨by omega, hwritten⟩
  · rintro (⟨i, hpos, hi, rfl⟩ | ⟨hn, hwritten⟩)
    · exact ⟨i - 1, by omega, .inl (by rw [Nat.sub_add_cancel hpos])⟩
    · exact ⟨0, by omega, .inr hwritten⟩

theorem copyCount_ne_zero_of_isCopy (h : IsCopy line written) : copyCount line ≠ 0 := by
  rw [copyCount]
  rcases hcount : repeatCount? line with - | count
  · exact Nat.one_ne_zero
  · rw [IsCopy, hcount] at h
    obtain ⟨n, hpos, hn, -⟩ := h
    exact Nat.ne_of_gt (Nat.lt_of_lt_of_le hpos hn)

/-- **The lines of an expansion** are the copies of the lines that are written at all. -/
theorem mem_expansion_iff :
    written ∈ expansion lines ↔
      ∃ j line, lines[j]? = some line ∧ multiplicity lines j ≠ 0 ∧ IsCopy line written := by
  fun_induction expansion lines with
  | case1 => simp
  | case2 line rest hcount ih =>
    rw [List.mem_cons, ih]
    constructor
    · rintro (rfl | ⟨j, line', hline, hmult, hcopy⟩)
      · refine ⟨0, written, rfl, ?_, ?_⟩
        · rw [multiplicity_zero, copyCount, hcount]
          exact Nat.one_ne_zero
        · rw [IsCopy, hcount]
      · exact ⟨j + 1, line', hline, multiplicity_succ_of_none hcount j ▸ hmult, hcopy⟩
    · rintro ⟨j, line', hline, hmult, hcopy⟩
      rcases j with - | j
      · obtain rfl : line = line' := Option.some.inj hline
        rw [IsCopy, hcount] at hcopy
        exact .inl hcopy
      · rw [multiplicity_succ_of_none hcount] at hmult
        exact .inr ⟨j, line', hline, hmult, hcopy⟩
  | case3 line rest count hcount ihBlock ihAfter =>
    have hcopies : copyCount line = min count maxCopies := by rw [copyCount, hcount]
    rw [List.mem_append, mem_copies, ihBlock, ihAfter]
    constructor
    · rintro ((hcopy | ⟨hn, j, line', hline, hmult, hcopy⟩) | ⟨j, line', hline, hmult, hcopy⟩)
      · have hcopy : IsCopy line written := by
          rw [IsCopy, hcount]
          exact hcopy
        exact ⟨0, line, rfl, multiplicity_zero ▸ copyCount_ne_zero_of_isCopy hcopy, hcopy⟩
      · have hj := (List.getElem?_eq_some_iff.mp hline).1
        refine ⟨j + 1, line', ?_, ?_, hcopy⟩
        · rw [List.getElem?_cons_succ, getElem?_block hj, hline]
        · rw [multiplicity_succ_inside hj, hcopies]
          exact Nat.mul_ne_zero hn hmult
      · refine ⟨(block (depthOf line) rest).length + j + 1, line', ?_, ?_, hcopy⟩
        · rw [List.getElem?_cons_succ, getElem?_behind, hline]
        · rwa [multiplicity_succ_behind]
    · rintro ⟨j, line', hline, hmult, hcopy⟩
      rcases j with - | j
      · obtain rfl : line = line' := Option.some.inj hline
        rw [IsCopy, hcount] at hcopy
        exact .inl (.inl hcopy)
      rw [List.getElem?_cons_succ] at hline
      rcases Nat.lt_or_ge j (block (depthOf line) rest).length with hj | hj
      · rw [multiplicity_succ_inside hj, hcopies] at hmult
        rw [getElem?_block hj] at hline
        exact .inl (.inr ⟨Nat.ne_zero_of_mul_ne_zero_left hmult, j, line', hline,
          Nat.ne_zero_of_mul_ne_zero_right hmult, hcopy⟩)
      · obtain ⟨j, rfl⟩ := Nat.exists_eq_add_of_le hj
        rw [multiplicity_succ_behind] at hmult
        rw [getElem?_behind] at hline
        exact .inr ⟨j, line', hline, hmult, hcopy⟩

/-! ### What a second expansion changes -/

/-- **Lines are left alone** exactly when none of them is repeated, if none is to be dropped. -/
theorem expansion_eq_self_iff (h : ∀ line ∈ lines, repeatCount? line ≠ some 0) :
    expansion lines = lines ↔ ∀ line ∈ lines, repeatCount? line = none := by
  induction lines with
  | nil => simp [expansion]
  | cons line rest ih =>
    obtain ⟨hline, hrest⟩ := List.forall_mem_cons.mp h
    rw [List.forall_mem_cons]
    rcases hcount : repeatCount? line with - | count
    · rw [expansion_cons_of_none hcount, List.cons_eq_cons, ih hrest]
      simp
    -- the first of the copies is another line
    · rw [expansion_cons_of_some hcount]
      obtain ⟨n, hn⟩ : ∃ n, min count maxCopies = n + 1 := by
        have hne : count ≠ 0 := fun hzero ↦ hline (hzero ▸ hcount)
        exact ⟨min count maxCopies - 1, by unfold maxCopies; omega⟩
      rw [hn, copies, List.range_succ_eq_map, List.flatMap_cons]
      constructor
      · intro hsame
        exact absurd (List.cons.inj hsame).1 (numbered_one_ne hcount)
      · rintro ⟨hnone, -⟩
        cases hnone

/-- The copy `n` of a line is repeated again: new tokens arose in it, and they agree on a count. -/
def Renewed (line : String) (n : Nat) : Prop :=
  reopened (chunks line) ≠ [] ∧ ∀ k ∈ reopened (chunks line), ∀ k' ∈ reopened (chunks line),
    writtenCount n k = writtenCount n k'

instance (line : String) (n : Nat) : Decidable (Renewed line n) :=
  inferInstanceAs (Decidable (_ ∧ ∀ k ∈ reopened (chunks line), _))

theorem repeatCount?_numbered_eq_none_iff :
    repeatCount? (numbered line n) = none ↔ ¬Renewed line n := by
  rw [repeatCount?_eq_none_iff, counts_numbered, Renewed, List.map_eq_nil_iff, not_and_or,
    Classical.not_not]
  simp

/-- **What is left to repeat** after an expansion: copies that are repeated again. -/
theorem forall_mem_expansion_iff (lines : List String) :
    (∀ line ∈ expansion lines, repeatCount? line = none) ↔
      ∀ j line count n, lines[j]? = some line → multiplicity lines j ≠ 0 →
        repeatCount? line = some count → 1 ≤ n → n ≤ min count maxCopies → ¬Renewed line n := by
  constructor
  · intro h j line count n hline hmult hcount hpos hn
    refine repeatCount?_numbered_eq_none_iff.mp (h _ ?_)
    refine mem_expansion_iff.mpr ⟨j, line, hline, hmult, ?_⟩
    rw [IsCopy, hcount]
    exact ⟨n, hpos, hn, rfl⟩
  · intro h written hwritten
    obtain ⟨j, line, hline, hmult, hcopy⟩ := mem_expansion_iff.mp hwritten
    rcases hcount : repeatCount? line with - | count
    · rw [IsCopy, hcount] at hcopy
      rw [hcopy, hcount]
    · rw [IsCopy, hcount] at hcopy
      obtain ⟨n, hpos, hn, rfl⟩ := hcopy
      exact repeatCount?_numbered_eq_none_iff.mpr (h j line count n hline hmult hcount hpos hn)

/-- **No line is dropped by a second expansion.** -/
theorem repeatCount?_ne_zero_of_mem_expansion (h : written ∈ expansion lines) :
    repeatCount? written ≠ some 0 := by
  obtain ⟨j, line, -, -, hcopy⟩ := mem_expansion_iff.mp h
  rcases hcount : repeatCount? line with - | count
  · rw [IsCopy, hcount] at hcopy
    rw [hcopy, hcount]
    nofun
  · rw [IsCopy, hcount] at hcopy
    obtain ⟨n, hpos, -, rfl⟩ := hcopy
    exact fun hzero ↦ absurd (pos_of_repeatCount?_numbered hpos hzero) (Nat.lt_irrefl 0)

/-- A line with `$*` directly in front of a token. -/
def OpensToken (line : String) : Prop :=
  ∃ before digits after,
    chunks line = before ++ .plain '$' :: .plain '*' :: .token digits :: after

/-- **When expansion is idempotent.** When lines could be expanded, expanding the result once more
leaves it alone exactly when none of its lines is repeated. That is so exactly when no copy of a
repeated line that is written has new tokens that agree on a count, and so whenever `$*` stands
nowhere directly in front of a token. -/
theorem expandLines_again_iff (h : expandLines lines limit = .ok out) :
    (expandLines out limit = .ok out ↔ ∀ line ∈ out, repeatCount? line = none) ∧
    (expandLines out limit = .ok out ↔
      ∀ j line count n, lines[j]? = some line → multiplicity lines j ≠ 0 →
        repeatCount? line = some count → 1 ≤ n → n ≤ min count maxCopies → ¬Renewed line n) ∧
    ((∀ line ∈ lines, ¬OpensToken line) → expandLines out limit = .ok out) := by
  rw [expandLines_eq] at h
  split at h
  · rename_i hfits
    obtain rfl := Except.ok.inj h
    have hagain : expandLines (expansion lines) limit = .ok (expansion lines) ↔
        ∀ line ∈ expansion lines, repeatCount? line = none := by
      rw [← expansion_eq_self_iff fun line ↦ repeatCount?_ne_zero_of_mem_expansion, expandLines_eq]
      constructor
      · intro hok
        split at hok
        · exact Except.ok.inj hok
        · cases hok
      · intro hsame
        rw [hsame, if_pos hfits]
    have hcopies := hagain.trans (forall_mem_expansion_iff lines)
    refine ⟨hagain, hcopies, fun hopens ↦ hcopies.mpr ?_⟩
    intro j line count n hline _ _ _ _ hrenewed
    exact hopens line (List.mem_of_getElem? hline) (reopened_ne_nil_iff.mp hrenewed.1)
  · cases h

theorem expandLines_again_iff_nested :
    expandLines ["a_$*2", "\tb_$*2_$*3"] 4 = .ok ["a_1", "\tb_$*2_$*3", "a_2", "\tb_$*2_$*3"] ∧
      expandLines ["a_1", "\tb_$*2_$*3", "a_2", "\tb_$*2_$*3"] 4 =
        .ok ["a_1", "\tb_$*2_$*3", "a_2", "\tb_$*2_$*3"] :=
  have h : expandLines ["a_$*2", "\tb_$*2_$*3"] 4 =
      .ok ["a_1", "\tb_$*2_$*3", "a_2", "\tb_$*2_$*3"] := by decide +kernel
  ⟨h, (expandLines_again_iff h).1.mpr (by decide +kernel)⟩

/-- **Expansion is not idempotent**: `$*` in front of a token makes a token with the number. -/
theorem expansion_leaves_tokens :
    expandLines ["$*$*2"] 2 = .ok ["$*1", "$*2"] ∧ repeatCount? "$*2" = some 2 ∧
      expandLines ["$*1", "$*2"] 2 = .error ⟨2⟩ ∧
      expandLines ["$*1", "$*2"] 3 = .ok ["1", "1", "2"] := by
  decide +kernel

end Scaffold.Expansion
