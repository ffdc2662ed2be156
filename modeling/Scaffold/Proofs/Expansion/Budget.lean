import Mathlib.Algebra.BigOperators.Intervals
import Mathlib.Algebra.BigOperators.Ring.Finset
import Mathlib.Data.List.GetD
import Scaffold.Proofs.Expansion.Tokens

/-!
# What an expansion costs

What an expansion writes does not depend on its budget: there is one list of lines that every
expansion answers that can pay for it (`expansion`, `expandWithin_eq`). That list follows the
recursion of blocks inside blocks.

The number of its lines is also known line by line, without recursion (`length_expansion`). A line
is written once for each way to choose a copy of it and of every repeated line in whose block it
stands (`multiplicity`), where blocks are read off the whole text (`InBlock`). The two agree because
the blocks of lines inside a block are the same in the block alone and in the whole text, and
because none of them goes on behind it (`inBlock_inside`, `inBlock_across`).
-/

namespace Scaffold.Expansion

variable {depth i j : Nat} {line : String} {lines rest : List String}

/-! ### Blocks -/

theorem block_cons (depth : Nat) (line : String) (rest : List String) :
    block depth (line :: rest) =
      if belongsUnder depth line = false ∨ (Text.allBlank line = true ∧ block depth rest = []) then
        []
      else line :: block depth rest := by
  unfold block
  rcases hbelongs : belongsUnder depth line with - | -
  · simp [hbelongs]
  · simp [hbelongs, Text.dropEndWhile_cons]

theorem block_isPrefix (depth : Nat) (rest : List String) : block depth rest <+: rest := by
  induction rest with
  | nil => exact List.prefix_rfl
  | cons line rest ih =>
    rw [block_cons]
    split
    · exact List.nil_prefix
    · exact (List.prefix_cons_inj line).mpr ih

/-- The block and what follows it make up the lines. -/
theorem block_append_afterBlock (depth : Nat) (rest : List String) :
    block depth rest ++ afterBlock depth rest = rest :=
  List.prefix_iff_eq_append.mp (block_isPrefix depth rest)

theorem belongsUnder_of_mem_block (h : line ∈ block depth rest) :
    belongsUnder depth line = true := by
  induction rest with
  | nil => cases h
  | cons line' rest ih =>
    rw [block_cons] at h
    split at h
    · cases h
    · rename_i hstart
      rcases List.mem_cons.mp h with rfl | h
      · simpa using fun hno ↦ hstart (.inl hno)
      · exact ih h

/-- The line at a position. Behind the last line there are only blank ones. -/
def lineAt (lines : List String) (i : Nat) : String := lines.getD i ""

@[simp]
theorem lineAt_zero (line : String) (rest : List String) : lineAt (line :: rest) 0 = line := rfl

@[simp]
theorem lineAt_succ (line : String) (rest : List String) (i : Nat) :
    lineAt (line :: rest) (i + 1) = lineAt rest i := rfl

theorem lineAt_append_left (rest : List String) (h : i < lines.length) :
    lineAt (lines ++ rest) i = lineAt lines i :=
  List.getD_append lines rest "" i h

theorem lineAt_append_right (lines rest : List String) (i : Nat) :
    lineAt (lines ++ rest) (lines.length + i) = lineAt rest i := by
  rw [lineAt, List.getD_append_right lines rest "" _ (Nat.le_add_right _ _),
    Nat.add_sub_cancel_left, lineAt]

theorem lineAt_mem (h : i < lines.length) : lineAt lines i ∈ lines := by
  rw [lineAt, List.getD_eq_getElem lines "" h]
  exact List.getElem_mem h

theorem getElem?_block (hj : j < (block depth rest).length) :
    rest[j]? = (block depth rest)[j]? := by
  conv_lhs => rw [← block_append_afterBlock depth rest]
  exact List.getElem?_append_left hj

theorem getElem?_behind (depth : Nat) (rest : List String) (j : Nat) :
    rest[(block depth rest).length + j]? = (afterBlock depth rest)[j]? :=
  List.getElem?_drop.symm

theorem lineAt_block (hj : j < (block depth rest).length) :
    lineAt rest j = lineAt (block depth rest) j := by
  rw [← lineAt_append_left (afterBlock depth rest) hj, block_append_afterBlock]

theorem lineAt_behind (depth : Nat) (rest : List String) (j : Nat) :
    lineAt rest ((block depth rest).length + j) = lineAt (afterBlock depth rest) j := by
  rw [← lineAt_append_right (block depth rest) (afterBlock depth rest), block_append_afterBlock]

/-- Lines of a block that are not blank are deeper than the line above it. -/
theorem lt_depthOf_of_lt_length (hj : j < (block depth rest).length)
    (hwritten : Text.allBlank (lineAt rest j) = false) : depth < depthOf (lineAt rest j) := by
  have hbelongs := belongsUnder_of_mem_block (lineAt_mem hj)
  rw [← lineAt_block hj, belongsUnder, hwritten, Bool.false_or] at hbelongs
  exact of_decide_eq_true hbelongs

/-- Blocks end in a line that is not blank. -/
theorem allBlank_last_block (h : j < (block depth rest).length)
    (hlast : (block depth rest).length ≤ j + 1) :
    Text.allBlank (lineAt (block depth rest) j) = false := by
  induction rest generalizing j with
  | nil => exact absurd h (Nat.not_lt_zero j)
  | cons line rest ih =>
    rw [block_cons] at h hlast ⊢
    split at h
    · exact absurd h (Nat.not_lt_zero j)
    · rename_i hstart
      rw [if_neg hstart] at hlast ⊢
      rw [List.length_cons] at h hlast
      rcases j with - | j
      · have hnil : block depth rest = [] := List.length_eq_zero_iff.mp (by omega)
        simpa [hnil] using fun hblank ↦ hstart (.inr ⟨hblank, hnil⟩)
      · exact ih (by omega) (by omega)

/-- **What ends a block**: a line that is not blank stands behind the block only if one that is not
deep enough comes first. -/
theorem exists_closing (hj : (block depth rest).length ≤ j)
    (hwritten : Text.allBlank (lineAt rest j) = false) :
    ∃ k, (block depth rest).length ≤ k ∧ k ≤ j ∧ Text.allBlank (lineAt rest k) = false ∧
      depthOf (lineAt rest k) ≤ depth := by
  induction rest generalizing j with
  | nil => cases hwritten
  | cons line rest ih =>
    rw [block_cons] at hj ⊢
    split at hj
    · rename_i hstart
      rw [if_pos hstart]
      rcases hstart with hno | ⟨hblank, hnil⟩
      · rw [belongsUnder, Bool.or_eq_false_iff, decide_eq_false_iff_not, Nat.not_lt] at hno
        exact ⟨0, Nat.le_refl 0, Nat.zero_le j, hno.1, hno.2⟩
      -- a blank line in front of an empty block closes nothing
      · rcases j with - | j
        · simp [hblank] at hwritten
        · obtain ⟨k, -, hkj, hk⟩ := ih (j := j) (by simp [hnil]) hwritten
          exact ⟨k + 1, Nat.zero_le _, Nat.succ_le_succ hkj, hk⟩
    · rename_i hstart
      rw [if_neg hstart]
      rw [List.length_cons] at hj ⊢
      rcases j with - | j
      · omega
      · obtain ⟨k, hle, hkj, hk⟩ := ih (j := j) (by omega) hwritten
        exact ⟨k + 1, by omega, by omega, hk⟩

/-! ### Expansion without a budget -/

/-- The lines that an expansion writes, whatever they cost. -/
def expansion : List String → List String
  | [] => []
  | line :: rest =>
    match repeatCount? line with
    | none => line :: expansion rest
    | some count =>
      copies line (min count maxCopies) (expansion (block (depthOf line) rest)) ++
        expansion (afterBlock (depthOf line) rest)
termination_by lines => lines.length
decreasing_by
  · simp
  · simpa [Nat.lt_succ_iff] using length_block_le _ _
  · simpa [Nat.lt_succ_iff] using length_afterBlock_le _ _

theorem expansion_cons_of_none (h : repeatCount? line = none) :
    expansion (line :: rest) = line :: expansion rest := by
  rw [expansion, h]

theorem expansion_cons_of_some {count : Nat} (h : repeatCount? line = some count) :
    expansion (line :: rest) =
      copies line (min count maxCopies) (expansion (block (depthOf line) rest)) ++
        expansion (afterBlock (depthOf line) rest) := by
  rw [expansion, h]

theorem length_copies (line : String) (n : Nat) (expanded : List String) :
    (copies line n expanded).length = n * (expanded.length + 1) := by
  simp only [copies, List.length_flatMap, List.length_cons, List.map_const', List.length_range,
    List.sum_replicate_nat]

/-- **An expansion within a budget** writes the lines of the expansion if there is room for all of
them, and otherwise nothing. -/
theorem expandWithin_eq (room : Nat) (lines : List String) :
    expandWithin room lines =
      if (expansion lines).length ≤ room then some (expansion lines, (expansion lines).length)
      else none := by
  fun_induction expansion lines generalizing room with
  | case1 => simp [expandWithin]
  | case2 line rest hcount ih =>
    rw [expandWithin, hcount]
    rcases room with - | room
    · simp
    · rw [Nat.add_sub_cancel, ih]
      by_cases hroom : (expansion rest).length ≤ room
      · simp [hroom]
      · simp [hroom]
  | case3 line rest count hcount ihBlock ihAfter =>
    rw [expandWithin, hcount]
    simp only [ihBlock, ihAfter, List.length_append, length_copies]
    generalize hn : min count maxCopies = n
    generalize expansion (block (depthOf line) rest) = expanded
    generalize expansion (afterBlock (depthOf line) rest) = more
    rcases Nat.eq_zero_or_pos n with rfl | hpos
    · by_cases hroom : more.length ≤ room
      · simp [hroom, copies]
      · simp [hroom]
    · have hle : expanded.length + 1 ≤ n * (expanded.length + 1) := Nat.le_mul_of_pos_left _ hpos
      have hne : n ≠ 0 := Nat.pos_iff_ne_zero.mp hpos
      -- a block that is too large by itself is too large with its copies
      by_cases heach : expanded.length ≤ room
      · by_cases hcost : n * (expanded.length + 1) ≤ room
        · by_cases hroom : more.length ≤ room - n * (expanded.length + 1)
          · have hall : n * (expanded.length + 1) + more.length ≤ room := by omega
            simp [hne, heach, Nat.not_lt.mpr hcost, hroom, hall]
          · have hall : ¬n * (expanded.length + 1) + more.length ≤ room := by omega
            simp [hne, heach, Nat.not_lt.mpr hcost, hroom, hall]
        · have hall : ¬n * (expanded.length + 1) + more.length ≤ room := by omega
          simp [hne, heach, Nat.not_le.mp hcost, hall]
      · have hall : ¬n * (expanded.length + 1) + more.length ≤ room := by omega
        simp [hne, heach, hall]

/-- What an expansion answers. -/
theorem expandLines_eq (lines : List String) (limit : Nat) :
    expandLines lines limit =
      if (expansion lines).length ≤ limit then .ok (expansion lines) else .error ⟨limit⟩ := by
  rw [expandLines, expandWithin_eq]
  by_cases hfits : (expansion lines).length ≤ limit
  · simp only [if_pos hfits]
  · simp only [if_neg hfits]

/-! ### Counting line by line -/

/-- The line at position `j` stands in the block of the one at position `i`: between the two, and
on to a line at or behind `j` that is not blank, everything that is not blank is deeper than the
line at `i`. -/
def InBlock (lines : List String) (i j : Nat) : Prop :=
  i < j ∧ ∃ last < lines.length, j ≤ last ∧ Text.allBlank (lineAt lines last) = false ∧
    ∀ k ≤ last, i < k → Text.allBlank (lineAt lines k) = false →
      depthOf (lineAt lines i) < depthOf (lineAt lines k)

instance (lines : List String) (i j : Nat) : Decidable (InBlock lines i j) :=
  inferInstanceAs (Decidable (_ ∧ ∃ last < lines.length, _ ∧ _ ∧ ∀ k ≤ last, _ → _ → _))

/-- How many numbered copies are made of a line: as many as its count says, up to the limit. A line
that is not repeated is written once. -/
def copyCount (line : String) : Nat :=
  match repeatCount? line with
  | none => 1
  | some count => min count maxCopies

/-- How often the line at position `j` is written: once for each choice of a copy of it and of every
repeated line in whose block it stands. -/
def multiplicity (lines : List String) (j : Nat) : Nat :=
  ∏ i ∈ Finset.range lines.length with i = j ∨ InBlock lines i j, copyCount (lineAt lines i)

/-! ### Blocks of the whole text -/

/-- **The block of the first line** is what the recursion cuts off. -/
theorem inBlock_zero_iff :
    InBlock (line :: rest) 0 (j + 1) ↔ j < (block (depthOf line) rest).length := by
  constructor
  · rintro ⟨-, last, hlast, hjlast, hwritten, hdeep⟩
    obtain ⟨last, rfl⟩ : ∃ n, last = n + 1 := ⟨last - 1, by omega⟩
    by_contra hbehind
    have hlastBehind : (block (depthOf line) rest).length ≤ last := by omega
    obtain ⟨k, -, hk, hkwritten, hshallow⟩ := exists_closing hlastBehind hwritten
    have := hdeep (k + 1) (by omega) (by omega) hkwritten
    rw [lineAt_zero, lineAt_succ] at this
    omega
  · intro hj
    have hlength := (block_isPrefix (depthOf line) rest).length_le
    refine ⟨by omega, (block (depthOf line) rest).length, by simp; omega, by omega, ?_, ?_⟩
    · obtain ⟨n, hn⟩ : ∃ n, (block (depthOf line) rest).length = n + 1 :=
        ⟨(block (depthOf line) rest).length - 1, by omega⟩
      have hinside : n < (block (depthOf line) rest).length := by omega
      rw [hn, lineAt_succ, lineAt_block hinside]
      exact allBlank_last_block hinside (by omega)
    · intro k hk hpos hwritten
      obtain ⟨k, rfl⟩ : ∃ n, k = n + 1 := ⟨k - 1, by omega⟩
      have hinside : k < (block (depthOf line) rest).length := by omega
      rw [lineAt_succ] at hwritten ⊢
      exact lt_depthOf_of_lt_length hinside hwritten

/-- A line in front of all others moves the blocks by one. -/
theorem inBlock_succ_iff : InBlock (line :: rest) (i + 1) (j + 1) ↔ InBlock rest i j := by
  constructor
  · rintro ⟨hij, last, hlast, hjlast, hwritten, hdeep⟩
    obtain ⟨last, rfl⟩ : ∃ n, last = n + 1 := ⟨last - 1, by omega⟩
    refine ⟨by omega, last, by simpa using hlast, by omega, hwritten, fun k hk hik hkwritten ↦ ?_⟩
    exact hdeep (k + 1) (by omega) (by omega) hkwritten
  · rintro ⟨hij, last, hlast, hjlast, hwritten, hdeep⟩
    refine ⟨by omega, last + 1, by simpa using hlast, by omega, hwritten, ?_⟩
    intro k hk hik hkwritten
    obtain ⟨k, rfl⟩ : ∃ n, k = n + 1 := ⟨k - 1, by omega⟩
    exact hdeep k (by omega) (by omega) hkwritten

/-- Lines in front of all others move the blocks by their number. -/
theorem inBlock_append_right (lines rest : List String) :
    InBlock (lines ++ rest) (lines.length + i) (lines.length + j) ↔ InBlock rest i j := by
  induction lines with
  | nil => simp
  | cons line lines ih =>
    rw [List.cons_append, List.length_cons, Nat.add_right_comm, Nat.add_right_comm _ 1,
      inBlock_succ_iff, ih]

/-- **The blocks of lines inside a block** are the same in the block alone. -/
theorem inBlock_inside (hj : j < (block depth rest).length) :
    InBlock rest i j ↔ InBlock (block depth rest) i j := by
  have hat : ∀ k < (block depth rest).length, lineAt rest k = lineAt (block depth rest) k :=
    fun _ ↦ lineAt_block
  constructor
  · rintro ⟨hij, last, hlast, hjlast, hwritten, hdeep⟩
    -- if the last line of the block of `i` is behind the block, the last one in it will do
    rcases Nat.lt_or_ge last (block depth rest).length with hlt | hge
    · refine ⟨hij, last, hlt, hjlast, hat last hlt ▸ hwritten, fun k hk hik hkwritten ↦ ?_⟩
      rw [← hat k (by omega)] at hkwritten ⊢
      rw [← hat i (by omega)]
      exact hdeep k hk hik hkwritten
    · refine ⟨hij, (block depth rest).length - 1, by omega, by omega,
        allBlank_last_block (by omega) (by omega), fun k hk hik hkwritten ↦ ?_⟩
      rw [← hat k (by omega)] at hkwritten ⊢
      rw [← hat i (by omega)]
      exact hdeep k (by omega) hik hkwritten
  · rintro ⟨hij, last, hlast, hjlast, hwritten, hdeep⟩
    have hlength := (block_isPrefix depth rest).length_le
    refine ⟨hij, last, by omega, hjlast, hat last hlast ▸ hwritten, fun k hk hik hkwritten ↦ ?_⟩
    rw [hat k (by omega)] at hkwritten ⊢
    rw [hat i (by omega)]
    exact hdeep k hk hik hkwritten

/-- **No block goes on** behind the block around it. -/
theorem inBlock_across (hi : i < (block depth rest).length)
    (hwritten : Text.allBlank (lineAt rest i) = false) (hj : (block depth rest).length ≤ j) :
    ¬InBlock rest i j := by
  rintro ⟨hij, last, -, hjlast, hlast, hdeep⟩
  obtain ⟨k, hk, hklast, hkwritten, hshallow⟩ := exists_closing (hj.trans hjlast) hlast
  have := lt_depthOf_of_lt_length hi hwritten
  have := hdeep k hklast (by omega) hkwritten
  omega

/-! ### The number of copies -/

/-- How often a line is written, with every line in front of it considered. -/
theorem multiplicity_eq (lines : List String) (j : Nat) :
    multiplicity lines j = ∏ i ∈ Finset.range lines.length,
      if i = j ∨ InBlock lines i j then copyCount (lineAt lines i) else 1 :=
  Finset.prod_filter _ _

/-- The first line is only repeated by itself. -/
theorem multiplicity_zero : multiplicity (line :: rest) 0 = copyCount line := by
  rw [multiplicity_eq, List.length_cons, Finset.prod_range_succ', Finset.prod_eq_one, one_mul]
  · simp
  · intro i _
    rw [if_neg]
    rintro (h | ⟨h, -⟩) <;> omega

theorem multiplicity_succ :
    multiplicity (line :: rest) (j + 1) =
      multiplicity rest j * if InBlock (line :: rest) 0 (j + 1) then copyCount line else 1 := by
  rw [multiplicity_eq, multiplicity_eq, List.length_cons, Finset.prod_range_succ']
  simp only [lineAt_zero, lineAt_succ, inBlock_succ_iff, Nat.add_right_cancel_iff,
    (Nat.succ_ne_zero j).symm, false_or]

theorem copyCount_of_allBlank (h : Text.allBlank line = true) : copyCount line = 1 := by
  rw [copyCount, repeatCount?_of_allBlank h]

/-- **In a block** only the lines in it count. -/
theorem multiplicity_inside (hj : j < (block depth rest).length) :
    multiplicity rest j = multiplicity (block depth rest) j := by
  have hlength := congrArg List.length (block_append_afterBlock depth rest)
  rw [List.length_append] at hlength
  have hbehind : ∀ i, ¬((block depth rest).length + i = j ∨
      InBlock rest ((block depth rest).length + i) j) := by
    rintro i (h | ⟨h, -⟩) <;> omega
  rw [multiplicity_eq, multiplicity_eq, ← hlength, Finset.prod_range_add]
  simp only [if_neg (hbehind _), Finset.prod_const_one, mul_one]
  refine Finset.prod_congr rfl fun i hi ↦ ?_
  exact if_congr (or_congr_right (inBlock_inside hj))
    (congrArg copyCount (lineAt_block (Finset.mem_range.mp hi))) rfl

/-- **Behind a block** no line in it counts. -/
theorem multiplicity_behind (depth : Nat) (rest : List String) (j : Nat) :
    multiplicity rest ((block depth rest).length + j) = multiplicity (afterBlock depth rest) j := by
  have hlength := congrArg List.length (block_append_afterBlock depth rest)
  rw [List.length_append] at hlength
  rw [multiplicity_eq, multiplicity_eq, ← hlength, Finset.prod_range_add, Finset.prod_eq_one,
    one_mul]
  · refine Finset.prod_congr rfl fun i _ ↦ if_congr (or_congr Nat.add_left_cancel_iff ?_) ?_ rfl
    · rw [← inBlock_append_right (block depth rest) (afterBlock depth rest),
        block_append_afterBlock]
    · rw [lineAt_behind]
  · intro i hi
    have hi := Finset.mem_range.mp hi
    rcases hblank : Text.allBlank (lineAt rest i) with - | -
    · rw [if_neg]
      rintro (h | h)
      · omega
      · exact inBlock_across hi hblank (Nat.le_add_right _ _) h
    -- a blank line is written once, so it does not matter whether it counts
    · rw [copyCount_of_allBlank hblank, ite_self]

/-- How often the lines behind the first one are written: those in its block for each of its
copies. -/
theorem multiplicity_succ_inside (hj : j < (block (depthOf line) rest).length) :
    multiplicity (line :: rest) (j + 1) =
      copyCount line * multiplicity (block (depthOf line) rest) j := by
  rw [multiplicity_succ, if_pos (inBlock_zero_iff.mpr hj), multiplicity_inside hj, mul_comm]

theorem multiplicity_succ_behind (line : String) (rest : List String) (j : Nat) :
    multiplicity (line :: rest) ((block (depthOf line) rest).length + j + 1) =
      multiplicity (afterBlock (depthOf line) rest) j := by
  have hbehind : ¬InBlock (line :: rest) 0 ((block (depthOf line) rest).length + j + 1) := by
    rw [inBlock_zero_iff]
    omega
  rw [multiplicity_succ, if_neg hbehind, mul_one, multiplicity_behind]

theorem multiplicity_succ_of_none (h : repeatCount? line = none) (j : Nat) :
    multiplicity (line :: rest) (j + 1) = multiplicity rest j := by
  rw [multiplicity_succ, copyCount, h, ite_self, mul_one]

/-- **The lines of an expansion** are as many as the copies of all lines. -/
theorem length_expansion (lines : List String) :
    (expansion lines).length = ∑ j ∈ Finset.range lines.length, multiplicity lines j := by
  fun_induction expansion lines with
  | case1 => rfl
  | case2 line rest hcount ih =>
    rw [List.length_cons, List.length_cons, Finset.sum_range_succ', multiplicity_zero, copyCount,
      hcount, ih]
    simp only [multiplicity_succ_of_none hcount]
  | case3 line rest count hcount ihBlock ihAfter =>
    have hlength := congrArg List.length (block_append_afterBlock (depthOf line) rest)
    rw [List.length_append] at hlength
    have hcopies : copyCount line = min count maxCopies := by rw [copyCount, hcount]
    have hinside : ∑ j ∈ Finset.range (block (depthOf line) rest).length,
        multiplicity (line :: rest) (j + 1) =
          min count maxCopies * (expansion (block (depthOf line) rest)).length := by
      rw [ihBlock, Finset.mul_sum]
      refine Finset.sum_congr rfl fun j hj ↦ ?_
      rw [multiplicity_succ_inside (Finset.mem_range.mp hj), hcopies]
    rw [List.length_append, length_copies, List.length_cons, Finset.sum_range_succ', ← hlength,
      Finset.sum_range_add, hinside, multiplicity_zero, hcopies, ihAfter]
    simp only [multiplicity_succ_behind]
    rw [Nat.mul_succ, Nat.add_right_comm]

/-! ### The budget -/

/-- **The budget against a closed form.** Every line of a text is written once for each choice of a
copy of it and of every repeated line in whose block it stands. There is one list of as many lines
as these are together; an expansion answers that list when it may write so many lines, and is
refused otherwise. -/
theorem expandLines_budget (lines : List String) :
    ∃ out : List String, out.length = ∑ j ∈ Finset.range lines.length, multiplicity lines j ∧
      ∀ limit, expandLines lines limit =
        if ∑ j ∈ Finset.range lines.length, multiplicity lines j ≤ limit then .ok out
        else .error ⟨limit⟩ :=
  ⟨expansion lines, length_expansion lines, fun limit ↦ by
    rw [expandLines_eq, length_expansion]⟩

/-- A line in the block of a repeated one is written for each pair of copies; the blank line behind
the block is written once. -/
example : (List.range 4).map (multiplicity ["a_$*2", "\tb_$*3", "", "c"]) = [2, 6, 1, 1] := by
  decide +kernel

end Scaffold.Expansion
