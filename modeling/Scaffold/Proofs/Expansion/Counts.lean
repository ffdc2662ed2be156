import Mathlib.Data.Nat.Digits.Defs
import Scaffold.Proofs.Expansion.Tokens

/-!
# What the digits of a token say

A token stands wherever `$*` is followed by digits, and it has all of them (`HasToken`). That is
said of the text alone, and cutting it into chunks finds these tokens and no others
(`mem_tokensIn_iff`), because neither the star nor a digit can open a token.

Digits of ASCII denote a number by their places (`denoted`), with any number of zeros in front. The
count that is read is that number as long as it fits into 64 bits; larger numbers are all read as
`hugeCount` (`countOf_eq_min`). Nothing is lost by that in the number of copies, of which there are
never so many. But numbers are compared after they have been read, so two tokens agree as well when
both are too large, whatever they say (`repeatCount?_reads_numbers`, `huge_counts_agree`).
-/

namespace Scaffold.Expansion

variable {c : Char} {s rest more digits : List Char} {line : String}

/-! ### Tokens of a text -/

/-- Somewhere in the text the digits stand behind `$*`, and no other digit follows them. -/
structure HasToken (s digits : List Char) : Prop where
  ne_nil : digits ≠ []
  isDigit : ∀ c ∈ digits, Text.isDigit c = true
  stands : ∃ before after, s = before ++ '$' :: '*' :: (digits ++ after) ∧
    after.takeWhile Text.isDigit = []

/-- A token starts with the text or stands further behind. -/
theorem hasToken_cons_iff : HasToken (c :: rest) digits ↔
    digits ≠ [] ∧ tokenAhead (c :: rest) = digits ∨ HasToken rest digits := by
  constructor
  · rintro ⟨hne, hdigits, before, after, hstands, hafter⟩
    rcases before with - | ⟨c', before⟩
    · refine .inl ⟨hne, ?_⟩
      rw [hstands, List.nil_append, tokenAhead, List.takeWhile_append_of_pos hdigits, hafter,
        List.append_nil]
    · exact .inr ⟨hne, hdigits, before, after, (List.cons.inj hstands).2, hafter⟩
  · rintro (⟨hne, hahead⟩ | ⟨hne, hdigits, before, after, rfl, hafter⟩)
    · unfold tokenAhead at hahead
      split at hahead
      · rename_i more heq
        subst hahead
        refine ⟨hne, fun c hc ↦ List.mem_takeWhile_imp hc, [], more.dropWhile Text.isDigit, ?_,
          takeWhile_dropWhile_eq_nil _ _⟩
        rw [heq, List.takeWhile_append_dropWhile, List.nil_append]
      · exact absurd hahead.symm hne
    · exact ⟨hne, hdigits, c :: before, after, rfl, hafter⟩

/-- Where no dollar sign is, no token starts. -/
theorem hasToken_append_of_not_mem (h : '$' ∉ s) (more : List Char) :
    HasToken (s ++ more) digits ↔ HasToken more digits := by
  induction s with
  | nil => rfl
  | cons c s ih =>
    rw [List.mem_cons, not_or] at h
    rw [List.cons_append, hasToken_cons_iff, tokenAhead_of_ne (Ne.symm h.1), ih h.2]
    exact or_iff_right fun hnil ↦ hnil.1 hnil.2.symm

/-- The digits of the tokens that are found when a text is cut into chunks. -/
def tokensIn (s : List Char) : List (List Char) :=
  (chunksSkipping 0 s).filterMap fun
    | .plain _ => none
    | .token digits => some digits

theorem countsIn_eq_map (s : List Char) : countsIn s = (tokensIn s).map countOf := by
  rw [countsIn, tokensIn, List.map_filterMap]
  refine congrArg (List.filterMap · _) (funext fun chunk ↦ ?_)
  cases chunk <;> rfl

/-- **The tokens that are found** are those that stand in the text. -/
theorem mem_tokensIn_iff : digits ∈ tokensIn s ↔ HasToken s digits := by
  induction s using chunks_induction with
  | nil =>
    refine iff_of_false nofun ?_
    rintro ⟨-, -, before, after, hstands, -⟩
    simp at hstands
  | plain c rest hplain ih =>
    rw [hasToken_cons_iff, hplain, ← ih, tokensIn, chunks_plain hplain]
    exact (or_iff_right fun hnil ↦ hnil.1 hnil.2.symm).symm
  | token found more hne hall hmore ih =>
    have hfound : tokenAhead ('$' :: '*' :: (found ++ more)) = found := by
      rw [tokenAhead, List.takeWhile_append_of_pos hall, hmore, List.append_nil]
    -- no other token starts before the digits end
    have hinside : '$' ∉ '*' :: found := by
      rw [List.mem_cons, not_or]
      exact ⟨by decide, fun hmem ↦ ne_of_isDigit (hall _ hmem) (by decide) rfl⟩
    rw [hasToken_cons_iff, hfound, ← List.cons_append, hasToken_append_of_not_mem hinside, ← ih,
      tokensIn, List.cons_append, chunks_token hne hall hmore]
    show digits ∈ found :: tokensIn more ↔ _
    rw [List.mem_cons]
    exact or_congr_left ⟨fun heq ↦ ⟨heq ▸ hne, heq.symm⟩, fun h ↦ h.2.symm⟩

instance : Decidable (HasToken s digits) := decidable_of_iff _ mem_tokensIn_iff

/-- The counts of a line are those of its tokens. -/
theorem mem_counts_iff {k : Nat} :
    k ∈ counts line ↔ ∃ digits, HasToken line.toList digits ∧ countOf digits = k := by
  rw [counts_eq, countsIn_eq_map, List.mem_map]
  simp only [mem_tokensIn_iff]

theorem counts_eq_nil_iff : counts line = [] ↔ ∀ digits, ¬HasToken line.toList digits := by
  rw [counts_eq, countsIn_eq_map, List.map_eq_nil_iff, List.eq_nil_iff_forall_not_mem]
  simp only [mem_tokensIn_iff]

/-- The tokens of the text are written in digits of ASCII. -/
def AsciiTokens (s : List Char) : Prop :=
  ∀ digits, HasToken s digits → ∀ c ∈ digits, c.isDigit = true

theorem all_tokensIn_iff :
    ((tokensIn s).all fun digits ↦ digits.all Char.isDigit) = true ↔ AsciiTokens s := by
  simp only [List.all_eq_true, mem_tokensIn_iff, AsciiTokens]

instance : Decidable (AsciiTokens s) := decidable_of_iff _ all_tokensIn_iff

/-! ### Numbers -/

/-- The number that digits of ASCII denote: the last one counts ones, the one before it tens. -/
def denoted (digits : List Char) : Nat :=
  Nat.ofDigits 10 (digits.map fun c ↦ c.toNat - 48).reverse

/-- **Digits are read from the left** to the number that they denote. -/
theorem decimalValue?_eq (hne : digits ≠ []) (hascii : ∀ c ∈ digits, c.isDigit = true) :
    Text.decimalValue? digits = some (denoted digits) := by
  rw [Text.decimalValue?, if_pos (by simpa [hne] using hascii), denoted, Nat.ofDigits_eq_foldr,
    List.foldr_reverse, List.foldl_map]
  simp only [Nat.cast_id, Nat.add_comm]

/-- **The count of a token** is the number that its digits denote, or `hugeCount` if that is
smaller. -/
theorem countOf_eq_min (hne : digits ≠ []) (hascii : ∀ c ∈ digits, c.isDigit = true) :
    countOf digits = min (denoted digits) hugeCount := by
  rw [countOf, decimalValue?_eq hne hascii]

/-- More copies than are written are never asked for by a number that is too large to be read. -/
theorem min_hugeCount_maxCopies (n : Nat) : min (min n hugeCount) maxCopies = min n maxCopies := by
  rw [Nat.min_assoc, Nat.min_eq_right (by decide : maxCopies ≤ hugeCount)]

/-- Two numbers are read as different ones if they differ and one of them can be read. -/
theorem min_hugeCount_ne_iff {a b : Nat} : min a hugeCount ≠ min b hugeCount ↔
    a ≠ b ∧ (a < hugeCount ∨ b < hugeCount) := by
  omega

/-- **Repeat counts are read as numbers.** A line whose tokens are written in digits of ASCII is not
repeated exactly if it has no token, or two of its tokens denote different numbers that are not both
too large to be read. Otherwise, as far as copies are written, its count is the number that each of
its tokens denotes. -/
theorem repeatCount?_reads_numbers (hascii : AsciiTokens line.toList) :
    (repeatCount? line = none ↔ (∀ digits, ¬HasToken line.toList digits) ∨
      ∃ digits digits', HasToken line.toList digits ∧ HasToken line.toList digits' ∧
        denoted digits ≠ denoted digits' ∧
        (denoted digits < hugeCount ∨ denoted digits' < hugeCount)) ∧
    ∀ count, repeatCount? line = some count → ∀ digits, HasToken line.toList digits →
      min count maxCopies = min (denoted digits) maxCopies := by
  have hcount : ∀ digits, HasToken line.toList digits →
      countOf digits = min (denoted digits) hugeCount :=
    fun digits h ↦ countOf_eq_min h.ne_nil (hascii digits h)
  constructor
  · rw [repeatCount?_eq_none_iff, counts_eq_nil_iff]
    refine or_congr_right ?_
    simp only [← min_hugeCount_ne_iff]
    constructor
    · rintro ⟨a, ha, b, hb, hne⟩
      obtain ⟨digits, h, rfl⟩ := mem_counts_iff.mp ha
      obtain ⟨digits', h', rfl⟩ := mem_counts_iff.mp hb
      rw [hcount digits h, hcount digits' h'] at hne
      exact ⟨digits, digits', h, h', hne⟩
    · rintro ⟨digits, digits', h, h', hne⟩
      rw [← hcount digits h, ← hcount digits' h'] at hne
      exact ⟨_, mem_counts_iff.mpr ⟨digits, h, rfl⟩, _, mem_counts_iff.mpr ⟨digits', h', rfl⟩, hne⟩
  · intro count hrepeat digits h
    have hread := (repeatCount?_eq_some_iff.mp hrepeat).2 _ (mem_counts_iff.mpr ⟨digits, h, rfl⟩)
    rw [← hread, hcount digits h, min_hugeCount_maxCopies]

/-- Two spellings of a number that is too large to be read ask for as many copies as are written. -/
theorem repeatCount?_reads_numbers_zeros :
    let line := "a$*0018446744073709551616b$*18446744073709551616"
    AsciiTokens line.toList ∧ ∃ count, repeatCount? line = some count ∧
      min count maxCopies = min (denoted "18446744073709551616".toList) maxCopies := by
  intro line
  have hascii : AsciiTokens line.toList := by decide +kernel
  have hrepeat : repeatCount? line = some hugeCount := by decide +kernel
  exact ⟨hascii, hugeCount, hrepeat,
    (repeatCount?_reads_numbers hascii).2 hugeCount hrepeat _ (by decide +kernel)⟩

/-- Two different numbers agree when both are too large to be read. -/
theorem huge_counts_agree :
    let line := "a$*18446744073709551616b$*99999999999999999999"
    AsciiTokens line.toList ∧
      ¬(repeatCount? line = none ↔ (∀ digits, ¬HasToken line.toList digits) ∨
        ∃ digits digits', HasToken line.toList digits ∧ HasToken line.toList digits' ∧
          denoted digits ≠ denoted digits') := by
  intro line
  have hrepeat : repeatCount? line = some hugeCount := by decide +kernel
  refine ⟨by decide +kernel, fun hiff ↦ ?_⟩
  rw [hiff.mpr (.inr ⟨"18446744073709551616".toList, "99999999999999999999".toList,
    by decide +kernel, by decide +kernel, by decide +kernel⟩)] at hrepeat
  cases hrepeat

end Scaffold.Expansion
