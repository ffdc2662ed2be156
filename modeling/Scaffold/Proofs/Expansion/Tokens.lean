import Mathlib.Data.List.TakeWhile
import Scaffold.Expansion
import Scaffold.Proofs.Line.Indent

/-!
# Numbered lines

Putting a number in place of the tokens of a line keeps its indentation (`leadOf_numbered`), so a
copy stands where the line stood. Neither a line with tokens nor a copy of it is blank
(`repeatCount?_of_allBlank`, `allBlank_numbered`).

It need not use up the tokens. Where `$*` stands directly in front of tokens, the digits put in
their place make a token of it, and only there (`counts_numbered`): one new token for each such run
of tokens, with the digits of the number once for each token of the run.

Both follow from the way in which a line is cut into chunks. An induction over a text goes from
chunk to chunk (`chunks_induction`); a text goes on behind a token with something that is no digit.
-/

namespace Scaffold.Expansion

variable {c : Char} {s rest more digits : List Char} {line : String} {n : Nat}

/-! ### Chunk by chunk -/

/-- The digits of the token with which a text starts; none when it does not start with one. -/
def tokenAhead : List Char → List Char
  | '$' :: '*' :: more => more.takeWhile Text.isDigit
  | _ => []

theorem tokenAhead_of_ne (h : c ≠ '$') : tokenAhead (c :: rest) = [] := by
  unfold tokenAhead
  split
  · rename_i heq
    exact absurd (List.cons.inj heq).1 h
  · rfl

theorem tokenAhead_of_head?_ne (h : rest.head? ≠ some '*') : tokenAhead (c :: rest) = [] := by
  unfold tokenAhead
  split
  · rename_i heq
    exact absurd (by rw [(List.cons.inj heq).2]; rfl) h
  · rfl

/-- A character of a token already found is passed over. -/
theorem chunksSkipping_eq_drop (skip : Nat) (s : List Char) :
    chunksSkipping skip s = chunksSkipping 0 (s.drop skip) := by
  induction s generalizing skip with
  | nil => simp [chunksSkipping]
  | cons c s ih =>
    rcases skip with - | skip
    · rfl
    · rw [chunksSkipping, ih, List.drop_succ_cons]

theorem chunks_cons (c : Char) (rest : List Char) :
    chunksSkipping 0 (c :: rest) =
      if tokenAhead (c :: rest) = [] then .plain c :: chunksSkipping 0 rest
      else .token (tokenAhead (c :: rest)) ::
        chunksSkipping 0 (rest.drop ((tokenAhead (c :: rest)).length + 1)) := by
  unfold tokenAhead
  split
  · rename_i more heq
    obtain ⟨rfl, rfl⟩ := List.cons.inj heq
    rw [chunksSkipping, chunksSkipping_eq_drop (_ + 1)]
    simp only [List.isEmpty_iff]
  · rename_i hother
    rw [chunksSkipping]
    · rfl
    · rintro more rfl rfl
      exact hother more rfl

theorem chunks_plain (h : tokenAhead (c :: rest) = []) :
    chunksSkipping 0 (c :: rest) = .plain c :: chunksSkipping 0 rest := by
  rw [chunks_cons, if_pos h]

theorem chunks_token (hne : digits ≠ []) (hdigits : ∀ c ∈ digits, Text.isDigit c = true)
    (hmore : more.takeWhile Text.isDigit = []) :
    chunksSkipping 0 ('$' :: '*' :: (digits ++ more)) =
      .token digits :: chunksSkipping 0 more := by
  have hahead : tokenAhead ('$' :: '*' :: (digits ++ more)) = digits := by
    simp only [tokenAhead, List.takeWhile_append_of_pos hdigits, hmore, List.append_nil]
  rw [chunks_cons, hahead, if_neg hne, List.drop_succ_cons, List.drop_left]

/-- Where no dollar sign is, there is no token. -/
theorem chunks_append_of_not_mem (h : '$' ∉ s) (more : List Char) :
    chunksSkipping 0 (s ++ more) = s.map .plain ++ chunksSkipping 0 more := by
  induction s with
  | nil => rfl
  | cons c s ih =>
    rw [List.mem_cons, not_or] at h
    rw [List.cons_append, chunks_plain (tokenAhead_of_ne (Ne.symm h.1)), ih h.2, List.map_cons,
      List.cons_append]

theorem takeWhile_dropWhile_eq_nil (p : Char → Bool) (s : List Char) :
    (s.dropWhile p).takeWhile p = [] := by
  rcases hdrop : s.dropWhile p with - | ⟨c, rest⟩
  · rfl
  · have hc := List.head?_dropWhile_not p s
    simp only [hdrop, List.head?_cons] at hc
    simp [hc]

/-- **Induction over a text from chunk to chunk.** -/
theorem chunks_induction {P : List Char → Prop} (nil : P [])
    (plain : ∀ c rest, tokenAhead (c :: rest) = [] → P rest → P (c :: rest))
    (token : ∀ digits more, digits ≠ [] → (∀ c ∈ digits, Text.isDigit c = true) →
      more.takeWhile Text.isDigit = [] → P more → P ('$' :: '*' :: (digits ++ more)))
    (s : List Char) : P s := by
  induction hlength : s.length using Nat.strong_induction_on generalizing s with
  | _ _ ih =>
    subst hlength
    rcases s with - | ⟨c, rest⟩
    · exact nil
    · by_cases hahead : tokenAhead (c :: rest) = []
      · exact plain c rest hahead (ih _ (by simp) rest rfl)
      · unfold tokenAhead at hahead
        split at hahead
        · rename_i more heq
          rw [heq, ← List.takeWhile_append_dropWhile (p := Text.isDigit) (l := more)]
          refine token _ _ hahead (fun c hc ↦ List.mem_takeWhile_imp hc)
            (takeWhile_dropWhile_eq_nil _ _) (ih _ ?_ _ rfl)
          have := (List.dropWhile_sublist (l := more) Text.isDigit).length_le
          rw [heq, List.length_cons, List.length_cons]
          omega
        · exact absurd rfl hahead

/-! ### Digits in place of tokens -/

/-- A text with `digits` in place of each of its tokens. -/
def replaced (digits s : List Char) : List Char :=
  (chunksSkipping 0 s).flatMap fun
    | .plain c => [c]
    | .token _ => digits

theorem toList_numbered (line : String) (n : Nat) :
    (numbered line n).toList = replaced (Nat.toDigits 10 n) line.toList := by
  rw [numbered, String.toList_ofList, Nat.toString_eq_repr, Nat.toList_repr]
  rfl

theorem replaced_nil (digits : List Char) : replaced digits [] = [] := rfl

theorem replaced_plain (digits : List Char) (h : tokenAhead (c :: rest) = []) :
    replaced digits (c :: rest) = c :: replaced digits rest := by
  rw [replaced, chunks_plain h]
  rfl

theorem replaced_token (new : List Char) (hne : digits ≠ [])
    (hdigits : ∀ c ∈ digits, Text.isDigit c = true) (hmore : more.takeWhile Text.isDigit = []) :
    replaced new ('$' :: '*' :: (digits ++ more)) = new ++ replaced new more := by
  rw [replaced, chunks_token hne hdigits hmore]
  rfl

theorem replaced_append_of_not_mem (digits : List Char) (h : '$' ∉ s) (more : List Char) :
    replaced digits (s ++ more) = s ++ replaced digits more := by
  rw [replaced, chunks_append_of_not_mem h, List.flatMap_append, List.flatMap_map,
    List.flatMap_singleton', replaced]

theorem isDigit_of_mem_toDigits (h : c ∈ Nat.toDigits 10 n) : Text.isDigit c = true :=
  Text.isDigit_of_isAsciiDigit (Nat.isDigit_of_mem_toDigits (by decide) (by decide) h)

theorem ne_of_isDigit {d : Char} (hc : Text.isDigit c = true) (hd : Text.isDigit d = false) :
    c ≠ d := by
  rintro rfl
  rw [hc] at hd
  cases hd

/-- Digits are put where a dollar sign was, and neither indents a line. -/
theorem takeWhile_replaced {p : Char → Bool} {new : List Char} (hnew : new ≠ [])
    (hdigits : ∀ c ∈ new, p c = false) (hdollar : p '$' = false) (s : List Char) :
    (replaced new s).takeWhile p = s.takeWhile p := by
  induction s using chunks_induction with
  | nil => rfl
  | plain c rest hplain ih =>
    rw [replaced_plain new hplain, List.takeWhile_cons, List.takeWhile_cons, ih]
  | token digits more hne hall hmore ih =>
    obtain ⟨d, tail, rfl⟩ := List.exists_cons_of_ne_nil hnew
    rw [replaced_token _ hne hall hmore]
    simp [hdigits d List.mem_cons_self, hdollar]

theorem takeWhile_isIndentChar_replaced (n : Nat) (s : List Char) :
    (replaced (Nat.toDigits 10 n) s).takeWhile Indent.isIndentChar =
      s.takeWhile Indent.isIndentChar := by
  refine takeWhile_replaced Nat.toDigits_ne_nil (fun c hc ↦ ?_) (by decide) s
  rw [Indent.isIndentChar, Bool.or_eq_false_iff, beq_eq_false_iff_ne, beq_eq_false_iff_ne]
  exact ⟨ne_of_isDigit (isDigit_of_mem_toDigits hc) (by decide),
    ne_of_isDigit (isDigit_of_mem_toDigits hc) (by decide)⟩

/-- **A copy is indented like the line.** -/
theorem leadOf_numbered (line : String) (n : Nat) : leadOf (numbered line n) = leadOf line := by
  rw [leadOf, toList_numbered, takeWhile_isIndentChar_replaced, leadOf]

theorem depthOf_numbered (line : String) (n : Nat) : depthOf (numbered line n) = depthOf line := by
  rw [depthOf, measure_eq, leadOf_numbered, ← measure_eq, depthOf]

/-! ### Counts -/

/-- The counts of the tokens of a text. -/
def countsIn (s : List Char) : List Nat :=
  (chunksSkipping 0 s).filterMap fun
    | .plain _ => none
    | .token digits => some (countOf digits)

theorem counts_eq (line : String) : counts line = countsIn line.toList := rfl

theorem countsIn_plain (h : tokenAhead (c :: rest) = []) :
    countsIn (c :: rest) = countsIn rest := by
  rw [countsIn, chunks_plain h]
  rfl

theorem countsIn_token (hne : digits ≠ []) (hdigits : ∀ c ∈ digits, Text.isDigit c = true)
    (hmore : more.takeWhile Text.isDigit = []) :
    countsIn ('$' :: '*' :: (digits ++ more)) = countOf digits :: countsIn more := by
  rw [countsIn, chunks_token hne hdigits hmore]
  rfl

theorem countsIn_append_of_not_mem (h : '$' ∉ s) (more : List Char) :
    countsIn (s ++ more) = countsIn more := by
  rw [countsIn, chunks_append_of_not_mem h, List.filterMap_append, List.filterMap_map]
  simp [countsIn]

/-- Digits at the start of a text are no token. -/
theorem countsIn_digits_append (hdigits : ∀ c ∈ digits, Text.isDigit c = true) (s : List Char) :
    countsIn (digits ++ s) = countsIn s :=
  countsIn_append_of_not_mem (fun hdollar ↦ absurd (hdigits _ hdollar) (by decide)) s

/-- **A token is opened** by `$*`, if digits follow. -/
theorem countsIn_opening (s : List Char) :
    countsIn ('$' :: '*' :: s) =
      if s.takeWhile Text.isDigit = [] then countsIn s
      else countOf (s.takeWhile Text.isDigit) :: countsIn s := by
  split
  · rename_i hnone
    rw [countsIn_plain (by simpa [tokenAhead] using hnone),
      countsIn_plain (tokenAhead_of_ne (by decide))]
  · rename_i hsome
    have hsplit := List.takeWhile_append_dropWhile (p := Text.isDigit) (l := s)
    have hdigits : ∀ c ∈ s.takeWhile Text.isDigit, Text.isDigit c = true :=
      fun c hc ↦ List.mem_takeWhile_imp hc
    have hstop : (s.dropWhile Text.isDigit).takeWhile Text.isDigit = [] :=
      takeWhile_dropWhile_eq_nil _ _
    calc countsIn ('$' :: '*' :: s)
        = countsIn ('$' :: '*' :: (s.takeWhile Text.isDigit ++ s.dropWhile Text.isDigit)) := by
          rw [hsplit]
      _ = countOf (s.takeWhile Text.isDigit) :: countsIn (s.dropWhile Text.isDigit) :=
          countsIn_token hsome hdigits hstop
      _ = countOf (s.takeWhile Text.isDigit) :: countsIn s := by
          rw [← countsIn_digits_append hdigits, hsplit]

/-- **A line is repeated** as often as all of its tokens say. -/
theorem repeatCount?_eq_some_iff {count : Nat} :
    repeatCount? line = some count ↔ counts line ≠ [] ∧ ∀ k ∈ counts line, k = count := by
  rw [repeatCount?]
  rcases counts line with - | ⟨first, others⟩
  · simp
  · rw [and_iff_right (List.cons_ne_nil first others), List.forall_mem_cons]
    dsimp only
    split
    · rename_i hall
      rw [Option.some.injEq, iff_self_and]
      rintro rfl k hk
      simpa using List.all_eq_true.mp hall k hk
    · rename_i hother
      refine iff_of_false nofun fun ⟨hfirst, hall⟩ ↦ hother (List.all_eq_true.mpr fun k hk ↦ ?_)
      rw [hfirst, hall k hk]
      exact beq_self_eq_true count

/-- It is not repeated when it has no tokens or two of them disagree. -/
theorem repeatCount?_eq_none_iff : repeatCount? line = none ↔
    counts line = [] ∨ ∃ a ∈ counts line, ∃ b ∈ counts line, a ≠ b := by
  simp only [Option.eq_none_iff_forall_ne_some, ne_eq, repeatCount?_eq_some_iff]
  rcases counts line with - | ⟨first, others⟩
  · simp
  · constructor
    · intro h
      by_contra hsame
      refine h first ⟨List.cons_ne_nil first others, fun k hk ↦ ?_⟩
      by_contra hne
      exact hsame (.inr ⟨k, hk, first, List.mem_cons_self, hne⟩)
    · rintro (hnil | ⟨a, ha, b, hb, hne⟩) count ⟨-, hall⟩
      · cases hnil
      · exact hne ((hall a ha).trans (hall b hb).symm)

/-- There are no tokens in blanks. -/
theorem countsIn_of_allBlank (h : ∀ c ∈ s, Text.isBlank c = true) : countsIn s = [] := by
  induction s using chunks_induction with
  | nil => rfl
  | plain c rest hplain ih =>
    rw [countsIn_plain hplain, ih (List.forall_mem_cons.mp h).2]
  | token digits more hne hall hmore ih =>
    exact absurd (h '$' List.mem_cons_self) (by decide)

/-- **A blank line is not repeated.** -/
theorem repeatCount?_of_allBlank (h : Text.allBlank line = true) : repeatCount? line = none := by
  have hnil : counts line = [] := countsIn_of_allBlank (List.all_eq_true.mp h)
  rw [repeatCount?, hnil]

theorem allBlank_of_repeatCount? {count : Nat} (h : repeatCount? line = some count) :
    Text.allBlank line = false := by
  rw [Bool.eq_false_iff]
  intro hblank
  rw [repeatCount?_of_allBlank hblank] at h
  cases h

/-- Where digits stand in place of the tokens, nothing becomes blank. -/
theorem isBlank_of_replaced {new : List Char} (hnew : new ≠ [])
    (hdigits : ∀ c ∈ new, Text.isBlank c = false)
    (h : ∀ c ∈ replaced new s, Text.isBlank c = true) : ∀ c ∈ s, Text.isBlank c = true := by
  induction s using chunks_induction with
  | nil => exact h
  | plain c rest hplain ih =>
    rw [replaced_plain new hplain] at h
    obtain ⟨hc, hrest⟩ := List.forall_mem_cons.mp h
    exact List.forall_mem_cons.mpr ⟨hc, ih hrest⟩
  | token digits more hne hall hmore ih =>
    obtain ⟨d, tail, rfl⟩ := List.exists_cons_of_ne_nil hnew
    rw [replaced_token _ hne hall hmore] at h
    have hd := h d (by simp)
    rw [hdigits d List.mem_cons_self] at hd
    cases hd

theorem isBlank_of_mem_toDigits (h : c ∈ Nat.toDigits 10 n) : Text.isBlank c = false := by
  have hdigit := Nat.isDigit_of_mem_toDigits (by decide) (by decide) h
  simp only [Char.isDigit, Bool.and_eq_true, decide_eq_true_eq] at hdigit
  have hlow : 48 ≤ c.toNat := hdigit.1
  have hhigh : c.toNat ≤ 57 := hdigit.2
  simp [Text.isBlank]
  omega

/-- **A copy of a repeated line is not blank.** -/
theorem allBlank_numbered {count : Nat} (h : repeatCount? line = some count) (n : Nat) :
    Text.allBlank (numbered line n) = false := by
  rw [Bool.eq_false_iff]
  intro hblank
  rw [Text.allBlank, toList_numbered, List.all_eq_true] at hblank
  have hline : Text.allBlank line = true := List.all_eq_true.mpr
    (isBlank_of_replaced Nat.toDigits_ne_nil (fun _ ↦ isBlank_of_mem_toDigits) hblank)
  rw [repeatCount?_of_allBlank hline] at h
  cases h

/-- A text with one digit in place of each token is shorter by two characters for each of them. -/
theorem length_replaced_le {d : Char} (s : List Char) :
    (replaced [d] s).length + 2 * (countsIn s).length ≤ s.length := by
  induction s using chunks_induction with
  | nil => simp [replaced_nil, countsIn, chunksSkipping]
  | plain c rest hplain ih =>
    rw [replaced_plain _ hplain, countsIn_plain hplain, List.length_cons, List.length_cons]
    omega
  | token digits more hne hall hmore ih =>
    have hpos := List.length_pos_iff.mpr hne
    rw [replaced_token _ hne hall hmore, countsIn_token hne hall hmore]
    simp only [List.length_cons, List.length_append, List.length_nil]
    omega

/-- **The first copy of a repeated line is another line.** -/
theorem numbered_one_ne {count : Nat} (h : repeatCount? line = some count) :
    numbered line 1 ≠ line := by
  intro hsame
  have hle := length_replaced_le (d := '1') line.toList
  rw [show ['1'] = Nat.toDigits 10 1 from rfl, ← toList_numbered, hsame, ← counts_eq] at hle
  have hnil : counts line = [] := List.length_eq_zero_iff.mp (by omega)
  rw [repeatCount?, hnil] at h
  cases h

/-! ### New tokens -/

/-- The number of tokens with which chunks start. -/
def tokensAhead : List Chunk → Nat
  | .token _ :: rest => tokensAhead rest + 1
  | _ => 0

theorem tokensAhead_plain (c : Char) (rest : List Chunk) : tokensAhead (.plain c :: rest) = 0 := rfl

/-- The number of tokens right behind `$*`, when chunks start with that. -/
def opened? : List Chunk → Option Nat
  | .plain '$' :: .plain '*' :: rest =>
    if tokensAhead rest = 0 then none else some (tokensAhead rest)
  | _ => none

/-- For each `$*` that stands directly in front of tokens, the number of tokens in that run. -/
def reopened : List Chunk → List Nat
  | [] => []
  | chunk :: rest => (opened? (chunk :: rest)).toList ++ reopened rest

/-- The count of a new token: what the digits of `n` say that are written `k` times. -/
def writtenCount (n k : Nat) : Nat := countOf (List.replicate k (Nat.toDigits 10 n)).flatten

/-- A text with digits in place of its tokens starts with those of the tokens at its start. -/
theorem takeWhile_isDigit_replaced {new : List Char} (hnew : ∀ c ∈ new, Text.isDigit c = true)
    (h : s.takeWhile Text.isDigit = []) :
    (replaced new s).takeWhile Text.isDigit =
      (List.replicate (tokensAhead (chunksSkipping 0 s)) new).flatten := by
  induction s using chunks_induction with
  | nil => rfl
  | plain c rest hplain ih =>
    rw [replaced_plain new hplain, chunks_plain hplain, tokensAhead_plain, List.replicate_zero]
    rcases hc : Text.isDigit c with - | -
    · simp [hc]
    · simp [hc] at h
  | token digits more hne hall hmore ih =>
    rw [replaced_token new hne hall hmore, chunks_token hne hall hmore, tokensAhead,
      List.takeWhile_append_of_pos hnew, ih hmore, List.replicate_succ, List.flatten_cons]

theorem head?_replaced_ne {new : List Char} (hne : new ≠ [])
    (hnew : ∀ c ∈ new, Text.isDigit c = true) (h : s.head? ≠ some '*') :
    (replaced new s).head? ≠ some '*' := by
  induction s using chunks_induction with
  | nil => nofun
  | plain c rest hplain ih =>
    rw [replaced_plain new hplain]
    exact h
  | token digits more hdigits hall hmore ih =>
    obtain ⟨d, tail, rfl⟩ := List.exists_cons_of_ne_nil hne
    rw [replaced_token _ hdigits hall hmore, List.cons_append, List.head?_cons]
    simpa using ne_of_isDigit (hnew d List.mem_cons_self) (by decide)

theorem opened?_eq_none (h : ¬(c = '$' ∧ rest.head? = some '*')) :
    opened? (.plain c :: chunksSkipping 0 rest) = none := by
  unfold opened?
  split
  · rename_i heq
    obtain ⟨hc, hrest⟩ := List.cons.inj heq
    refine absurd ⟨Chunk.plain.inj hc, ?_⟩ h
    rcases rest with - | ⟨c', rest⟩
    · cases hrest
    · rw [chunks_cons] at hrest
      split at hrest
      · rw [Chunk.plain.inj (List.cons.inj hrest).1]
        rfl
      · cases (List.cons.inj hrest).1
  · rfl

/-- **The tokens of a text with digits in place of its tokens** are opened by what was left of
it. -/
theorem countsIn_replaced {new : List Char} (hne : new ≠ [])
    (hnew : ∀ c ∈ new, Text.isDigit c = true) (s : List Char) :
    countsIn (replaced new s) =
      (reopened (chunksSkipping 0 s)).map fun k ↦ countOf (List.replicate k new).flatten := by
  induction s using chunks_induction with
  | nil => rfl
  | plain c rest hplain ih =>
    rw [replaced_plain new hplain, chunks_plain hplain, reopened, List.map_append, ← ih]
    by_cases hopen : c = '$' ∧ rest.head? = some '*'
    -- `$*` stays, and the digits of the tokens behind it are there now
    · obtain ⟨rfl, hstar⟩ := hopen
      obtain ⟨more, rfl⟩ : ∃ more, rest = '*' :: more := by
        rcases rest with - | ⟨c, more⟩
        · cases hstar
        · exact ⟨more, by rw [Option.some.inj hstar]⟩
      have hmore : more.takeWhile Text.isDigit = [] := hplain
      have hstar : tokenAhead ('*' :: more) = [] := tokenAhead_of_ne (by decide)
      rw [replaced_plain new hstar, chunks_plain hstar, countsIn_opening,
        takeWhile_isDigit_replaced hnew hmore, countsIn_plain (tokenAhead_of_ne (by decide)),
        opened?]
      rcases tokensAhead (chunksSkipping 0 more) with - | k
      · rfl
      · have hfilled : (List.replicate (k + 1) new).flatten ≠ [] := by
          simp [List.replicate_succ, hne]
        simp [hfilled]
    · have hahead : tokenAhead (c :: replaced new rest) = [] := by
        by_cases hdollar : c = '$'
        · exact tokenAhead_of_head?_ne
            (head?_replaced_ne hne hnew fun hstar ↦ hopen ⟨hdollar, hstar⟩)
        · exact tokenAhead_of_ne hdollar
      rw [countsIn_plain hahead, opened?_eq_none hopen]
      rfl
  | token digits more hdigits hall hmore ih =>
    rw [replaced_token new hdigits hall hmore, chunks_token hdigits hall hmore, reopened,
      countsIn_digits_append hnew, ih]
    rfl

/-- **The counts of a copy.** -/
theorem counts_numbered (line : String) (n : Nat) :
    counts (numbered line n) = (reopened (chunks line)).map (writtenCount n) := by
  rw [counts_eq, toList_numbered,
    countsIn_replaced Nat.toDigits_ne_nil fun _ hc ↦ isDigit_of_mem_toDigits hc]
  rfl

theorem pos_of_mem_reopened {cs : List Chunk} {k : Nat} (h : k ∈ reopened cs) : 0 < k := by
  induction cs with
  | nil => cases h
  | cons chunk cs ih =>
    rcases List.mem_append.mp h with h | h
    · unfold opened? at h
      split at h
      · split at h
        · cases h
        · simp at h
          omega
      · cases h
    · exact ih h

theorem opened?_isSome_iff {cs : List Chunk} :
    (opened? cs).isSome = true ↔ ∃ digits after,
      cs = .plain '$' :: .plain '*' :: .token digits :: after := by
  constructor
  · intro h
    unfold opened? at h
    split at h
    · rename_i rest
      rcases rest with - | ⟨c | digits, after⟩
      · simp [tokensAhead] at h
      · simp [tokensAhead] at h
      · exact ⟨digits, after, rfl⟩
    · cases h
  · rintro ⟨digits, after, rfl⟩
    simp [opened?, tokensAhead]

/-- New tokens arise where `$*` stands directly in front of a token. -/
theorem reopened_ne_nil_iff {cs : List Chunk} :
    reopened cs ≠ [] ↔ ∃ before digits after,
      cs = before ++ .plain '$' :: .plain '*' :: .token digits :: after := by
  induction cs with
  | nil => simp [reopened]
  | cons chunk rest ih =>
    have hopened : (opened? (chunk :: rest)).toList ≠ [] ↔
        (opened? (chunk :: rest)).isSome = true := by
      rcases opened? (chunk :: rest) with - | k <;> simp
    rw [reopened, ne_eq, List.append_eq_nil_iff, Classical.not_and_iff_not_or_not, ← ne_eq,
      hopened, ← ne_eq, ih, opened?_isSome_iff]
    constructor
    · rintro (⟨digits, after, h⟩ | ⟨before, digits, after, rfl⟩)
      · exact ⟨[], digits, after, h⟩
      · exact ⟨chunk :: before, digits, after, rfl⟩
    · rintro ⟨_ | ⟨chunk', before⟩, digits, after, h⟩
      · exact .inl ⟨digits, after, h⟩
      · exact .inr ⟨before, digits, after, (List.cons.inj h).2⟩

/-- A number that is not zero stays one when digits are written behind it. -/
theorem le_foldl_digits (digits : List Char) (n : Nat) :
    n ≤ digits.foldl (fun n c ↦ 10 * n + (c.toNat - 48)) n := by
  induction digits generalizing n with
  | nil => exact Nat.le_refl n
  | cons c digits ih =>
    rw [List.foldl_cons]
    exact Nat.le_trans (by omega) (ih _)

/-- The count of a new token is not zero. -/
theorem writtenCount_pos {k : Nat} (hn : 0 < n) (hk : 0 < k) : 0 < writtenCount n k := by
  obtain ⟨k, rfl⟩ : ∃ m, k = m + 1 := ⟨k - 1, by omega⟩
  have hdigits : ∀ c ∈ (List.replicate (k + 1) (Nat.toDigits 10 n)).flatten, c.isDigit = true := by
    intro c hc
    obtain ⟨digits, hdigits, hc⟩ := List.mem_flatten.mp hc
    rw [(List.mem_replicate.mp hdigits).2] at hc
    exact Nat.isDigit_of_mem_toDigits (by decide) (by decide) hc
  have hvalue : Text.decimalValue? (List.replicate (k + 1) (Nat.toDigits 10 n)).flatten =
      some ((List.replicate k (Nat.toDigits 10 n)).flatten.foldl
        (fun n c ↦ 10 * n + (c.toNat - 48)) n) := by
    have hnonempty : (List.replicate (k + 1) (Nat.toDigits 10 n)).flatten.isEmpty = false := by
      simp [List.replicate_succ, Nat.toDigits_ne_nil]
    have hfirst : (Nat.toDigits 10 n).foldl (fun n c ↦ 10 * n + (c.toNat - 48)) 0 = n :=
      Nat.ofDigitChars_ten_toDigits
    rw [Text.decimalValue?, if_pos (by simp [hnonempty, List.all_eq_true.mpr hdigits]),
      List.replicate_succ, List.flatten_cons, List.foldl_append, hfirst]
  have hle := le_foldl_digits (List.replicate k (Nat.toDigits 10 n)).flatten n
  rw [writtenCount, countOf, hvalue]
  exact Nat.lt_min.mpr ⟨by omega, by decide⟩

/-- **A copy that is repeated again** is repeated at least once. -/
theorem pos_of_repeatCount?_numbered {count : Nat} (hn : 0 < n)
    (h : repeatCount? (numbered line n) = some count) : 0 < count := by
  rw [repeatCount?_eq_some_iff, counts_numbered] at h
  obtain ⟨k, hk⟩ := List.exists_mem_of_ne_nil _ h.1
  rw [← h.2 k hk]
  obtain ⟨j, hj, rfl⟩ := List.mem_map.mp hk
  exact writtenCount_pos hn (pos_of_mem_reopened hj)

end Scaffold.Expansion
