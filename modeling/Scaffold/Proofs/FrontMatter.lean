import Mathlib.Data.List.TakeWhile
import Scaffold.FrontMatter.Reader

/-!
# Where front matter ends

Front matter is closed by the first line of dashes behind the one that opens it. `Fenced` says this
of what stands behind the opening line: some lines, none of them a line of dashes (`isFence`), then
one that is, then the structure. From the start of a line, the reader that looks for a closing line
finds this one and no other (`untilClosing?_of_fenced`), and none in a text that is not fenced.

That reader wants a line end in front of the closing line, which the opening line has already used
up. So when the closing line comes first, it is taken for a line of the block, and the block goes on
to the next line of dashes; only when there is none is the block empty (`block?_of_fenced_nil`). The
answer is right then if the texts of both blocks are refused, and in no other case
(`extractWith_eq_iff`).

A text whose first line that is not blank (`firstWritten`) is no line of dashes has no front matter
(`extractWith_of_not_fence`).
-/

namespace Scaffold.FrontMatter

variable {c : Char} {s line fence text inside rest blanks opening block : List Char}
  {lines earlier : List (List Char)}

/-! ### Fenced texts -/

/-- Whether a line is three dashes, with nothing but spaces and tabs behind them. -/
def isFence : List Char → Bool
  | '-' :: '-' :: '-' :: pad => pad.all fun c ↦ c == ' ' || c == '\t'
  | _ => false

/-- The text is `lines`, none of which is a line of dashes, then the line of dashes `fence`, then
`rest`. The line of dashes may end with the text. -/
inductive Fenced : List Char → List (List Char) → List Char → List Char → Prop where
  | fence {fence : List Char} (hfence : isFence fence = true) (rest : List Char) :
    Fenced (fence ++ '\n' :: rest) [] fence rest
  | last {fence : List Char} (hfence : isFence fence = true) : Fenced fence [] fence []
  | line {line text fence rest : List Char} {lines : List (List Char)} (hone : '\n' ∉ line)
    (hline : isFence line = false) (h : Fenced text lines fence rest) :
    Fenced (line ++ '\n' :: text) (line :: lines) fence rest

/-- No line of the text ends in a carriage return. -/
def LineFeeds (text : List Char) : Prop := ¬['\r', '\n'] <:+: text

instance : DecidablePred LineFeeds := fun text ↦
  inferInstanceAs (Decidable (¬['\r', '\n'] <:+: text))

/-- Front matter and structure of `text` when its block is `block` and `rest` stands behind it: a
block that is refused leaves the text as it is. -/
def answered (readBlock : String → Option FrontMatter) (text : String) (block rest : List Char) :
    Option FrontMatter × String :=
  match readBlock (String.ofList block) with
  | some f => (some f, String.ofList rest)
  | none => (none, text)

/-- What is shown of a text without line feeds, and of such a text with a line feed and another
text behind it, is shown of every text. -/
theorem lines_induction {P : List Char → Prop} (last : ∀ line, '\n' ∉ line → P line)
    (line : ∀ line rest, '\n' ∉ line → P rest → P (line ++ '\n' :: rest)) (s : List Char) :
    P s := by
  induction hlength : s.length using Nat.strongRecOn generalizing s with
  | _ _ ih =>
    subst hlength
    by_cases hmem : '\n' ∈ s
    · obtain ⟨first, rest, rfl, hfirst⟩ := List.eq_append_cons_of_mem hmem
      exact line first rest hfirst (ih _ (by simp; omega) rest rfl)
    · exact last s hmem

/-! ### Line ends -/

theorem LineFeeds.of_append (h : LineFeeds (line ++ rest)) : LineFeeds rest :=
  fun hwithin ↦ h (hwithin.trans (List.suffix_append _ _).isInfix)

theorem LineFeeds.of_cons (h : LineFeeds (c :: rest)) : LineFeeds rest :=
  fun hwithin ↦ h (hwithin.trans (List.suffix_cons _ _).isInfix)

/-- No line end comes next, unless it is a line feed. -/
theorem afterLineEnd?_of_ne (h : LineFeeds (c :: rest)) (hc : c ≠ '\n') :
    afterLineEnd? (c :: rest) = none := by
  unfold afterLineEnd?
  split
  · rename_i more heq
    exact absurd (heq ▸ ⟨[], more, rfl⟩) h
  · rename_i heq
    exact absurd (List.cons.inj heq).1 hc
  · rfl

theorem afterLineEnd?_of_not_mem (h : '\n' ∉ s) : afterLineEnd? s = none := by
  unfold afterLineEnd?
  split
  · simp at h
  · simp at h
  · rfl

/-! ### Lines of dashes -/

theorem isFence_iff : isFence line = true ↔
    ∃ pad, line = '-' :: '-' :: '-' :: pad ∧ ∀ c ∈ pad, (c == ' ' || c == '\t') = true := by
  unfold isFence
  split
  · simp
  · rename_i hne
    simp only [Bool.false_eq_true, false_iff, not_exists, not_and]
    exact fun pad heq ↦ absurd heq (hne pad)

theorem afterDashes?_of_fence (h : isFence fence = true) (rest : List Char) :
    afterDashes? (fence ++ '\n' :: rest) = some ('\n' :: rest) := by
  obtain ⟨pad, rfl, hpad⟩ := isFence_iff.mp h
  show some ((pad ++ '\n' :: rest).dropWhile _) = _
  rw [List.dropWhile_append_of_pos hpad]
  rfl

theorem afterDashes?_of_fence_alone (h : isFence fence = true) :
    afterDashes? fence = some [] := by
  obtain ⟨pad, rfl, hpad⟩ := isFence_iff.mp h
  exact congrArg some (List.dropWhile_eq_nil_iff.mpr hpad)

/-- A line of dashes closes a block. -/
theorem afterClosing?_of_fence (h : isFence fence = true) (rest : List Char) :
    afterClosing? (fence ++ '\n' :: rest) = some rest := by
  rw [afterClosing?, afterDashes?_of_fence h]
  rfl

theorem afterClosing?_of_fence_alone (h : isFence fence = true) :
    afterClosing? fence = some [] := by
  rw [afterClosing?, afterDashes?_of_fence_alone h]

/-- Dashes at the start of a text are those of its first line. -/
theorem exists_of_afterDashes? (hrest : rest = [] ∨ rest.head? = some '\n')
    (h : afterDashes? (line ++ rest) = some s) :
    ∃ pad, line = '-' :: '-' :: '-' :: pad ∧
      s = (pad ++ rest).dropWhile fun c ↦ c == ' ' || c == '\t' := by
  unfold afterDashes? at h
  split at h
  · rename_i more heq
    have hhead : rest.head? ≠ some '-' := by
      rcases hrest with rfl | hrest
      · nofun
      · rw [hrest]
        decide
    rcases line with - | ⟨a, - | ⟨b, - | ⟨c, pad⟩⟩⟩
    · exact absurd (congrArg List.head? heq) hhead
    · exact absurd (congrArg List.head? (List.cons.inj heq).2) hhead
    · exact absurd (congrArg List.head? (List.cons.inj (List.cons.inj heq).2).2) hhead
    · obtain ⟨rfl, rfl, rfl, rfl⟩ : a = '-' ∧ b = '-' ∧ c = '-' ∧ pad ++ rest = more := by
        simpa using heq
      exact ⟨pad, rfl, (Option.some.inj h).symm⟩
  · cases h

/-- **No other line does**: something that is no line end stands behind its dashes, if it has
any. -/
theorem afterClosing?_of_not_fence (hone : '\n' ∉ line) (hline : isFence line = false)
    (hrest : rest = [] ∨ rest.head? = some '\n') (hfeeds : LineFeeds (line ++ rest)) :
    afterClosing? (line ++ rest) = none := by
  rcases hdashes : afterDashes? (line ++ rest) with - | behind
  · rw [afterClosing?, hdashes]
  · obtain ⟨pad, rfl, rfl⟩ := exists_of_afterDashes? hrest hdashes
    have hpad : pad.dropWhile (fun c ↦ c == ' ' || c == '\t') ≠ [] := by
      rw [ne_eq, List.dropWhile_eq_nil_iff, ← List.all_eq_true]
      exact Bool.eq_false_iff.mp hline
    obtain ⟨d, more, hmore⟩ := List.exists_cons_of_ne_nil hpad
    rw [List.dropWhile_append, hmore, if_neg (by simp)] at hdashes
    have hsuffix : d :: more <:+ '-' :: '-' :: '-' :: pad := by
      rw [← hmore]
      exact (List.dropWhile_suffix _).trans (List.suffix_append ['-', '-', '-'] pad)
    have hd : d ≠ '\n' := fun heq ↦ hone (heq ▸ hsuffix.subset List.mem_cons_self)
    obtain ⟨front, hfront⟩ := hsuffix
    have hfeeds' : LineFeeds (front ++ (d :: more ++ rest)) := by
      rwa [← List.append_assoc, hfront]
    rw [afterClosing?, hdashes]
    exact afterLineEnd?_of_ne hfeeds'.of_append hd

/-! ### Looking for the closing line -/

theorem untilClosing?_cons (h : afterLineEnd? (c :: rest) = none) :
    untilClosing? (c :: rest) =
      (untilClosing? rest).map fun (block, after) ↦ (c :: block, after) := by
  rw [untilClosing?, h]
  rfl

theorem untilClosing?_feed (rest : List Char) :
    untilClosing? ('\n' :: rest) =
      match afterClosing? rest with
      | some after => some ([], after)
      | none => (untilClosing? rest).map fun (block, after) ↦ ('\n' :: block, after) := rfl

theorem untilClosing?_of_not_mem (h : '\n' ∉ s) : untilClosing? s = none := by
  induction s with
  | nil => rfl
  | cons c rest ih =>
    rw [untilClosing?_cons (afterLineEnd?_of_not_mem h), ih (List.not_mem_of_not_mem_cons h),
      Option.map_none]

/-- Characters of a line are passed over. -/
theorem untilClosing?_append (hone : '\n' ∉ line) (hfeeds : LineFeeds (line ++ rest)) :
    untilClosing? (line ++ rest) =
      (untilClosing? rest).map fun (block, after) ↦ (line ++ block, after) := by
  induction line with
  | nil => simp
  | cons c line ih =>
    rw [List.mem_cons, not_or] at hone
    have hnone : afterLineEnd? (c :: (line ++ rest)) = none :=
      afterLineEnd?_of_ne hfeeds (Ne.symm hone.1)
    rw [List.cons_append, untilClosing?_cons hnone, ih hone.2 hfeeds.of_cons, Option.map_map]
    rfl

/-- **The block ends at the first line of dashes** behind the line with which it starts. -/
theorem untilClosing?_of_fenced (h : Fenced text lines fence rest) (hone : '\n' ∉ line)
    (hfeeds : LineFeeds (line ++ '\n' :: text)) :
    untilClosing? (line ++ '\n' :: text) = some (['\n'].intercalate (line :: lines), rest) := by
  induction h generalizing line with
  | fence hfence rest =>
    rw [untilClosing?_append hone hfeeds, untilClosing?_feed, afterClosing?_of_fence hfence]
    simp
  | last hfence =>
    rw [untilClosing?_append hone hfeeds, untilClosing?_feed, afterClosing?_of_fence_alone hfence]
    simp
  | line hone' hline h ih =>
    have hfeeds' := hfeeds.of_append.of_cons
    rw [untilClosing?_append hone hfeeds, untilClosing?_feed,
      afterClosing?_of_not_fence hone' hline (.inr rfl) hfeeds', ih hone' hfeeds']
    simp

/-- Without a line of dashes there is no end. -/
theorem untilClosing?_of_not_fenced (h : ∀ lines fence rest, ¬Fenced text lines fence rest)
    (hone : '\n' ∉ line) (hfeeds : LineFeeds (line ++ '\n' :: text)) :
    untilClosing? (line ++ '\n' :: text) = none := by
  induction text using lines_induction generalizing line with
  | last text htext =>
    have hfence : isFence text = false := Bool.eq_false_iff.mpr fun hfence ↦ h _ _ _ (.last hfence)
    have hfeeds' := hfeeds.of_append.of_cons
    have hnone : afterClosing? text = none := by
      have := afterClosing?_of_not_fence htext hfence (.inl rfl) (by rwa [List.append_nil])
      rwa [List.append_nil] at this
    rw [untilClosing?_append hone hfeeds, untilClosing?_feed, hnone,
      untilClosing?_of_not_mem htext]
    rfl
  | line first text hfirst ih =>
    have hfence : isFence first = false :=
      Bool.eq_false_iff.mpr fun hfence ↦ h _ _ _ (.fence hfence text)
    have hfeeds' := hfeeds.of_append.of_cons
    rw [untilClosing?_append hone hfeeds, untilClosing?_feed,
      afterClosing?_of_not_fence hfirst hfence (.inr rfl) hfeeds',
      ih (fun _ _ _ hfenced ↦ h _ _ _ (.line hfirst hfence hfenced)) hfirst hfeeds']
    rfl

/-! ### Blocks -/

theorem isFence_not_mem (h : isFence fence = true) : '\n' ∉ fence := by
  obtain ⟨pad, rfl, hpad⟩ := isFence_iff.mp h
  simp only [List.mem_cons, not_or]
  exact ⟨by decide, by decide, by decide, fun hmem ↦ absurd (hpad _ hmem) (by decide)⟩

/-- What stands behind the opening line. -/
theorem afterOpening?_of_fence (hblanks : ∀ c ∈ blanks, Text.isBlank c = true)
    (hopening : isFence opening = true) (inside : List Char) :
    afterOpening? (blanks ++ opening ++ '\n' :: inside) = some inside := by
  have hdashes := afterDashes?_of_fence hopening inside
  obtain ⟨pad, rfl, -⟩ := isFence_iff.mp hopening
  have hdrop : (blanks ++ ('-' :: '-' :: '-' :: pad ++ '\n' :: inside)).dropWhile Text.isBlank =
      '-' :: '-' :: '-' :: pad ++ '\n' :: inside := by
    rw [List.dropWhile_append_of_pos hblanks]
    exact List.dropWhile_cons_of_neg (by decide)
  rw [afterOpening?, List.append_assoc, hdrop, hdashes]
  rfl

/-- The first line of a text with anything but blanks in it, without those in front. -/
def firstWritten (s : List Char) : List Char := (s.dropWhile Text.isBlank).takeWhile (· ≠ '\n')

/-- **A block is opened by a line of dashes** and by nothing else. -/
theorem afterOpening?_of_not_fence (h : isFence (firstWritten s) = false) (hreturn : '\r' ∉ s) :
    afterOpening? s = none := by
  have hsplit := List.takeWhile_append_dropWhile (p := (· ≠ '\n')) (l := s.dropWhile Text.isBlank)
  have hone : '\n' ∉ firstWritten s := fun hmem ↦ by
    simpa using List.mem_takeWhile_imp hmem
  have hrest : (s.dropWhile Text.isBlank).dropWhile (· ≠ '\n') = [] ∨
      ((s.dropWhile Text.isBlank).dropWhile (· ≠ '\n')).head? = some '\n' := by
    rcases hdrop : (s.dropWhile Text.isBlank).dropWhile (· ≠ '\n') with - | ⟨c, rest⟩
    · exact .inl rfl
    · have hhead := List.head?_dropWhile_not (· ≠ '\n') (s.dropWhile Text.isBlank)
      rw [hdrop] at hhead
      exact .inr (by simpa using hhead)
  have hfeeds : LineFeeds (s.dropWhile Text.isBlank) := fun hwithin ↦
    hreturn ((List.dropWhile_suffix _).subset (hwithin.subset List.mem_cons_self))
  have hnone : afterClosing? (s.dropWhile Text.isBlank) = none := by
    rw [← hsplit] at hfeeds ⊢
    exact afterClosing?_of_not_fence hone h hrest hfeeds
  unfold afterClosing? at hnone
  rw [afterOpening?]
  split at hnone
  · cases hnone
  · rename_i hdashes
    rw [hdashes, Option.bind_some, hnone]
  · rename_i hdashes
    rw [hdashes, Option.bind_none]

/-- The line behind the opening one belongs to the block when a line of dashes follows, whether it
is one itself or not. -/
theorem block?_of_fenced (hblanks : ∀ c ∈ blanks, Text.isBlank c = true)
    (hopening : isFence opening = true) (hone : '\n' ∉ line) (h : Fenced text lines fence rest)
    (hfeeds : LineFeeds (line ++ '\n' :: text)) :
    block? (blanks ++ opening ++ '\n' :: (line ++ '\n' :: text)) =
      some (['\n'].intercalate (line :: lines), rest) := by
  rw [block?, afterOpening?_of_fence hblanks hopening, Option.bind_eq_bind, Option.bind_some,
    untilClosing?_of_fenced h hone hfeeds]
  rfl

/-- When the only line of dashes is the one behind the opening line, the block is empty. -/
theorem block?_of_fenced_nil (hblanks : ∀ c ∈ blanks, Text.isBlank c = true)
    (hopening : isFence opening = true) (h : Fenced inside [] fence rest)
    (hlast : ∀ lines fence' rest', ¬Fenced rest lines fence' rest') (hfeeds : LineFeeds inside) :
    block? (blanks ++ opening ++ '\n' :: inside) = some ([], rest) := by
  rw [block?, afterOpening?_of_fence hblanks hopening, Option.bind_eq_bind, Option.bind_some]
  rcases h with @⟨_, hfence, _⟩ | hfence
  · rw [untilClosing?_of_not_fenced hlast (isFence_not_mem hfence) hfeeds,
      afterClosing?_of_fence hfence]
    rfl
  · rw [untilClosing?_of_not_mem (isFence_not_mem hfence), afterClosing?_of_fence_alone hfence]
    rfl

/-! ### Answers -/

variable {readBlock : String → Option FrontMatter}

/-- A text that does not start with a line of dashes is a structure as a whole. -/
theorem extractWith_of_not_fence {whole : String} (h : isFence (firstWritten whole.toList) = false)
    (hreturn : '\r' ∉ whole.toList) : extractWith readBlock whole = (none, whole) := by
  rw [extractWith, block?, afterOpening?_of_not_fence h hreturn]
  rfl

/-- What is answered for a text with a block. -/
theorem extractWith_of_block? (h : block? text = some (block, rest)) :
    extractWith readBlock (String.ofList text) =
      answered readBlock (String.ofList text) block rest := by
  rw [extractWith, String.toList_ofList, h]
  rfl

/-- A block with more behind it and one with less are answered alike only if both are refused. -/
theorem answered_eq_iff {whole : String} {block' rest' : List Char}
    (hlt : rest'.length < rest.length) :
    answered readBlock whole block' rest' = answered readBlock whole block rest ↔
      readBlock (String.ofList block) = none ∧ readBlock (String.ofList block') = none := by
  have hne : String.ofList rest' ≠ String.ofList rest := by
    rw [ne_eq, String.ofList_inj]
    exact fun heq ↦ absurd hlt (heq ▸ Nat.lt_irrefl _)
  rw [answered, answered]
  rcases readBlock (String.ofList block) with - | f <;>
    rcases readBlock (String.ofList block') with - | f' <;> simp [hne]

theorem Fenced.length_lt (h : Fenced text lines fence rest) : rest.length < text.length := by
  induction h with
  | fence hfence rest =>
    rw [List.length_append, List.length_cons]
    omega
  | last hfence =>
    obtain ⟨pad, rfl, -⟩ := isFence_iff.mp hfence
    exact Nat.succ_pos _
  | line hone hline h ih =>
    rw [List.length_append, List.length_cons]
    omega

/-- A closing line that comes first is taken for a line of the block when another one follows, and
the block ends there. -/
theorem extractWith_fence_iff {fence' rest' : List Char}
    (hblanks : ∀ c ∈ blanks, Text.isBlank c = true) (hopening : isFence opening = true)
    (hfence : isFence fence = true) (h : Fenced rest earlier fence' rest')
    (hfeeds : LineFeeds (fence ++ '\n' :: rest)) :
    extractWith readBlock (String.ofList (blanks ++ opening ++ '\n' :: (fence ++ '\n' :: rest))) =
        answered readBlock
          (String.ofList (blanks ++ opening ++ '\n' :: (fence ++ '\n' :: rest))) [] rest ↔
      readBlock "" = none ∧
        readBlock (String.ofList (['\n'].intercalate (fence :: earlier))) = none := by
  rw [extractWith_of_block?
    (block?_of_fenced hblanks hopening (isFence_not_mem hfence) h hfeeds)]
  exact answered_eq_iff h.length_lt

/-- **Front matter ends at its first closing line**, unless that line comes right behind the opening
one and another line of dashes follows. The answer is then the right one if neither the empty text
nor the text up to that line can be read. -/
theorem extractWith_eq_iff (hblanks : ∀ c ∈ blanks, Text.isBlank c = true)
    (hopening : isFence opening = true) (h : Fenced inside lines fence rest)
    (hfeeds : LineFeeds inside) :
    extractWith readBlock (String.ofList (blanks ++ opening ++ '\n' :: inside)) =
        answered readBlock (String.ofList (blanks ++ opening ++ '\n' :: inside))
          (['\n'].intercalate lines) rest ↔
      (lines = [] → ∀ earlier fence' rest', Fenced rest earlier fence' rest' →
        readBlock "" = none ∧
          readBlock (String.ofList (['\n'].intercalate (fence :: earlier))) = none) := by
  cases h with
  | line hone hline h =>
    refine iff_of_true ?_ nofun
    exact extractWith_of_block? (block?_of_fenced hblanks hopening hone h hfeeds)
  | last hfence =>
    have hlast : ∀ lines fence' rest', ¬Fenced [] lines fence' rest' :=
      fun _ _ _ hagain ↦ absurd hagain.length_lt (Nat.not_lt_zero _)
    refine iff_of_true ?_ fun _ _ _ _ hagain ↦ absurd hagain (hlast _ _ _)
    exact extractWith_of_block?
      (block?_of_fenced_nil hblanks hopening (.last hfence) hlast hfeeds)
  | fence hfence =>
    by_cases hagain : ∃ earlier fence' rest', Fenced rest earlier fence' rest'
    · obtain ⟨earlier, fence', rest', hfenced⟩ := hagain
      exact ⟨fun heq _ _ _ _ hfenced' ↦
          (extractWith_fence_iff hblanks hopening hfence hfenced' hfeeds).mp heq,
        fun hall ↦ (extractWith_fence_iff hblanks hopening hfence hfenced hfeeds).mpr
          (hall rfl _ _ _ hfenced)⟩
    · have hlast : ∀ lines fence' rest', ¬Fenced rest lines fence' rest' :=
        fun _ _ _ h ↦ hagain ⟨_, _, _, h⟩
      refine iff_of_true ?_ fun _ _ _ _ h ↦ absurd h (hlast _ _ _)
      exact extractWith_of_block?
        (block?_of_fenced_nil hblanks hopening (.fence hfence rest) hlast hfeeds)

/-- Lines of dashes in the structure close nothing. -/
theorem extractWith_eq_iff_later_dashes :
    extract "\n ---\n\n#\n--- \nb\n---" = (some {}, "b\n---") := by
  have hfenced : Fenced ['\n', '#', '\n', '-', '-', '-', ' ', '\n', 'b', '\n', '-', '-', '-']
      [[], ['#']] ['-', '-', '-', ' '] ['b', '\n', '-', '-', '-'] :=
    .line (show '\n' ∉ [] by decide) (by decide)
      (.line (show '\n' ∉ ['#'] by decide) (by decide)
        (.fence (show isFence ['-', '-', '-', ' '] = true by decide) _))
  have hread : read? (String.ofList (['\n'].intercalate [[], ['#']])) = some {} := by
    decide +kernel
  have hblanks : ∀ c ∈ ['\n', ' '], Text.isBlank c = true := List.all_eq_true.mp (by decide)
  have hanswer : extractWith read? _ = _ :=
    (extractWith_eq_iff hblanks (show isFence ['-', '-', '-'] = true by decide) hfenced
      (by decide)).mpr nofun
  rw [answered, hread] at hanswer
  exact hanswer

/-- A structure behind an empty block is lost to it when a line of dashes follows: the closing line
comes first, the empty text can be read, and yet nothing is. -/
theorem empty_block_reads_on :
    Fenced ['-', '-', '-', '\n', 'a', '\n', '-', '-', '-', '\n', 'b'] [] ['-', '-', '-']
        ['a', '\n', '-', '-', '-', '\n', 'b'] ∧ read? "" = some {} ∧
      extract "---\n---\na\n---\nb" ≠ (some {}, "a\n---\nb") :=
  ⟨.fence (show isFence ['-', '-', '-'] = true by decide) _, by decide +kernel, by decide +kernel⟩

end Scaffold.FrontMatter
