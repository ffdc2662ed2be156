import Scaffold.Plan.Planner
import Scaffold.Proofs.Expansion.Joining
import Scaffold.Proofs.Paths

/-!
# Directories by the look of their names

A name is read for two things: whether it is that of a directory, and what it says without the
backslashes that protect its dots. Both replace every protected dot by one character (`dotsAs`), a
stand-in that is no dot or the dot itself.

The stand-in leaves the slashes of a name where they are, so it may as well be put into the last
segment alone (`lastSegment_dotsAs`), and what is a dot there afterwards is what has been one
without a backslash in front of it (`dot_mem_dotsAs_iff`). A text in which a backslash is put in
front of every dot (`escaped`) has no such dots, and is read back as the text.
-/

namespace Scaffold

namespace Text

theorem dropEndWhile_isPrefix {α : Type} (p : α → Bool) (s : List α) :
    dropEndWhile p s <+: s := by
  induction s with
  | nil => exact List.prefix_rfl
  | cons c s ih =>
    rw [dropEndWhile_cons]
    split
    · exact List.nil_prefix
    · exact (List.prefix_cons_inj c).mpr ih

/-- A text has no separator, or a last one. -/
theorem exists_last_segment (sep : Char) (s : List Char) :
    sep ∉ s ∨ ∃ front seg, s = front ++ sep :: seg ∧ sep ∉ seg := by
  by_cases h : sep ∈ s
  · obtain ⟨seg, front, hsplit, hseg⟩ := List.eq_append_cons_of_mem (List.mem_reverse.mpr h)
    refine .inr ⟨front.reverse, seg.reverse, ?_, by simpa using hseg⟩
    rw [← List.reverse_reverse s, hsplit]
    simp
  · exact .inl h

theorem afterLast_of_not_mem {sep : Char} {s : List Char} (h : sep ∉ s) :
    (s.reverse.takeWhile (· != sep)).reverse = s := by
  rw [List.takeWhile_eq_self_iff.mpr, List.reverse_reverse]
  intro c hc
  simp only [bne_iff_ne]
  rintro rfl
  exact h (List.mem_reverse.mp hc)

theorem afterLast_append {sep : Char} {front seg : List Char} (h : sep ∉ seg) :
    ((front ++ sep :: seg).reverse.takeWhile (· != sep)).reverse = seg := by
  rw [List.reverse_append, List.reverse_cons, List.append_assoc, List.takeWhile_append_of_pos,
    List.singleton_append, List.takeWhile_cons_of_neg (by simp), List.append_nil,
    List.reverse_reverse]
  intro c hc
  simp only [bne_iff_ne]
  rintro rfl
  exact h (List.mem_reverse.mp hc)

end Text

namespace EntryText

variable {x c : Char} {s t rest : List Char}

/-! ### Protected dots -/

/-- The text with a character in place of each dot and the backslash that protects it. -/
def dotsAs (x : Char) (s : List Char) : List Char := Text.replaceChars ['\\', '.'] [x] s

@[simp]
theorem dotsAs_nil (x : Char) : dotsAs x [] = [] := rfl

@[simp]
theorem dotsAs_escape (x : Char) (rest : List Char) :
    dotsAs x ('\\' :: '.' :: rest) = x :: dotsAs x rest := by
  simp [dotsAs, Text.replaceChars, Text.replaceSkipping]

theorem dotsAs_cons (h : c = '\\' → rest.head? ≠ some '.') :
    dotsAs x (c :: rest) = c :: dotsAs x rest := by
  have hprefix : ['\\', '.'].isPrefixOf (c :: rest) = false := by
    rw [← Bool.not_eq_true, List.isPrefixOf_iff_prefix, List.cons_prefix_cons]
    rintro ⟨hc, hrest⟩
    obtain ⟨more, rfl⟩ := hrest
    exact h hc.symm rfl
  simp [dotsAs, Text.replaceChars, Text.replaceSkipping, hprefix]

/-- **Induction over a text** in steps of protected dots and of other characters. -/
theorem escapes_induction {P : List Char → Prop} (nil : P [])
    (escape : ∀ rest, P rest → P ('\\' :: '.' :: rest))
    (plain : ∀ c rest, (c = '\\' → rest.head? ≠ some '.') → P rest → P (c :: rest))
    (s : List Char) : P s := by
  induction hlength : s.length using Nat.strong_induction_on generalizing s with
  | _ _ ih =>
    subst hlength
    rcases s with - | ⟨c, rest⟩
    · exact nil
    · by_cases hescape : c = '\\' ∧ rest.head? = some '.'
      · obtain ⟨rfl, hdot⟩ := hescape
        obtain ⟨more, rfl⟩ := List.head?_eq_some_iff.mp hdot
        exact escape more (ih _ (by simp) more rfl)
      · exact plain c rest (fun hc hdot ↦ hescape ⟨hc, hdot⟩) (ih _ (by simp) rest rfl)

/-- Two texts may be read apart unless a backslash at the end of the one protects a dot at the start
of the other. -/
theorem dotsAs_append (h : s.getLast? = some '\\' → t.head? ≠ some '.') :
    dotsAs x (s ++ t) = dotsAs x s ++ dotsAs x t := by
  induction s using escapes_induction with
  | nil => rfl
  | escape rest ih =>
    rw [List.cons_append, List.cons_append, dotsAs_escape, dotsAs_escape, List.cons_append, ih]
    intro hlast
    refine h ?_
    simp [List.getLast?_cons, hlast]
  | plain c rest hplain ih =>
    have hplain' : c = '\\' → (rest ++ t).head? ≠ some '.' := by
      rcases rest with - | ⟨d, rest⟩
      · exact fun hc ↦ h (hc ▸ rfl)
      · exact hplain
    rw [List.cons_append, dotsAs_cons hplain, dotsAs_cons hplain', List.cons_append, ih]
    intro hlast
    refine h ?_
    simp [List.getLast?_cons, hlast]

/-- What is in the text afterwards has been in it, or was put there. -/
theorem mem_of_mem_dotsAs (h : c ∈ dotsAs x s) : c = x ∨ c ∈ s := by
  induction s using escapes_induction with
  | nil => cases h
  | escape rest ih =>
    rw [dotsAs_escape, List.mem_cons] at h
    refine h.elim .inl fun h ↦ (ih h).imp_right fun hmem ↦ ?_
    exact List.mem_cons_of_mem _ (List.mem_cons_of_mem _ hmem)
  | plain d rest hplain ih =>
    rw [dotsAs_cons hplain, List.mem_cons] at h
    rcases h with rfl | h
    · exact .inr List.mem_cons_self
    · exact (ih h).imp_right (List.mem_cons_of_mem d)

theorem dotsAs_eq_nil_iff : dotsAs x s = [] ↔ s = [] := by
  induction s using escapes_induction with
  | nil => simp
  | escape rest => simp
  | plain c rest hplain => simp [dotsAs_cons hplain]

/-! ### Dots that nothing protects -/

/-- At the position is a dot, without a backslash in front of it. -/
def IsBareDot (s : List Char) (i : Nat) : Prop :=
  s[i]? = some '.' ∧ ∀ j, j + 1 = i → s[j]? ≠ some '\\'

theorem isBareDot_zero_iff : IsBareDot s 0 ↔ s.head? = some '.' := by
  simp [IsBareDot, List.head?_eq_getElem?]

theorem isBareDot_succ_iff {i : Nat} :
    IsBareDot (c :: s) (i + 1) ↔ s[i]? = some '.' ∧ (c :: s)[i]? ≠ some '\\' := by
  simp [IsBareDot]

theorem isBareDot_succ_succ_iff {i : Nat} :
    IsBareDot (c :: s) (i + 2) ↔ IsBareDot s (i + 1) := by
  simp [IsBareDot]

/-- The first character makes a difference only to a dot right behind it. -/
theorem isBareDot_cons_succ_iff {i : Nat} (h : c = '\\' → s.head? ≠ some '.') :
    IsBareDot (c :: s) (i + 1) ↔ IsBareDot s i := by
  cases i with
  | zero =>
    rw [isBareDot_succ_iff, isBareDot_zero_iff, List.head?_eq_getElem?]
    refine and_iff_left_of_imp fun hdot hc ↦ ?_
    rw [← List.head?_eq_getElem?] at hdot
    exact h (by simpa using hc) hdot
  | succ i => exact isBareDot_succ_succ_iff

/-- **A dot is left** where none protects it. -/
theorem dot_mem_dotsAs_iff (hx : x ≠ '.') : '.' ∈ dotsAs x s ↔ ∃ i, IsBareDot s i := by
  induction s using escapes_induction with
  | nil => simp [IsBareDot]
  | escape rest ih =>
    rw [dotsAs_escape, List.mem_cons, or_iff_right hx.symm, ih]
    have hbehind : ∀ i, IsBareDot ('\\' :: '.' :: rest) (i + 2) ↔ IsBareDot rest i := fun i ↦
      isBareDot_succ_succ_iff.trans (isBareDot_cons_succ_iff nofun)
    constructor
    · rintro ⟨i, hi⟩
      exact ⟨i + 2, (hbehind i).mpr hi⟩
    -- neither the backslash nor the dot that it protects is a bare dot
    · rintro ⟨i, hi⟩
      match i with
      | 0 => simp [isBareDot_zero_iff] at hi
      | 1 => simp [isBareDot_succ_iff] at hi
      | i + 2 => exact ⟨i, (hbehind i).mp hi⟩
  | plain c rest hplain ih =>
    rw [dotsAs_cons hplain, List.mem_cons, ih]
    constructor
    · rintro (rfl | ⟨i, hi⟩)
      · exact ⟨0, isBareDot_zero_iff.mpr rfl⟩
      · exact ⟨i + 1, (isBareDot_cons_succ_iff hplain).mpr hi⟩
    · rintro ⟨i, hi⟩
      cases i with
      | zero => exact .inl (Option.some.inj (isBareDot_zero_iff.mp hi)).symm
      | succ i => exact .inr ⟨i, (isBareDot_cons_succ_iff hplain).mp hi⟩

/-- At the position of a segment is a dot that starts an extension: no backslash is in front of it,
and somewhere in front of it is a character that is not itself such a dot. -/
def StartsExtension (seg : List Char) (i : Nat) : Prop :=
  IsBareDot seg i ∧ ∃ j < i, ¬IsBareDot seg j

/-- **A dot is left behind the dots in front** where an extension starts. -/
theorem dot_mem_dropWhile_iff (hx : x ≠ '.') (seg : List Char) :
    '.' ∈ (dotsAs x seg).dropWhile (· == '.') ↔ ∃ i, StartsExtension seg i := by
  induction seg with
  | nil => simp [StartsExtension, IsBareDot]
  | cons c seg ih =>
    by_cases hc : c = '.'
    -- a dot in front is passed over, and does not let a later one start an extension
    · subst hc
      have hplain : '.' = '\\' → seg.head? ≠ some '.' := nofun
      have hbehind : ∀ i, IsBareDot ('.' :: seg) (i + 1) ↔ IsBareDot seg i := fun i ↦
        isBareDot_cons_succ_iff hplain
      have hfirst : IsBareDot ('.' :: seg) 0 := isBareDot_zero_iff.mpr rfl
      rw [dotsAs_cons hplain, List.dropWhile_cons_of_pos rfl, ih]
      constructor
      · rintro ⟨i, hi, j, hj, hother⟩
        exact ⟨i + 1, (hbehind i).mpr hi, j + 1, Nat.succ_lt_succ hj, mt (hbehind j).mp hother⟩
      · rintro ⟨i, hi, j, hj, hother⟩
        rcases j with - | j
        · exact absurd hfirst hother
        rcases i with - | i
        · exact absurd hj (Nat.not_lt_zero _)
        exact ⟨i, (hbehind i).mp hi, j, Nat.lt_of_succ_lt_succ hj, mt (hbehind j).mpr hother⟩
    · have hfirst : ¬IsBareDot (c :: seg) 0 := fun hdot ↦
        hc (Option.some.inj (isBareDot_zero_iff.mp hdot))
      have hstart : (dotsAs x (c :: seg)).dropWhile (· == '.') = dotsAs x (c :: seg) := by
        by_cases hescape : c = '\\' → seg.head? ≠ some '.'
        · rw [dotsAs_cons hescape, List.dropWhile_cons_of_neg (by simpa using hc)]
        · obtain ⟨rfl, hdot⟩ := Classical.not_imp.mp hescape
          obtain ⟨rest, rfl⟩ := List.head?_eq_some_iff.mp (not_not.mp hdot)
          rw [dotsAs_escape, List.dropWhile_cons_of_neg (by simpa using hx)]
      rw [hstart, dot_mem_dotsAs_iff hx]
      refine exists_congr fun i ↦ (and_iff_left_of_imp fun hi ↦ ⟨0, ?_, hfirst⟩).symm
      exact Nat.pos_of_ne_zero fun hzero ↦ hfirst (hzero ▸ hi)

/-! ### The last segment -/

/-- What is left of a text without a separator, or behind the last one, is its last segment. -/
theorem getLastD_splitOn (sep : Char) (s : List Char) :
    (Text.splitOn sep s).getLastD [] = (s.reverse.takeWhile (· != sep)).reverse := by
  rcases Text.exists_last_segment sep s with hnone | ⟨front, seg, rfl, hseg⟩
  · rw [Text.splitOn_of_not_mem hnone, Text.afterLast_of_not_mem hnone]
    rfl
  · rw [Text.splitOn_append_cons, Text.splitOn_of_not_mem hseg, Text.afterLast_append hseg,
      List.getLastD_concat]

theorem mem_of_mem_lastSegment (h : c ∈ lastSegment s) : c ∈ s := by
  have hshown := (List.takeWhile_sublist _).mem (List.mem_reverse.mp h)
  exact (Text.dropEndWhile_isPrefix _ s).sublist.mem (List.mem_reverse.mp hshown)

theorem dropEndWhile_dotsAs (hx : x ≠ '/') (s : List Char) :
    Text.dropEndWhile (· == '/') (dotsAs x s) = dotsAs x (Text.dropEndWhile (· == '/') s) := by
  induction s using escapes_induction with
  | nil => rfl
  | escape rest ih =>
    rw [dotsAs_escape, Text.dropEndWhile_cons, Text.dropEndWhile_cons, Text.dropEndWhile_cons, ih]
    simp [hx]
  | plain c rest hplain ih =>
    have hplain' : c = '\\' → (Text.dropEndWhile (· == '/') rest).head? ≠ some '.' := by
      intro hc hdot
      obtain ⟨more, hmore⟩ := List.head?_eq_some_iff.mp hdot
      obtain ⟨slashes, hslashes⟩ := Text.dropEndWhile_isPrefix (· == '/') rest
      rw [hmore] at hslashes
      exact hplain hc (hslashes ▸ rfl)
    have hempty : (dotsAs x (Text.dropEndWhile (· == '/') rest)).isEmpty =
        (Text.dropEndWhile (· == '/') rest).isEmpty := by
      rw [Bool.eq_iff_iff, List.isEmpty_iff, List.isEmpty_iff, dotsAs_eq_nil_iff]
    rw [dotsAs_cons hplain, Text.dropEndWhile_cons, Text.dropEndWhile_cons, ih, hempty]
    split
    · rfl
    · exact (dotsAs_cons hplain').symm

/-- **A stand-in for protected dots** may be put into the last segment alone. -/
theorem lastSegment_dotsAs (hx : x ≠ '/') (s : List Char) :
    lastSegment (dotsAs x s) = dotsAs x (lastSegment s) := by
  rw [lastSegment, lastSegment, dropEndWhile_dotsAs hx]
  rcases Text.exists_last_segment '/' (Text.dropEndWhile (· == '/') s) with
    hnone | ⟨front, seg, hsplit, hseg⟩
  · rw [Text.afterLast_of_not_mem hnone, Text.afterLast_of_not_mem fun hslash ↦ ?_]
    exact (mem_of_mem_dotsAs hslash).elim (Ne.symm hx) hnone
  · have happend : dotsAs x (front ++ '/' :: seg) = dotsAs x front ++ '/' :: dotsAs x seg := by
      rw [dotsAs_append (by simp), dotsAs_cons (by simp)]
    rw [hsplit, happend, Text.afterLast_append hseg, Text.afterLast_append fun hslash ↦ ?_]
    exact (mem_of_mem_dotsAs hslash).elim (Ne.symm hx) hseg

/-! ### Names of directories -/

/-- A name is that of a directory when no extension starts in its last segment. -/
theorem isDirectoryName_iff_lastSegment (name : String) : isDirectoryName name = true ↔
    ¬∃ i, StartsExtension (lastSegment name.toList) i := by
  have hshown : hasExtension name = true ↔
      '.' ∈ (lastSegment (dotsAs protectedDot name.toList)).dropWhile (· == '.') :=
    List.contains_iff_mem
  rw [isDirectoryName, Bool.not_eq_true', ← Bool.not_eq_true, hshown,
    lastSegment_dotsAs (by decide), dot_mem_dropWhile_iff (by decide)]

/-- The text with a backslash in front of each dot. -/
def escaped (n : String) : String :=
  String.ofList (n.toList.flatMap fun c ↦ if c = '.' then ['\\', c] else [c])

theorem head?_escaped_ne (s : List Char) :
    (s.flatMap fun c ↦ if c = '.' then ['\\', c] else [c]).head? ≠ some '.' := by
  rcases s with - | ⟨c, s⟩
  · simp
  · rw [List.flatMap_cons]
    split <;> simp_all

/-- **Every dot of an escaped text is protected.** -/
theorem dotsAs_escaped (x : Char) (n : String) :
    dotsAs x (escaped n).toList = n.toList.map fun c ↦ if c = '.' then x else c := by
  rw [escaped, String.toList_ofList]
  induction n.toList with
  | nil => rfl
  | cons c s ih =>
    rw [List.flatMap_cons, List.map_cons, ← ih]
    split
    · rename_i hc
      rw [hc]
      exact dotsAs_escape x _
    · exact dotsAs_cons fun _ ↦ head?_escaped_ne s

theorem unescape_escaped (n : String) : unescape (escaped n) = n := by
  have hchars : (unescape (escaped n)).toList = dotsAs '.' (escaped n).toList := by
    rw [unescape, Text.replace, String.toList_ofList]
    rfl
  have hsame : ∀ c : Char, (if c = '.' then '.' else c) = c := fun c ↦ by
    split
    · rename_i hc
      exact hc.symm
    · rfl
  rw [← String.toList_inj, hchars, dotsAs_escaped, funext hsame]
  exact List.map_id _

theorem isDirectoryName_escaped (n : String) : isDirectoryName (escaped n) = true := by
  have hnone : '.' ∉ dotsAs protectedDot (escaped n).toList := by
    rw [dotsAs_escaped, List.mem_map]
    rintro ⟨c, -, hc⟩
    split at hc
    · cases hc
    · contradiction
  rw [isDirectoryName, Bool.not_eq_true', hasExtension, ← Bool.not_eq_true, List.contains_iff_mem]
  exact fun hdot ↦ hnone (mem_of_mem_lastSegment ((List.dropWhile_sublist _).mem hdot))

end EntryText

/-! ### Names of lines -/

/-- The text from which the name of an entry is made: the one that the line names, or the last
segment of the source. -/
def LineKind.written : LineKind → String
  | .create name => name
  | .copy source target | .move source target => target.getD (EntryText.sourceBasename source)

namespace Planner

variable (options : PlanOptions) (openDirs : List OpenDir) (kind : LineKind)

theorem lineOperation_isDirectory : (lineOperation options openDirs kind).isDirectory =
    EntryText.isDirectoryName kind.written := by
  cases kind <;> simp only [lineOperation, LineKind.written]

theorem lineOperation_name : (lineOperation options openDirs kind).name =
    options.rules.apply (EntryText.unescape kind.written)
      (EntryText.isDirectoryName kind.written) := by
  cases kind <;> rfl

end Planner

namespace EntryText

/-- **Directories and escapes.** A name is that of a directory exactly when no extension starts in
the last of its segments between slashes, slashes at the end left out. With a backslash in front of
each dot, every text is the name of a directory, and is read back as the text; so a line for it
makes a directory of this name, up to the rename rules. -/
theorem directory_names :
    (∀ name : String, isDirectoryName name = true ↔ ¬∃ i, StartsExtension
      ((Text.splitOn '/' (Text.dropEndWhile (· == '/') name.toList)).getLastD []) i) ∧
    ∀ n : String, isDirectoryName (escaped n) = true ∧ unescape (escaped n) = n ∧
      ∀ (options : PlanOptions) (openDirs : List Planner.OpenDir),
        let op := Planner.lineOperation options openDirs (.create (escaped n))
        op.isDirectory = true ∧ op.name = options.rules.apply n true := by
  refine ⟨fun name ↦ ?_, fun n ↦ ?_⟩
  · rw [getLastD_splitOn]
    exact isDirectoryName_iff_lastSegment name
  · have hdir := isDirectoryName_escaped n
    have hname := unescape_escaped n
    refine ⟨hdir, hname, fun options openDirs ↦ ?_⟩
    dsimp only
    rw [Planner.lineOperation_isDirectory, Planner.lineOperation_name, LineKind.written, hdir,
      hname]
    exact ⟨rfl, rfl⟩

end EntryText

end Scaffold
