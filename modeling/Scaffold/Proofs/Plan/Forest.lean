import Mathlib.Data.List.Forall2
import Scaffold.Proofs.Walks
import Scaffold.Storage.Memory

/-!
# The forest of a plan

A plan is built with the list of open directories, but the forest that comes out can be described
without it. The parent of an operation is the nearest one in front of it that is a level higher,
and it is a directory (`HangsUnder`); the depths of the operations for lines follow from the depths
of the lines and from which of the operations are directories (`DepthsFollow`).

Both descriptions only look to the left of an operation, so they survive whatever is planned behind
it. `PlacedBehind` says them of a block of operations behind a list, and blocks compose
(`PlacedBehind.append`). The walk through a source makes such a block (`walkSound_includedWithin`).
For lines the link is `OpenAt`: an open directory at a level is an operation of that depth with
nothing but deeper ones behind it. `Sound` collects what holds after every line.
-/

namespace Scaffold

/-! ### Places in the forest -/

/-- The operation `op` at position `i` lies in the directory made by the one at position `p`: the
nearest one in front of it that is not as deep, which is one level higher. -/
structure HangsUnder (ops : List Operation) (i : Nat) (op : Operation) (p : Nat)
    (dir : Operation) : Prop where
  found : ops[p]? = some dir
  before : p < i
  isDirectory : dir.isDirectory = true
  depth_eq : op.depth = dir.depth + 1
  between : ∀ j o, p < j → j < i → ops[j]? = some o → op.depth ≤ o.depth
  target_eq : op.target = dir.target.join (Path.ofText op.name)

/-- The place of the operation `op` at position `i`: at the root of the structure, or in the
directory that it names as its parent. -/
def Placed (root : Path) (ops : List Operation) (i : Nat) (op : Operation) : Prop :=
  match op.parent with
  | none => op.depth = 0 ∧ op.target = root.join (Path.ofText op.name)
  | some p => ∃ dir, HangsUnder ops i op p dir

/-- Every operation of a block behind the list `ops` has its place. -/
def PlacedBehind (root : Path) (ops block : List Operation) : Prop :=
  ∀ i op, block[i]? = some op → Placed root (ops ++ block) (ops.length + i) op

variable {root : Path} {ops : List Operation}

/-- What is behind an operation has no part in its place. -/
theorem HangsUnder.append {i p : Nat} {op dir : Operation} (h : HangsUnder ops i op p dir)
    (hi : i ≤ ops.length) (more : List Operation) : HangsUnder (ops ++ more) i op p dir where
  found := by
    rw [List.getElem?_append_left (Nat.lt_of_lt_of_le h.before hi)]
    exact h.found
  before := h.before
  isDirectory := h.isDirectory
  depth_eq := h.depth_eq
  between j o hpj hji ho := by
    rw [List.getElem?_append_left (Nat.lt_of_lt_of_le hji hi)] at ho
    exact h.between j o hpj hji ho
  target_eq := h.target_eq

theorem Placed.append {i : Nat} {op : Operation} (h : Placed root ops i op)
    (hi : i ≤ ops.length) (more : List Operation) : Placed root (ops ++ more) i op := by
  unfold Placed at h ⊢
  split
  · simpa [‹op.parent = none›] using h
  · rename_i p hp
    obtain ⟨dir, hdir⟩ : ∃ dir, HangsUnder ops i op p dir := by simpa [hp] using h
    exact ⟨dir, hdir.append hi more⟩

namespace PlacedBehind

theorem nil : PlacedBehind root ops [] := by
  intro i op h
  simp at h

/-- A block of one operation. -/
theorem single {op : Operation} (h : Placed root ops ops.length op) :
    PlacedBehind root ops [op] := by
  intro i op' h'
  obtain ⟨rfl, rfl⟩ : i = 0 ∧ op = op' := by
    rcases i with - | i
    · simpa using h'
    · simp at h'
  exact h.append (by simp) [op]

/-- **Blocks compose.** -/
theorem append {block more : List Operation} (h : PlacedBehind root ops block)
    (h' : PlacedBehind root (ops ++ block) more) : PlacedBehind root ops (block ++ more) := by
  intro i op hop
  rcases Nat.lt_or_ge i block.length with hi | hi
  · rw [List.getElem?_append_left hi] at hop
    rw [← List.append_assoc]
    exact (h i op hop).append (by simp; omega) more
  · rw [List.getElem?_append_right hi] at hop
    have hplace := h' _ op hop
    rw [List.append_assoc, List.length_append] at hplace
    rwa [show ops.length + block.length + (i - block.length) = ops.length + i by omega] at hplace

end PlacedBehind

/-! ### What is inside a source -/

namespace Planner

variable {σ : Type} {b : Backend (StateM σ)} {rules : RenameRules}

/-- The operations found in the directory made by the operation at position `parent`, the last one
of `ops`, when the walk through them has come to `found`. -/
structure WalkSound (root : Path) (ops : List Operation) (depth : Nat)
    (found : List Operation) : Prop where
  placed : PlacedBehind root ops found
  included : ∀ op ∈ found, op.kind = .included
  deep : ∀ op ∈ found, depth ≤ op.depth

/-- One entry more, with what is inside it. -/
theorem WalkSound.snoc {depth : Nat} {found below : List Operation} {dir : Operation}
    (op : Operation) {p : Nat} (h : WalkSound root ops depth found) (hp : ops.length = p + 1)
    (hdir : ops[p]? = some dir) (hisDir : dir.isDirectory = true) (hdepth : dir.depth + 1 = depth)
    (hop : op.parent = some p ∧ op.depth = depth ∧ op.kind = .included ∧
      op.target = dir.target.join (Path.ofText op.name))
    (hbelow : WalkSound root (ops ++ found ++ [op]) (depth + 1) below) :
    WalkSound root ops depth (found ++ op :: below) := by
  obtain ⟨hparent, hopDepth, hkind, htarget⟩ := hop
  have hplace : Placed root (ops ++ found) (ops ++ found).length op := by
    simp only [Placed, hparent]
    refine ⟨dir, ?_, by simp; omega, hisDir, by omega, fun j o hj hj' ho ↦ ?_, htarget⟩
    · rw [List.getElem?_append_left (by omega)]
      exact hdir
    -- everything between the directory and `op` was found in it
    · rw [List.getElem?_append_right (by omega)] at ho
      rw [hopDepth]
      exact h.deep o (List.mem_of_getElem? ho)
  refine ⟨?_, fun o ho ↦ ?_, fun o ho ↦ ?_⟩
  · rw [List.append_cons]
    refine (h.placed.append (.single hplace)).append ?_
    rw [← List.append_assoc]
    exact hbelow.placed
  · rcases List.mem_append.mp ho with ho | ho
    · exact h.included o ho
    · rcases List.mem_cons.mp ho with rfl | ho
      · exact hkind
      · exact hbelow.included o ho
  · rcases List.mem_append.mp ho with ho | ho
    · exact h.deep o ho
    · rcases List.mem_cons.mp ho with rfl | ho
      · exact Nat.le_of_eq hopDepth.symm
      · exact Nat.le_of_succ_le (hbelow.deep o ho)

/-- **The walk through a source places what it finds**, directory by directory. -/
theorem walkSound_includedWithin (bound p : Nat) (source : Path) {target : Path} {depth : Nat}
    (s : σ) (dir : Operation) (hp : ops.length = p + 1) (hdir : ops[p]? = some dir)
    (hisDir : dir.isDirectory = true) (hdepth : dir.depth + 1 = depth)
    (htarget : dir.target = target) :
    WalkSound root ops depth
      (runFrom s (includedWithin b rules bound ⟨p, source, target, depth⟩)).1.2 := by
  induction bound generalizing p source target depth s ops dir with
  | zero =>
    rw [includedWithin_zero, runFrom_pure, endless]
    exact ⟨.nil, by simp, by simp⟩
  | succ bound ih =>
    simp only [includedWithin_succ, includedStep, runFrom_bind]
    split
    · exact ⟨.nil, by simp, by simp⟩
    · rename_i entries _
      -- every round keeps what is found sound, whatever the store answers
      refine foldlM_keeps (WalkSound root ops depth) (fun found entry s' h ↦ ?_) entries _
        ⟨.nil, by simp, by simp⟩
      set op := includedOperation rules p source target depth entry with hopDef
      have hop : op.parent = some p ∧ op.depth = depth ∧ op.kind = .included ∧
          op.target = dir.target.join (Path.ofText op.name) := by
        rw [htarget]
        exact ⟨rfl, rfl, rfl, rfl⟩
      split
      · rename_i hopDir
        simp only [runFrom_bind, runFrom_pure]
        set walk := runFrom s' (includedWithin b rules bound
          ⟨p + 1 + found.length, source.child entry.name, op.target, depth + 1⟩) with hwalk
        refine h.snoc { op with warning := walk.1.1 } hp hdir hisDir hdepth hop ?_
        refine ih _ _ s' { op with warning := walk.1.1 } ?_ ?_ hopDir ?_ rfl
        · simp [hp, Nat.add_assoc]
        · rw [List.getElem?_append_right (by simp; omega)]
          simp [hp]
        · simp [hop]
      · simpa using h.snoc op hp hdir hisDir hdepth hop ⟨.nil, by simp, by simp⟩

/-- **Looking up a source places what is inside it**, behind the operation that carries it. -/
theorem walkSound_inspectSource (options : PlanOptions) {index : Nat} {op : Operation}
    (source : Path) (warning : Option String) (s : σ) (h : ops.length = index) :
    WalkSound root (ops ++ [{ op with warning }]) (op.depth + 1)
      (runFrom s (inspectSource b options index op source)).1.2 := by
  have hnil : WalkSound root (ops ++ [{ op with warning }]) (op.depth + 1) [] :=
    ⟨.nil, by simp, by simp⟩
  unfold inspectSource
  simp only [runFrom_bind]
  split
  · exact hnil
  · split
    · exact hnil
    · rename_i hcarried
      simp only [runFrom_bind]
      split
      · exact hnil
      · split
        · exact hnil
        · obtain ⟨bound, hbound⟩ := exists_includedWithin b options.rules
            ⟨index, source, op.target, op.depth + 1⟩ _
          rw [hbound]
          refine walkSound_includedWithin _ _ _ _ { op with warning } ?_ ?_ ?_ rfl rfl
          · simp [h]
          · simp [← h]
          · simp_all

/-! ### Lines -/

/-- The open directory at a level: an operation of that depth, behind which all is deeper. -/
structure OpenAt (ops : List Operation) (level : Nat) (dir : OpenDir) (op : Operation) :
    Prop where
  found : ops[dir.index]? = some op
  isDirectory : op.isDirectory = true
  depth_eq : op.depth = level
  target_eq : op.target = dir.path
  behind : ∀ j o, dir.index < j → ops[j]? = some o → level < o.depth

/-- An open directory stays open while operations deeper than its level are added. -/
theorem OpenAt.append {level : Nat} {dir : OpenDir} {op : Operation} {more : List Operation}
    (h : OpenAt ops level dir op) (hmore : ∀ o ∈ more, level < o.depth) :
    OpenAt (ops ++ more) level dir op where
  found := by
    rw [List.getElem?_append_left]
    · exact h.found
    · exact (List.getElem?_eq_some_iff.mp h.found).1
  isDirectory := h.isDirectory
  depth_eq := h.depth_eq
  target_eq := h.target_eq
  behind j o hj ho := by
    rcases Nat.lt_or_ge j ops.length with hlt | hge
    · rw [List.getElem?_append_left hlt] at ho
      exact h.behind j o hj ho
    · rw [List.getElem?_append_right hge] at ho
      exact hmore o (List.mem_of_getElem? ho)

/-- The levels of the open directories are the depths of their operations. -/
def StackSound (ops : List Operation) (openDirs : List OpenDir) : Prop :=
  ∀ level dir, openDirs[level]? = some dir → ∃ op, OpenAt ops level dir op

theorem StackSound.take {openDirs : List OpenDir} (h : StackSound ops openDirs) (n : Nat) :
    StackSound ops (openDirs.take n) := by
  intro level dir hdir
  rw [List.getElem?_take] at hdir
  split at hdir
  · exact h level dir hdir
  · cases hdir

/-- Open directories stay open while nothing above their levels is added. -/
theorem StackSound.append {openDirs : List OpenDir} {more : List Operation}
    (h : StackSound ops openDirs) (hmore : ∀ o ∈ more, openDirs.length ≤ o.depth) :
    StackSound (ops ++ more) openDirs := by
  intro level dir hdir
  obtain ⟨op, hop⟩ := h level dir hdir
  have hlevel : level < openDirs.length := (List.getElem?_eq_some_iff.mp hdir).1
  exact ⟨op, hop.append fun o ho ↦ Nat.lt_of_lt_of_le hlevel (hmore o ho)⟩

/-- One more open directory. -/
theorem StackSound.snoc {openDirs : List OpenDir} {dir : OpenDir} (op : Operation)
    (h : StackSound ops openDirs) (hop : OpenAt ops openDirs.length dir op) :
    StackSound ops (openDirs ++ [dir]) := by
  intro level dir' hdir
  rcases Nat.lt_or_ge level openDirs.length with hlt | hge
  · rw [List.getElem?_append_left hlt] at hdir
    exact h level dir' hdir
  · rw [List.getElem?_append_right hge] at hdir
    obtain ⟨hlt, hget⟩ := List.getElem?_eq_some_iff.mp hdir
    obtain rfl : level = openDirs.length := by
      rw [List.length_singleton] at hlt
      omega
    obtain rfl : dir = dir' := by simpa using hget
    exact ⟨op, hop⟩

/-- **The operation for a line has its place** under the innermost open directory. -/
theorem placed_lineOperation {options : PlanOptions} {openDirs : List OpenDir}
    (h : StackSound ops openDirs) (kind : LineKind) (warning : Option String) :
    Placed options.root ops ops.length
      { lineOperation options openDirs kind with warning } := by
  rcases openDirs.eq_nil_or_concat' with rfl | ⟨outer, dir, rfl⟩
  · exact ⟨rfl, rfl⟩
  · obtain ⟨op, hop⟩ := h outer.length dir (by simp)
    have hparent : (lineOperation options (outer ++ [dir]) kind).parent = some dir.index := by
      simp [lineOperation]
    have hdepth : (lineOperation options (outer ++ [dir]) kind).depth = outer.length + 1 := by
      simp [lineOperation]
    simp only [Placed, hparent]
    refine ⟨op, hop.found, ?_, hop.isDirectory, ?_, fun j o hj _ ho ↦ ?_, ?_⟩
    · exact (List.getElem?_eq_some_iff.mp hop.found).1
    · rw [hdepth, hop.depth_eq]
    · rw [hdepth]
      exact hop.behind j o hj ho
    · simp [lineOperation, hop.target_eq]

/-! ### Depths of lines -/

/-- The operations for lines, without those found inside sources. -/
def ownOperations (ops : List Operation) : List Operation :=
  ops.filter (·.kind != .included)

/-- How many levels are open behind operations for lines: the last one opens a level of its own if
it is a directory. -/
def openLevels (own : List Operation) : Nat :=
  match own.getLast? with
  | none => 0
  | some last => if last.isDirectory then last.depth + 1 else last.depth

/-- The operation is the one for the line, among some open directories. -/
def IsFor (options : PlanOptions) (line : Line) (op : Operation) : Prop :=
  ∃ openDirs, { op with warning := none } = lineOperation options openDirs line.kind

/-- The depth of each operation is that of its line, as far as levels are open there. -/
def DepthsFollow (lines : List Line) (own : List Operation) : Prop :=
  ∀ k line op, lines[k]? = some line → own[k]? = some op →
    op.depth = min line.depth (openLevels (own.take k))

/-- What holds when `lines` have been planned. -/
structure Sound (options : PlanOptions) (lines : List Line) (progress : Progress) : Prop where
  placed : PlacedBehind options.root [] progress.operations.toList
  stack : StackSound progress.operations.toList progress.openDirs
  each : List.Forall₂ (IsFor options) lines (ownOperations progress.operations.toList)
  depths : DepthsFollow lines (ownOperations progress.operations.toList)
  levels : progress.openDirs.length = openLevels (ownOperations progress.operations.toList)

theorem sound_nil (options : PlanOptions) : Sound options [] {} :=
  ⟨.nil, fun _ _ h ↦ by simp at h, .nil, fun _ _ _ h ↦ by simp at h, rfl⟩

/-- What a line adds: its operation, and behind it what is inside the source. -/
theorem planLine_eq (options : PlanOptions) (progress : Progress) (line : Line) (s : σ) :
    ∃ warning, ∃ inside : List Operation,
      let op := lineOperation options (progress.openDirs.take line.depth) line.kind
      (runFrom s (planLine b options progress line)).1 =
        { progress with
          operations := progress.operations.push { op with warning } ++ inside
          openDirs := if op.isDirectory then
              progress.openDirs.take line.depth ++ [⟨op.target, progress.operations.size⟩]
            else progress.openDirs.take line.depth } ∧
      WalkSound options.root (progress.operations.toList ++ [{ op with warning }]) (op.depth + 1)
        inside := by
  simp only [planLine]
  split
  · exact ⟨none, [], by simp, .nil, by simp, by simp⟩
  · exact ⟨_, _, rfl, walkSound_inspectSource options _ _ s Array.length_toList⟩

/-- The operation for a line is not an included one. -/
theorem lineOperation_kind_ne (options : PlanOptions) (openDirs : List OpenDir)
    (kind : LineKind) : (lineOperation options openDirs kind).kind ≠ .included := by
  cases kind <;> simp [lineOperation]

/-- One more line, no deeper than levels are open. -/
theorem DepthsFollow.snoc {lines : List Line} {own : List Operation} (h : DepthsFollow lines own)
    (hlength : lines.length = own.length) {line : Line} {op : Operation}
    (hop : op.depth = min line.depth (openLevels own)) :
    DepthsFollow (lines ++ [line]) (own ++ [op]) := by
  intro k line' op' hline hop'
  rcases Nat.lt_or_ge k lines.length with hlt | hge
  · rw [List.getElem?_append_left hlt] at hline
    rw [List.getElem?_append_left (hlength ▸ hlt)] at hop'
    rw [List.take_append_of_le_length (by omega)]
    exact h k line' op' hline hop'
  · obtain rfl : k = lines.length := by
      have := (List.getElem?_eq_some_iff.mp hline).1
      rw [List.length_append, List.length_singleton] at this
      omega
    obtain rfl : line = line' := by simpa using hline
    obtain rfl : op = op' := by simpa [hlength] using hop'
    rwa [List.take_append_of_le_length (by omega), List.take_of_length_le (by omega)]

/-- **One more line.** -/
theorem Sound.planLine {options : PlanOptions} {lines : List Line} {progress : Progress}
    (h : Sound options lines progress) (line : Line) (s : σ) :
    Sound options (lines ++ [line]) (runFrom s (planLine b options progress line)).1 := by
  obtain ⟨warning, inside, hresult, hinside⟩ := planLine_eq (b := b) options progress line s
  set openDirs := progress.openDirs.take line.depth with hopenDirs
  set op := lineOperation options openDirs line.kind with hop
  set before := progress.operations.toList with hbefore
  have hstack : StackSound before openDirs := h.stack.take _
  have hdepth : op.depth = openDirs.length := by simp [hop, lineOperation]
  have hplaced : PlacedBehind options.root before [{ op with warning }] :=
    .single (placed_lineOperation hstack line.kind warning)
  have hkind : op.kind ≠ .included := lineOperation_kind_ne options openDirs line.kind
  have hwarning : op.warning = none := rfl
  clear_value op
  have hops : (progress.operations.push { op with warning } ++ inside).toList =
      before ++ ({ op with warning } :: inside) := by
    simp [hbefore]
  -- of what is added, only the first operation is for a line
  have hown : ownOperations (before ++ ({ op with warning } :: inside)) =
      ownOperations before ++ [{ op with warning }] := by
    have hnone : inside.filter (·.kind != .included) = [] :=
      List.filter_eq_nil_iff.mpr fun o ho ↦ by simp [hinside.included o ho]
    simp [ownOperations, hkind, hnone]
  rw [hresult]
  refine ⟨?_, ?_, ?_, ?_, ?_⟩ <;> simp only [hops, hown]
  · refine h.placed.append ?_
    rw [List.nil_append]
    exact hplaced.append hinside.placed
  -- what is added is no less deep than the line, so the directories around it stay open
  · have hkept : StackSound (before ++ ({ op with warning } :: inside)) openDirs := by
      refine hstack.append fun o ho ↦ ?_
      rcases List.mem_cons.mp ho with rfl | ho
      · exact Nat.le_of_eq hdepth.symm
      · exact hdepth ▸ Nat.le_of_succ_le (hinside.deep o ho)
    split
    · rename_i hisDir
      refine hkept.snoc { op with warning } ⟨?_, hisDir, hdepth, rfl, fun j o hj ho ↦ ?_⟩
      · simp [hbefore]
      · simp only at hj
        rw [List.append_cons, List.getElem?_append_right (by simp [hbefore]; omega)] at ho
        have := hinside.deep o (List.mem_of_getElem? ho)
        omega
    · exact hkept
  · have hfor : IsFor options line { op with warning } := ⟨openDirs, by rw [← hop, ← hwarning]⟩
    exact List.rel_append h.each (.cons hfor .nil)
  · refine h.depths.snoc h.each.length_eq ?_
    rw [← h.levels]
    simp [hdepth, hopenDirs]
  · simp only [openLevels, List.getLast?_append, List.getLast?_singleton, Option.some_or]
    split <;> simp [hdepth]

/-- **What every line keeps holds when all are planned.** -/
theorem planLines_induction {options : PlanOptions} (P : List Line → Progress → σ → Prop)
    (hstyle : ∀ done progress s style, P done progress s → P done { progress with style } s)
    (hline : ∀ done line progress s, P done progress s →
      P (done ++ [line]) (runFrom s (planLine b options progress line)).1
        (runFrom s (planLine b options progress line)).2)
    {lines : List Line} {final : Progress} {s s' : σ} (h : P [] {} s)
    (hrun : runFrom s (planLines b options lines).run = (.ok final, s')) : P lines final s' := by
  refine run_foldlM_induction P lines ?_ h hrun
  intro done line rest progress next s s₁ _ hdone hnext
  split at hnext
  · cases hnext
  · rename_i style _
    simp only [runFrom_lift, Prod.mk.injEq, Except.ok.injEq] at hnext
    obtain ⟨rfl, rfl⟩ := hnext
    exact hline done line _ s (hstyle done progress s style hdone)

/-! ### Whole plans -/

/-- A plan has the operations for the lines of its expanded text. -/
theorem plan_cases {readBlock : String → Option FrontMatter} {options : PlanOptions}
    {text : String} {s s' : σ} {result : Plan}
    (h : runFrom s (plan b readBlock options text).run = (.ok result, s')) :
    ∃ lines progress,
      Expansion.expandText (FrontMatter.extractWith readBlock (normalize text)).2 = .ok lines ∧
      result =
        { operations := progress.operations.toList
          options :=
            { options with
              rules := FrontMatter.merge options.rules
                (FrontMatter.extractWith readBlock (normalize text)).1 }
          frontMatter := (FrontMatter.extractWith readBlock (normalize text)).1 } ∧
      runFrom s (planLines b result.options (parseLines lines)).run = (.ok progress, s') := by
  unfold plan at h
  simp only at h
  split at h
  · cases h
  · rename_i lines hlines
    obtain ⟨progress, s₁, hprogress, hresult⟩ := run_bind_eq_ok_iff.mp h
    simp only [runFrom_run_pure, Prod.mk.injEq, Except.ok.injEq] at hresult
    obtain ⟨rfl, rfl⟩ := hresult
    exact ⟨lines, progress, hlines, rfl, hprogress⟩

/-- The levels that are open behind the operation in front of position `k + 1`. -/
theorem openLevels_take_succ {own : List Operation} {k : Nat} {prev : Operation}
    (h : own[k]? = some prev) :
    openLevels (own.take (k + 1)) = if prev.isDirectory then prev.depth + 1 else prev.depth := by
  rw [List.take_add_one, h]
  simp [openLevels]

/-- **A plan is sound** for the lines of its expanded text. -/
theorem sound_plan {readBlock : String → Option FrontMatter} {options : PlanOptions}
    {text : String} {s s' : σ} {result : Plan}
    (h : runFrom s (plan b readBlock options text).run = (.ok result, s')) :
    ∃ lines progress,
      Expansion.expandText (FrontMatter.extractWith readBlock (normalize text)).2 = .ok lines ∧
      result.operations = progress.operations.toList ∧ result.options.root = options.root ∧
      Sound result.options (parseLines lines) progress := by
  obtain ⟨lines, progress, hlines, hresult, hprogress⟩ := plan_cases h
  have hsound : Sound result.options (parseLines lines) progress :=
    planLines_induction (fun done progress _ ↦ Sound result.options done progress)
      (fun _ _ _ _ h ↦ ⟨h.placed, h.stack, h.each, h.depths, h.levels⟩)
      (fun _ line _ s h ↦ h.planLine line s) (sound_nil _) hprogress
  exact ⟨lines, progress, hlines, by rw [hresult], by rw [hresult], hsound⟩

/-- **Every operation of a plan has its place.** -/
theorem placed_plan {readBlock : String → Option FrontMatter} {options : PlanOptions}
    {text : String} {s s' : σ} {result : Plan}
    (h : runFrom s (plan b readBlock options text).run = (.ok result, s')) {i : Nat}
    {op : Operation} (hop : result.operations[i]? = some op) :
    Placed options.root result.operations i op := by
  obtain ⟨lines, progress, -, hops, hroot, hsound⟩ := sound_plan h
  rw [hops] at hop ⊢
  have hplaced := hsound.placed i op hop
  rwa [List.nil_append, List.length_nil, Nat.zero_add, hroot] at hplaced

/-- **The forest of a plan, without the stack.** The operations that are not included are those for
the lines of the expanded text, in order, and the depth of each is that of its line, clamped to one
level below the line operation in front of it if that is a directory and to its level otherwise.
An operation of depth 0 is at the root of the structure. Any other one has as its parent the nearest
operation in front of it that is one level higher, which is a directory and behind which nothing up
to there is higher than the operation; its target is its name in the directory of its parent. -/
theorem plan_forest {readBlock : String → Option FrontMatter} {options : PlanOptions}
    {text : String} {s s' : σ} {result : Plan}
    (h : runFrom s (plan b readBlock options text).run = (.ok result, s')) :
    (∃ lines, Expansion.expandText (FrontMatter.extractWith readBlock (normalize text)).2 =
        .ok lines ∧
      List.Forall₂ (IsFor result.options) (parseLines lines) (ownOperations result.operations) ∧
      (∀ op, (ownOperations result.operations)[0]? = some op → op.depth = 0) ∧
      ∀ k line prev op, (parseLines lines)[k + 1]? = some line →
        (ownOperations result.operations)[k]? = some prev →
        (ownOperations result.operations)[k + 1]? = some op →
        op.depth = min line.depth (if prev.isDirectory then prev.depth + 1 else prev.depth)) ∧
    ∀ (i : Nat) (op : Operation), result.operations[i]? = some op →
      (op.parent = none ↔ op.depth = 0) ∧
      (op.parent = none → op.target = options.root.join (Path.ofText op.name)) ∧
      ∀ p, op.parent = some p → ∃ dir : Operation, result.operations[p]? = some dir ∧ p < i ∧
        dir.depth + 1 = op.depth ∧ dir.isDirectory = true ∧
        (∀ (j : Nat) (o : Operation), j < i → result.operations[j]? = some o →
          o.depth + 1 = op.depth → j ≤ p) ∧
        (∀ (j : Nat) (o : Operation), p < j → j < i → result.operations[j]? = some o →
          op.depth ≤ o.depth) ∧
        op.target = dir.target.join (Path.ofText op.name) := by
  obtain ⟨lines, progress, hlines, hresult, hprogress⟩ := plan_cases h
  have hsound : Sound result.options (parseLines lines) progress :=
    planLines_induction (fun done progress _ ↦ Sound result.options done progress)
      (fun _ _ _ _ h ↦ ⟨h.placed, h.stack, h.each, h.depths, h.levels⟩)
      (fun _ line _ s h ↦ h.planLine line s) (sound_nil _) hprogress
  have hops : result.operations = progress.operations.toList := by rw [hresult]
  have hroot : result.options.root = options.root := by rw [hresult]
  rw [hops]
  refine ⟨⟨lines, hlines, hsound.each, fun op hop ↦ ?_, fun k line prev op hline hprev hop ↦ ?_⟩,
    fun i op hop ↦ ?_⟩
  · have hlt : 0 < (parseLines lines).length := by
      rw [hsound.each.length_eq]
      exact (List.getElem?_eq_some_iff.mp hop).1
    rw [hsound.depths 0 _ op (List.getElem?_eq_getElem hlt) hop]
    simp [openLevels]
  · rw [hsound.depths (k + 1) line op hline hop, openLevels_take_succ hprev]
  · have hplaced := hsound.placed i op hop
    rw [List.nil_append, List.length_nil, Nat.zero_add] at hplaced
    unfold Placed at hplaced
    split at hplaced
    · rename_i hparent
      rw [hroot] at hplaced
      simp [hparent, hplaced.1, hplaced.2]
    · rename_i p hparent
      obtain ⟨dir, hdir⟩ := hplaced
      have hdepth := hdir.depth_eq
      refine ⟨by simp [hparent]; omega, by simp [hparent], fun p' hp' ↦ ?_⟩
      obtain rfl : p = p' := by simpa [hparent] using hp'
      -- nothing behind the parent is as high as it, so it is the nearest
      refine ⟨dir, hdir.found, hdir.before, hdepth.symm, hdir.isDirectory, fun j o hj ho heq ↦ ?_,
        hdir.between, hdir.target_eq⟩
      by_contra hlt
      have := hdir.between j o (by omega) hj ho
      omega

/-- A structure in which a directory with a file in it is copied, and the lines under it are
indented further than that allows. -/
def nestedCopy : Except PlanError Plan × MemoryStore :=
  runFrom (MemoryStore.empty.withFile (.ofText "/r/s/x.txt") ByteArray.empty)
    (plan MemoryStore.backend (fun _ ↦ none) { root := .ofText "/r" }
      "a\n\t[s] > b\n\t\t\t\tc.txt\n\t\t\t\t\td.txt").run

theorem plan_forest_nestedCopy : ∃ result, nestedCopy.1 = .ok result ∧
    result.operations.map (fun op ↦ (op.depth, op.parent)) =
      [(0, none), (1, some 0), (2, some 1), (2, some 1), (2, some 1)] ∧
    ∀ (i : Nat) (op : Operation), result.operations[i]? = some op →
      (op.parent = none ↔ op.depth = 0) := by
  have hshape : nestedCopy.1.toOption.map (fun result ↦
      result.operations.map fun op ↦ (op.depth, op.parent)) =
      some [(0, none), (1, some 0), (2, some 1), (2, some 1), (2, some 1)] := by
    decide +kernel
  rcases hrun : nestedCopy with ⟨e | result, s'⟩
  · rw [hrun] at hshape
    cases hshape
  · rw [hrun] at hshape
    exact ⟨result, rfl, Option.some.inj hshape, fun i op hop ↦ ((plan_forest hrun).2 i op hop).1⟩

end Planner

end Scaffold
