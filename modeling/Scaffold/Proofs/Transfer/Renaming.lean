import Scaffold.Proofs.Transfer.Survival

/-!
# Moves that rename on the way

Rules rename one name at a time, and nothing says that different names stay different. So when a
directory is moved entry by entry, two of its files can have one place, and the file that is carried
there later takes it. No operation fails by that, the source is removed in the end, and the other
file is gone without a warning (`renamed_files_merge`).

What is at a place in the end is what one of the files that were carried there had, as long as no
place is itself a source (`CarriedAlong.file_target`). So a move delivers all files exactly if those
that share a place have the same bytes and no place lies in the directory that is removed
(`renamed_move_delivers_iff`). Where the source and the target of the line lie does not matter for
this beyond what the places say.

A move as a whole renames nothing inside, and for it only the second condition is left.
-/

namespace Scaffold.Execution

open Planner Transfer

variable {plan : Plan} {op o : Operation} {source q : Path} {store s s' : MemoryStore}
  {rules : RenameRules} {items : List (List EntryName × Operation)} {done : List Operation}

/-! ### What is delivered -/

/-- The plan moves the directory `source` by an operation for each entry stored in it, which
`rules` rename. -/
structure Relocates (store : MemoryStore) (rules : RenameRules) (plan : Plan) (op : Operation)
    (source : Path) (items : List (List EntryName × Operation)) : Prop where
  operations : plan.operations = op :: items.map Prod.snd
  kind : op.kind = .move
  isDirectory : op.isDirectory = true
  source_eq : op.source = some source
  dir : store.node? source = some .dir
  walk : Walk store rules source op.target (fun _ ↦ True) items
  clean : ∀ x ∈ items, x.2.warning = none ∧ Relocated rules source op.target op.depth x.1 x.2

/-- Where a file that is reached along `names` is carried, when rules rename what is in a directory
that is carried to `target`. -/
def filePlace (rules : RenameRules) (target : Path) (names : List EntryName) : Path :=
  joined target (renamed rules false names)

/-- Every file that has an included operation is at its target, with the bytes that it had. -/
def Delivers (store : MemoryStore) (ops : List Operation) (s : MemoryStore) : Prop :=
  ∀ o ∈ ops, o.kind = .included → ∀ p bytes, o.source = some p →
    store.node? p = some (.file bytes) → s.node? o.target = some (.file bytes)

/-- **A stored file has an included operation**, which carries it to its place. -/
theorem Relocates.exists_operation (h : Relocates store rules plan op source items)
    {names : List EntryName} {bytes : ByteArray}
    (hfile : store.node? (source.under names) = some (.file bytes)) :
    ∃ o ∈ plan.operations, o.kind = .included ∧ o.source = some (source.under names) ∧
      o.target = filePlace rules op.target names := by
  obtain ⟨name, more, rfl⟩ : ∃ name more, names = name :: more := by
    rcases names with - | ⟨name, more⟩
    · rw [Path.under_nil, h.dir] at hfile
      cases hfile
    · exact ⟨name, more, rfl⟩
  obtain ⟨o, ho⟩ := (h.walk.covers (name :: more)).mpr ⟨⟨name, more, rfl, trivial⟩,
    by rw [hfile]; rfl, fun x hx hwarned ↦ absurd (h.clean x hx).1 hwarned⟩
  have hcarries := h.walk.carries _ ho
  obtain ⟨node, hnode, hkind⟩ := hcarries.stored
  obtain rfl := Option.some.inj (hfile.symm.trans hnode)
  refine ⟨o, ?_, hcarries.kind_eq, hcarries.source_eq, ?_⟩
  · rw [h.operations]
    exact List.mem_cons_of_mem _ (List.mem_map_of_mem ho)
  · rw [(h.clean _ ho).2.target_eq, hkind]
    rfl

/-- Behind the move there is an included operation for a stored entry each. -/
theorem Relocates.of_included (h : Relocates store rules plan op source items)
    (ho : o ∈ plan.operations) (hincluded : o.kind = .included) :
    ∃ names node, o.source = some (source.under names) ∧
      store.node? (source.under names) = some node ∧ o.isDirectory = (node.kind == .directory) ∧
      o.target = joined op.target (renamed rules o.isDirectory names) := by
  rw [h.operations] at ho
  rcases List.mem_cons.mp ho with rfl | ho
  · rw [h.kind] at hincluded
    cases hincluded
  obtain ⟨x, hx, rfl⟩ := List.mem_map.mp ho
  have hcarries := h.walk.carries x hx
  obtain ⟨node, hnode, hdir⟩ := hcarries.stored
  exact ⟨x.1, node, hcarries.source_eq, hnode, hdir, (h.clean x hx).2.target_eq⟩

/-- **An operation for a file** carries a stored file to its place. -/
theorem Relocates.of_file (h : Relocates store rules plan op source items)
    (ho : o ∈ plan.operations) (hfile : o.isDirectory = false) :
    ∃ names bytes, o.source = some (source.under names) ∧
      store.node? (source.under names) = some (.file bytes) ∧
      o.target = filePlace rules op.target names := by
  have hincluded : o.kind = .included := by
    rw [h.operations] at ho
    rcases List.mem_cons.mp ho with rfl | ho
    · rw [h.isDirectory] at hfile
      cases hfile
    · obtain ⟨x, hx, rfl⟩ := List.mem_map.mp ho
      exact (h.walk.carries x hx).kind_eq
  obtain ⟨names, node, hsource, hnode, hkind, htarget⟩ := h.of_included ho hincluded
  rw [hfile] at hkind htarget
  cases node with
  | dir => cases hkind
  | file bytes => exact ⟨names, bytes, hsource, hnode, htarget⟩

/-- Every source is at or below the directory that is moved. -/
theorem Relocates.source_below (h : Relocates store rules plan op source items)
    (ho : o ∈ plan.operations) {p : Path} (hp : o.source = some p) :
    ∃ names, p = source.under names := by
  rw [h.operations] at ho
  rcases List.mem_cons.mp ho with rfl | ho
  · exact ⟨[], Option.some.inj (hp.symm.trans h.source_eq)⟩
  · obtain ⟨x, hx, rfl⟩ := List.mem_map.mp ho
    exact ⟨x.1, Option.some.inj (hp.symm.trans (h.walk.carries x hx).source_eq)⟩

/-- **What is delivered** when all has been carried along and the source is removed behind that. -/
theorem Relocates.delivers_iff (h : Relocates store rules plan op source items)
    (hcarried : CarriedAlong store plan.operations s) (hrm : s.rm source true = .ok s') :
    Delivers store plan.operations s' ↔
      (∀ names bytes, store.node? (source.under names) = some (.file bytes) →
        (filePlace rules op.target names).startsWith source = false) ∧
      ∀ names names' bytes bytes', store.node? (source.under names) = some (.file bytes) →
        store.node? (source.under names') = some (.file bytes') →
        filePlace rules op.target names ≈ filePlace rules op.target names' → bytes = bytes' := by
  have hthere : s.kindOf? source = some .directory :=
    hcarried.kindOf?_keeps (MemoryStore.kindOf?_eq_directory_iff.mpr (.inr h.dir))
  obtain ⟨removed, hremoved, hview⟩ := MemoryStore.rm_directory hthere
  obtain rfl := Except.ok.inj (hremoved.symm.trans hrm)
  constructor
  · intro hdelivers
    have hplace : ∀ names bytes, store.node? (source.under names) = some (.file bytes) →
        removed.node? (filePlace rules op.target names) = some (.file bytes) := by
      intro names bytes hfile
      obtain ⟨o, ho, hkind, hsource, htarget⟩ := h.exists_operation hfile
      rw [← htarget]
      exact hdelivers o ho hkind _ bytes hsource hfile
    refine ⟨fun names bytes hfile ↦ ?_, fun names names' bytes bytes' hfile hfile' hsame ↦ ?_⟩
    · have hkept := hplace names bytes hfile
      rw [hview] at hkept
      rw [Bool.eq_false_iff]
      intro hin
      rw [if_pos hin] at hkept
      cases hkept
    · have hkept := hplace names bytes hfile
      rw [removed.node?_congr hsame, hplace names' bytes' hfile'] at hkept
      exact (StoredNode.file.inj (Option.some.inj hkept)).symm
  · rintro ⟨hapart, hmerges⟩ o ho hincluded p bytes hp hfile
    have hdir : o.isDirectory = false := by
      obtain ⟨names, node, hsource, hnode, hdir, -⟩ := h.of_included ho hincluded
      obtain rfl := Option.some.inj (hp.symm.trans hsource)
      obtain rfl := Option.some.inj (hfile.symm.trans hnode)
      exact hdir
    obtain ⟨names, -, hsource, -, htarget⟩ := h.of_file ho hdir
    obtain rfl := Option.some.inj (hp.symm.trans hsource)
    -- no file is carried to a source, so what is at the target is what one of the files had
    have hsources : ∀ o ∈ plan.operations, o.isDirectory = false → ∀ o' ∈ plan.operations, ∀ p,
        o'.source = some p → ¬o.target ≈ p := by
      intro o₁ ho₁ hkind₁ o₂ ho₂ p hp hsame
      obtain ⟨names₁, bytes₁, -, hfile₁, htarget₁⟩ := h.of_file ho₁ hkind₁
      obtain ⟨names₂, rfl⟩ := h.source_below ho₂ hp
      have hin := Path.startsWith_of_under hsame
      rw [htarget₁, hapart names₁ bytes₁ hfile₁] at hin
      cases hin
    obtain ⟨o', ho', hkind', hplace, p', bytes', hp', hstored, hthere⟩ :=
      hcarried.file_target hsources ho hdir
    obtain ⟨names', -, hsource', -, htarget'⟩ := h.of_file ho' hkind'
    obtain rfl := Option.some.inj (hp'.symm.trans hsource')
    rw [htarget', htarget] at hplace
    rw [hview, if_neg (by simp [htarget, hapart names bytes hfile]), hthere,
      hmerges names' names bytes' bytes hstored hfile hplace]

/-! ### Structures of one line -/

variable {readBlock : String → Option FrontMatter} {options : PlanOptions} {text : String}

/-- **What a move delivers when it renames.** A single line moves the directory `source` that is
stored in a tree, under any rules, the names in it are texts, and the run leaves no warning. If the
line has the name of a directory, every file in it has an included operation, which carries it to
its place; and all files are at the targets of their operations with their bytes exactly if no place
lies in the source and files with different bytes have different places. If the line has the name of
a file, nothing is renamed, and each file has kept its name and its bytes exactly if no file is
carried into the source. -/
theorem renamed_move_delivers_iff {store store' : MemoryStore} {report : Report}
    (hwf : store.WellFormed) (hline : IsLineUnder readBlock options text rules op)
    (hmove : op.kind = .move) (hrecursive : options.recursive = true)
    (hsource : op.source = some source) (hdir : store.node? source = some .dir)
    (hspelled : store.SpelledBelow source)
    (hrun : runFrom store (execute MemoryStore.backend readBlock options text).run =
      (.ok report, store'))
    (hquiet : report.warnings = []) :
    (op.isDirectory = true →
      (∀ names bytes, store.node? (source.under names) = some (.file bytes) →
        ∃ o ∈ report.operations, o.kind = .included ∧ o.source = some (source.under names) ∧
          o.target = filePlace rules op.target names) ∧
      (Delivers store report.operations store' ↔
        (∀ names bytes, store.node? (source.under names) = some (.file bytes) →
          (filePlace rules op.target names).startsWith source = false) ∧
        ∀ names names' bytes bytes', store.node? (source.under names) = some (.file bytes) →
          store.node? (source.under names') = some (.file bytes') →
          filePlace rules op.target names ≈ filePlace rules op.target names' →
            bytes = bytes')) ∧
    (op.isDirectory = false → report.operations = [op] ∧
      (KeepsFiles store source op.target store' ↔
        ∀ names bytes, store.node? (source.under names) = some (.file bytes) →
          (op.target.under names).startsWith source = false)) := by
  obtain ⟨plan, s₁, hplan, hexecute⟩ := run_bind_eq_ok_iff.mp hrun
  rw [runFrom_lift] at hexecute
  obtain ⟨hreport, rfl⟩ := Prod.mk.inj hexecute
  obtain rfl := Except.ok.inj hreport
  have hkind : store.kindOf? source = some .directory :=
    MemoryStore.kindOf?_eq_directory_iff.mpr (.inr hdir)
  obtain ⟨rfl, items, hoperations, hend, hnothing, hall⟩ :=
    plan_of_stored hwf hline hsource hkind hplan
  have hops : (runFrom s₁ (executePlan MemoryStore.backend plan)).1.operations =
      plan.operations := by
    rw [executePlan_eq, runFrom_bind]
    rfl
  rw [hops]
  refine ⟨fun hname ↦ ?_, fun hname ↦ ?_⟩
  · obtain ⟨-, hitems, hwhole⟩ := hall hname hrecursive rfl
    obtain ⟨hclean, hwalk⟩ := hwhole hspelled
    have hrelocates : Relocates s₁ rules plan op source items :=
      ⟨hoperations, hmove, hname, hsource, hdir, hwalk,
        fun x hx ↦ ⟨hclean x hx, (hitems x hx).2⟩⟩
    refine ⟨fun _ _ ↦ hrelocates.exists_operation, ?_⟩
    by_cases hitems : items = []
    -- without included operations there are no files
    · subst hitems
      have hincluded : ∀ o ∈ plan.operations, o.kind ≠ .included := by
        simp [hoperations, hmove]
      have hempty : ∀ names bytes, s₁.node? (source.under names) ≠ some (.file bytes) := by
        intro names bytes hfile
        obtain ⟨o, ho, hkind, -⟩ := hrelocates.exists_operation hfile
        exact hincluded o ho hkind
      refine iff_of_true (fun o ho hkind ↦ absurd hkind (hincluded o ho)) ⟨?_, ?_⟩
      · exact fun names bytes hfile ↦ absurd hfile (hempty names bytes)
      · exact fun names _ bytes _ hfile ↦ absurd hfile (hempty names bytes)
    · rw [if_neg hitems] at hend
      have hincludes := includes_of_walk hoperations hend (.inr hmove) hname hsource hwalk
      obtain ⟨s, hcarried, hrm⟩ := hincludes.carriedAlong_executePlan MemoryStore.serves_backend
        (s := s₁) hdir hquiet
      rw [if_pos hmove] at hrm
      exact hrelocates.delivers_iff hcarried hrm
  · obtain rfl : items = [] := hnothing (by simp [hname])
    obtain ⟨-, s, hcomplete, hrm⟩ := transferred_whole MemoryStore.serves_backend (s := s₁) hwf
      hoperations (.inr hmove) hsource hdir hspelled hquiet
    rw [if_pos hmove] at hrm
    exact ⟨hoperations, hcomplete.keeps_rm_iff hdir hrm⟩

/-- Rules that rename one letter in file names. -/
def letterRules (replace : String) : RenameRules := { files := [⟨"a", replace⟩] }

/-- The directory with two files is moved under such rules. -/
def lettersRun (replace : String) : Except PlanError Report × MemoryStore :=
  runFrom twoDrafts (execute MemoryStore.backend (fun _ ↦ none)
    { root := .ofText "/r", rules := letterRules replace } "(src) > dst").run

theorem isLineUnder_letters {replace : String} (h : replace ∈ ["b", "c"]) :
    IsLineUnder (fun _ ↦ none) { root := .ofText "/r", rules := letterRules replace } "(src) > dst"
      (letterRules replace) draftsMove :=
  ⟨["(src) > dst"], ⟨1, .none, .move "src" (some "dst")⟩, by decide +kernel, by decide +kernel, rfl,
    by revert replace; decide +kernel⟩

/-- The name of the first file. -/
def firstDraft : EntryName := .spelled "a.txt" (by decide +kernel)

/-- The names of the two files. -/
theorem twoDrafts_names {names : List EntryName} {bytes : ByteArray}
    (h : twoDrafts.node? ((Path.ofText "/r/src").under names) = some (.file bytes)) :
    names = [firstDraft] ∧ bytes = ⟨#[97]⟩ ∨ names = [secondDraft] ∧ bytes = ⟨#[98]⟩ := by
  have hentries : ∀ e ∈ twoDrafts.entries, e.node = .dir ∨
      e.path ≈ (Path.ofText "/r/src").under [firstDraft] ∧ e.node = .file ⟨#[97]⟩ ∨
      e.path ≈ (Path.ofText "/r/src").under [secondDraft] ∧ e.node = .file ⟨#[98]⟩ := by
    decide +kernel
  obtain ⟨e, he, hpath, hnode⟩ := MemoryStore.node?_eq_some_iff.mp h
  rcases hentries e he with hdir | ⟨hplace, hfile⟩ | ⟨hplace, hfile⟩
  · rw [hdir] at hnode
    cases hnode
  · rw [hfile] at hnode
    exact .inl ⟨(Path.under_equiv_iff _ _ _).mp (Eq.trans (Eq.symm hpath) hplace),
      (StoredNode.file.inj hnode).symm⟩
  · rw [hfile] at hnode
    exact .inr ⟨(Path.under_equiv_iff _ _ _).mp (Eq.trans (Eq.symm hpath) hplace),
      (StoredNode.file.inj hnode).symm⟩

/-- The two files are given different names, so both are delivered. -/
theorem renamed_move_delivers_iff_letters : ∃ report store',
    lettersRun "c" = (.ok report, store') ∧ report.warnings = [] ∧
      Delivers twoDrafts report.operations store' := by
  obtain ⟨report, store', hrun, hquiet⟩ : ∃ report store', lettersRun "c" = (.ok report, store') ∧
      report.warnings = [] :=
    exists_runFrom_eq_ok (by decide +kernel)
  obtain ⟨hdir, hspelled⟩ : twoDrafts.node? (.ofText "/r/src") = some .dir ∧
      twoDrafts.SpelledBelow (.ofText "/r/src") := by
    decide +kernel
  have hdelivers := (renamed_move_delivers_iff wellFormed_twoDrafts (isLineUnder_letters (by simp))
    rfl rfl rfl hdir hspelled hrun hquiet).1 rfl
  refine ⟨report, store', hrun, hquiet, hdelivers.2.mpr ⟨?_, ?_⟩⟩
  · intro names bytes hfile
    rcases twoDrafts_names hfile with ⟨rfl, -⟩ | ⟨rfl, -⟩ <;> decide +kernel
  · intro names names' bytes bytes' hfile hfile' hsame
    rcases twoDrafts_names hfile with ⟨rfl, rfl⟩ | ⟨rfl, rfl⟩ <;>
      rcases twoDrafts_names hfile' with ⟨rfl, rfl⟩ | ⟨rfl, rfl⟩
    · rfl
    · revert hsame
      decide +kernel
    · revert hsame
      decide +kernel
    · rfl

/-- The two files are given one name, so the second one takes the place of the first, which is
stored nowhere after the move. Nothing is warned of. -/
theorem renamed_files_merge : twoDrafts.WellFormed ∧ twoDrafts.Named ∧
    IsLineUnder (fun _ ↦ none) { root := .ofText "/r", rules := letterRules "b" } "(src) > dst"
      (letterRules "b") draftsMove ∧
    twoDrafts.node? (.ofText "/r/src") = some .dir ∧
    (∀ e ∈ twoDrafts.entries, e.path.startsWith draftsMove.target = false) ∧
    draftsMove.target.startsWith (.ofText "/r/src") = false ∧
    (Path.ofText "/r/src").startsWith draftsMove.target = false ∧
    twoDrafts.node? (.ofText "/r/src/a.txt") = some (.file ⟨#[97]⟩) ∧
    ∃ report store', lettersRun "b" = (.ok report, store') ∧ report.warnings = [] ∧
      (∃ o ∈ report.operations, o.kind = .included ∧
        (∃ p ∈ o.source, p ≈ .ofText "/r/src/a.txt") ∧
        store'.node? o.target = some (.file ⟨#[98]⟩)) ∧
      ∀ e ∈ store'.entries, e.node ≠ .file ⟨#[97]⟩ := by
  have hstored : twoDrafts.Named ∧ twoDrafts.node? (.ofText "/r/src") = some .dir ∧
      (∀ e ∈ twoDrafts.entries, e.path.startsWith draftsMove.target = false) ∧
      draftsMove.target.startsWith (.ofText "/r/src") = false ∧
      (Path.ofText "/r/src").startsWith draftsMove.target = false ∧
      twoDrafts.node? (.ofText "/r/src/a.txt") = some (.file ⟨#[97]⟩) := by
    decide +kernel
  obtain ⟨hnamed, hdir, hroom, houtside, hbeside, hfile⟩ := hstored
  exact ⟨wellFormed_twoDrafts, hnamed, isLineUnder_letters (by simp), hdir, hroom, houtside,
    hbeside, hfile, exists_runFrom_eq_ok (by decide +kernel)⟩

end Scaffold.Execution
