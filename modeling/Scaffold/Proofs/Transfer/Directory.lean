import Scaffold.Proofs.Plan.OneLine
import Scaffold.Proofs.Transfer.Included
import Scaffold.Proofs.Transfer.Whole

/-!
# Transfers of directories

A structure of one line copies or moves a directory. When the line has the name of a directory, the
plan has an operation for each entry that is stored in it (`inside_of_oneLine`), and each of these
operations that succeeds carries its entry over (`Filling.step`), all of them if there is no warning
(`transferred_byEntries`). When the line has the name of a file the directory is copied as a whole.
Either way the transfer is complete, and the source of a move is removed behind it
(`transferred_of_quiet`).

A target in or at the source is refused, but the source may lie in the target. Then an entry can be
carried to a place in the source, where another one waits to be carried over, and where a move
removes it again. So content is not kept in general: `directory_transfer_keeps_iff` says exactly
when it is, and `directory_transfer_keeps_beside` that it is when neither lies in the other.
-/

namespace Scaffold

variable {σ : Type} {b : Backend (StateM σ)} {view : σ → MemoryStore}

namespace Execution

open Planner Transfer

variable {plan : Plan} {op : Operation} {source target : Path} {store : MemoryStore}
  {items : List (List EntryName × Operation)}

/-! ### Entry by entry -/

/-- The plan transfers the directory `source` by an operation for each of some entries, which are
told by the names that lead to them. -/
structure ByEntries (store : MemoryStore) (plan : Plan) (op : Operation) (source : Path)
    (items : List (List EntryName × Operation)) : Prop where
  operations : plan.operations = op :: items.map Prod.snd
  last : plan.includedEnd? 0 = some items.length
  kind : op.kind = .copy ∨ op.kind = .move
  source_eq : op.source = some source
  dir : store.node? source = some .dir
  included : ∀ x ∈ items, x.2.kind = .included ∧ x.2.source = some (source.under x.1) ∧
    x.2.target ≈ op.target.under x.1

/-- What a walk has found is told by the names that lead to it. -/
theorem included_of_walk (hwalk : Walk store {} source target (fun _ ↦ True) items) :
    ∀ x ∈ items, x.2.kind = .included ∧ x.2.source = some (source.under x.1) ∧
      x.2.target ≈ target.under x.1 := by
  intro x hx
  have hcarries := hwalk.carries x hx
  exact ⟨hcarries.kind_eq, hcarries.source_eq, hcarries.target_eq rfl⟩

theorem ByEntries.length_eq (h : ByEntries store plan op source items) :
    plan.operations.length = items.length + 1 := by simp [h.operations]

/-- The entries that the operation for a directory and those for what is in it carry over. -/
def entriesOf (items : List (List EntryName × Operation)) : List Entry :=
  ([], .directory) :: items.map toldBy

/-- What holds in front of position `n` when a directory is transferred entry by entry. -/
structure Filling (store : MemoryStore) (op : Operation) (source : Path)
    (items : List (List EntryName × Operation)) (n : Nat) (run : Run) (s : MemoryStore) : Prop where
  carried : CarriedOver source op.target store ((entriesOf items).take n) s
  skipThrough : run.skipThrough = none
  pending : run.pending =
    if op.kind = .move ∧ 0 < n then [⟨items.length, source, true⟩] else []

theorem Filling.underway {n : Nat} {run : Run} {s : MemoryStore}
    (h : Filling store op source items n run s) : Underway op source items.length n run :=
  ⟨h.skipThrough, h.pending⟩

/-- **One operation carries one entry over**, if it succeeds. -/
theorem Filling.step (hb : Serves b view) (hplan : ByEntries store plan op source items) {n : Nat}
    {o : Operation} {run run' : Run} {s s' : σ} (ho : plan.operations[n]? = some o)
    (h : Filling store op source items n run (view s)) (hstep : Steps b plan n o run s run' s')
    (hlog : run'.log = run.log.push (o.logged .succeeded)) :
    Filling store op source items (n + 1) run' (view s') := by
  -- it is enough that the operation carries the entry at its position
  have hnext : ∀ x, (entriesOf items)[n]? = some x → Carry source op.target x (view s) (view s') →
      CarriedOver source op.target store ((entriesOf items).take (n + 1)) (view s') := by
    intro x hx hcarry
    rw [List.take_add_one, hx]
    exact h.carried.next hcarry
  rcases n with - | n
  · obtain rfl : op = o := by simpa [hplan.operations] using ho
    have hdir : (view s).kindOf? source = some .directory :=
      h.carried.kindOf?_keeps (MemoryStore.kindOf?_eq_directory_iff.mpr (.inr hplan.dir))
    obtain ⟨hunderway, s₁, hview, hensure⟩ :=
      h.underway.opens hb hplan.kind hplan.source_eq hplan.last hdir hstep hlog
    refine ⟨hnext _ rfl ?_, hunderway.skipThrough, hunderway.pending⟩
    rw [← hview]
    exact carry_of_ensureDir hb rfl hensure
  · obtain ⟨x, hx, rfl⟩ : ∃ x, items[n]? = some x ∧ x.2 = o := by
      simpa [hplan.operations] using ho
    obtain ⟨hkind, hsource, htarget⟩ := hplan.included x (List.mem_of_getElem? hx)
    obtain ⟨hunderway, hok⟩ := h.underway.includes hkind hsource hstep hlog
    refine ⟨hnext _ ?_ (carry_of_tryInclude hb htarget hok), hunderway.skipThrough,
      hunderway.pending⟩
    simp [entriesOf, hx, toldBy]

/-- The move ends behind the last operation only. -/
theorem Filling.ahead {n : Nat} {run : Run} {s : MemoryStore}
    (h : Filling store op source items n run s) (hn : n ≤ items.length) :
    ∀ p ∈ run.pending, n ≤ p.last :=
  h.underway.ahead hn

theorem toldBy_eq {x : List EntryName × Operation} {kind : EntryKind}
    (h : x.2.isDirectory = (kind == .directory)) : toldBy x = (x.1, kind) := by
  rw [toldBy, h]
  cases kind <;> rfl

/-- The directory and what is in it, in the order of the paths. -/
theorem inOrder_entriesOf (hwalk : Walk store {} source target (fun _ ↦ True) items) :
    InOrder source (entriesOf items) := by
  refine List.pairwise_cons.mpr ⟨fun x hx ↦ ?_, List.pairwise_map.mpr hwalk.sorted⟩
  obtain ⟨y, hy, rfl⟩ := List.mem_map.mp hx
  obtain ⟨name, more, hnames, -⟩ := hwalk.seen_of_mem hy
  rw [show (toldBy y).1 = name :: more from hnames]
  exact Path.order_under_self source name more

/-- The entries are those that are stored. -/
theorem mem_entriesOf_iff (hwalk : Walk store {} source target (fun _ ↦ True) items)
    (hclean : ∀ x ∈ items, x.2.warning = none) (hdir : store.node? source = some .dir) (x : Entry) :
    x ∈ entriesOf items ↔ ∃ n, store.node? (source.under x.1) = some n ∧ n.kind = x.2 := by
  rw [entriesOf, List.mem_cons, List.mem_map]
  constructor
  · rintro (rfl | ⟨y, hy, rfl⟩)
    · exact ⟨.dir, hdir, rfl⟩
    · obtain ⟨node, hnode, hkind⟩ := (hwalk.carries y hy).stored
      exact ⟨node, hnode, by rw [toldBy_eq hkind]⟩
  · rintro ⟨node, hnode, hkind⟩
    obtain ⟨names, kind⟩ := x
    rcases names with - | ⟨name, more⟩
    · obtain rfl := Option.some.inj (hdir.symm.trans hnode)
      exact .inl (Prod.ext rfl hkind.symm)
    · obtain ⟨o, ho⟩ := (hwalk.covers (name :: more)).mpr
        ⟨⟨name, more, rfl, trivial⟩, by rw [hnode]; rfl,
          fun x hx hwarned ↦ absurd (hclean x hx) hwarned⟩
      obtain ⟨node', hnode', hkind'⟩ := (hwalk.carries _ ho).stored
      obtain rfl := Option.some.inj (hnode.symm.trans hnode')
      exact .inr ⟨_, ho, (toldBy_eq hkind').trans (Prod.ext rfl hkind)⟩

/-- The entries that are stored are carried over in order. -/
theorem complete_of_walk (hwalk : Walk store {} source target (fun _ ↦ True) items)
    (hdir : store.node? source = some .dir) (hclean : ∀ x ∈ items, x.2.warning = none)
    {s : MemoryStore} (h : CarriedOver source target store (entriesOf items) s) :
    Complete store source target False s := by
  refine ⟨entriesOf items, h, inOrder_entriesOf hwalk, fun x ↦ ?_⟩
  rw [mem_entriesOf_iff hwalk hclean hdir, meets_iff_stored]

/-- All is carried over, and the source of a move is removed behind that. -/
def Transferred (store : MemoryStore) (op : Operation) (source : Path) (whole : Prop)
    (s : MemoryStore) : Prop :=
  ∃ s₁, Complete store source op.target whole s₁ ∧
    if op.kind = .move then s₁.rm source true = .ok s else s₁ = s

/-- **A directory is transferred entry by entry**, unless there is a warning. -/
theorem transferred_byEntries (hb : Serves b view) {s : σ}
    (hplan : ByEntries (view s) plan op source items)
    (hwalk : Walk (view s) {} source op.target (fun _ ↦ True) items) (hname : op.isDirectory = true)
    (hclean : ∀ x ∈ items, x.2.warning = none)
    (hquiet : (runFrom s (executePlan b plan)).1.warnings = []) :
    Transferred (view s) op source False (view (runFrom s (executePlan b plan)).2) := by
  have hincludes := includes_of_walk hplan.operations hplan.last hplan.kind hname hplan.source_eq
    hwalk
  obtain ⟨s₁, hcarried, hrest⟩ := hincludes.carriedAlong_executePlan hb hplan.dir hquiet
  have hplaced : ∀ x ∈ ([], op) :: items,
      x.2.source = some (source.under x.1) ∧ x.2.target ≈ op.target.under x.1 := by
    exact List.forall_mem_cons.mpr ⟨⟨hplan.source_eq, rfl⟩, fun x hx ↦ (hplan.included x hx).2⟩
  have hover : CarriedOver source op.target (view s)
      ((([], op) :: items).map fun x ↦ (x.1, .ofIsDirectory x.2.isDirectory)) s₁ :=
    hcarried.carriedOver hplan.operations.symm hplaced
  rw [List.map_cons, hname] at hover
  exact ⟨s₁, complete_of_walk hwalk hplan.dir hclean hover, hrest⟩

/-! ### As a whole -/

/-- **A directory without included operations** is copied as a whole, and removed if it is moved. -/
theorem Transfers.folder (hb : Serves b view) {pending : Option PendingMove} {s s' : σ}
    (hdir : (view s).kindOf? source = some .directory)
    (h : Transfers b none op source s pending s') :
    op.target.startsWith source = false ∧ ∃ s₁ s₂, view s₁ = view s ∧
      runFrom s₁ (b.copyFolder source op.target).run = (.ok (), s₂) ∧
      if op.kind = .move then runFrom s₂ (b.rm source true).run = (.ok (), s') else s₂ = s' := by
  cases h with
  | file hstat hfile =>
    have hfound := (hb.stat_ok hstat).2
    rw [hdir, hfile] at hfound
    cases hfound
  | opens _ _ _ hlast => cases hlast
  | whole hstat _ houtside _ hfolder =>
    have hview := (hb.stat_ok hstat).1
    split at hfolder
    · rename_i hmove
      rw [hb.byCalls.moveFolder_eq] at hfolder
      obtain ⟨⟨⟩, s₂, hcopy, hrm⟩ := run_bind_eq_ok_iff.mp hfolder
      exact ⟨houtside, _, s₂, hview, hcopy, by rwa [if_pos hmove]⟩
    · rename_i hmove
      exact ⟨houtside, _, s', hview, hfolder, by rw [if_neg hmove]⟩

/-- **A transfer without included operations** is made as a whole. -/
theorem Transfers.whole_transferred (hb : Serves b view) {pending : Option PendingMove} {s s' : σ}
    (hwf : (view s).WellFormed) (hdir : (view s).node? source = some .dir)
    (hspelled : (view s).SpelledBelow source)
    (h : Transfers b none op source s pending s') :
    op.target.startsWith source = false ∧ Transferred (view s) op source True (view s') := by
  obtain ⟨houtside, s₁, s₂, hview, hcopy, hremoved⟩ :=
    h.folder hb (MemoryStore.kindOf?_eq_directory_iff.mpr (.inr hdir))
  rw [← hview] at hwf hdir hspelled ⊢
  refine ⟨houtside, _, complete_copyFolder hb hwf hdir hspelled houtside hcopy, ?_⟩
  split at hremoved
  · rename_i hmove
    rw [if_pos hmove]
    exact (hb.rm source true _ _).1 hremoved
  · rename_i hmove
    rw [if_neg hmove, hremoved]

/-- **A directory without included operations is transferred as a whole**, unless there is a
warning. -/
theorem transferred_whole (hb : Serves b view) {s : σ} (hwf : (view s).WellFormed)
    (hplan : plan.operations = [op]) (hkind : op.kind = .copy ∨ op.kind = .move)
    (hsource : op.source = some source) (hdir : (view s).node? source = some .dir)
    (hspelled : (view s).SpelledBelow source)
    (hquiet : (runFrom s (executePlan b plan)).1.warnings = []) :
    op.target.startsWith source = false ∧
      Transferred (view s) op source True (view (runFrom s (executePlan b plan)).2) := by
  have hend : plan.includedEnd? 0 = none := by simp [Plan.includedEnd?, hplan]
  rw [runFrom_executePlan_single b hplan s] at hquiet ⊢
  -- the only operation is the transfer, and it has no included operations
  have hstep := step_cases b plan 0 op (start plan) s
  set next := runFrom s (step b plan 0 op (start plan))
  have hlog := hstep.succeeded_of_quiet (by simp [Run.skips, start_eq])
    (by simpa [Run.report] using hquiet)
  obtain ⟨pending, s₁, hexists, htransfers, -⟩ := hstep.of_succeeded hlog hkind hsource
  have hview : view s₁ = view s := hb.exists_ok hexists
  rw [hend] at htransfers
  rw [← hview] at hwf hdir hspelled ⊢
  exact htransfers.whole_transferred hb hwf hdir hspelled

/-! ### Either way -/

variable {readBlock : String → Option FrontMatter} {options : PlanOptions} {text : String}

/-- **A directory whose names are texts is transferred**, unless there is a warning: as a whole if
its line has the name of a file, and else entry by entry. -/
theorem transferred_of_quiet (hb : Serves b view) {s s' : σ} {report : Report}
    (hwf : (view s).WellFormed) (hline : IsOneLine readBlock options text op)
    (hrecursive : options.recursive = true) (hsource : op.source = some source)
    (hdir : (view s).node? source = some .dir) (hspelled : (view s).SpelledBelow source)
    (hrun : runFrom s (execute b readBlock options text).run = (.ok report, s'))
    (hquiet : report.warnings = []) :
    Transferred (view s) op source (op.isDirectory = false) (view s') := by
  obtain ⟨plan, s₁, hplan, hexecute⟩ := run_bind_eq_ok_iff.mp hrun
  rw [runFrom_lift] at hexecute
  obtain ⟨hreport, rfl⟩ := Prod.mk.inj hexecute
  obtain rfl := Except.ok.inj hreport
  have hwarnings : plan.warnings = [] := by
    have hstart := quiet_runBefore hquiet (Nat.zero_le _)
    rw [runBefore_zero, runFrom_pure, start_eq] at hstart
    simpa using hstart
  have hkind : op.kind = .copy ∨ op.kind = .move := hline.kind_of_source hsource
  obtain ⟨hview, inside, hops, hend, hwhole, hentries⟩ :=
    inside_of_oneLine hb hline hrecursive hsource hwf hdir hspelled hplan hwarnings
  rw [← hview] at hwf hdir hspelled hentries ⊢
  rcases hname : op.isDirectory with - | -
  · rw [hwhole hname] at hops
    have htransferred := (transferred_whole hb hwf hops hkind hsource hdir hspelled hquiet).2
    simpa using htransferred
  · obtain ⟨items, rfl, hclean, hwalk⟩ := hentries hname
    rcases items with - | ⟨x, items⟩
    -- an empty directory has no included operations, and the walk finds nothing either
    · obtain ⟨houtside, s₂, hcomplete, hrest⟩ :=
        transferred_whole hb hwf hops hkind hsource hdir hspelled hquiet
      refine ⟨s₂, hcomplete.of_empty hdir houtside fun name more ↦ ?_, hrest⟩
      by_contra hstored
      have hcovers := (hwalk.covers (name :: more)).mpr
        ⟨⟨name, more, rfl, trivial⟩, Option.isSome_iff_ne_none.mpr hstored, nofun⟩
      simp at hcovers
    · rw [if_neg (by simp)] at hend
      have hplan : ByEntries (view s₁) plan op source (x :: items) :=
        ⟨hops, by simpa using hend, hkind, hsource, hdir, included_of_walk hwalk⟩
      simpa using transferred_byEntries hb hplan hwalk hname hclean hquiet

/-- **Files are kept when neither directory lies in the other.** -/
theorem directory_transfer_keeps_beside {store store' : MemoryStore} {report : Report}
    (hwf : store.WellFormed) (hline : IsOneLine readBlock options text op)
    (hrecursive : options.recursive = true) (hsource : op.source = some source)
    (hdir : store.node? source = some .dir) (hspelled : store.SpelledBelow source)
    (houtside : op.target.startsWith source = false) (hbeside : source.startsWith op.target = false)
    (hrun : runFrom store (execute MemoryStore.backend readBlock options text).run =
      (.ok report, store'))
    (hquiet : report.warnings = []) : KeepsFiles store source op.target store' := by
  obtain ⟨s₁, hcomplete, hrest⟩ : Transferred store op source (op.isDirectory = false) store' :=
    transferred_of_quiet MemoryStore.serves_backend hwf hline hrecursive hsource hdir hspelled hrun
      hquiet
  have hapart : ∀ names, (op.target.under names).startsWith source = false := fun names ↦
    Path.under_startsWith_of_beside houtside hbeside names
  split at hrest
  · exact (hcomplete.keeps_rm_iff hdir hrest).mpr fun names _ _ ↦ hapart names
  · subst hrest
    refine hcomplete.keeps_iff.mpr fun names bytes hfile ↦ .own hfile fun earlier _ _ hplace ↦ ?_
    exact absurd (Path.startsWith_of_under hplace) (Bool.eq_false_iff.mp (hapart earlier))

/-- **What a transfer of a directory keeps.** A single line copies or moves the directory `source`
that is stored in a tree, the names in it are texts, nothing is renamed, and the run leaves no
warning. However source and target overlap, a copy has every file in its place exactly if no file is
given the bytes of another that was carried to its place before, and a move has exactly if none of
the places lies in the source. -/
theorem directory_transfer_keeps_iff {store store' : MemoryStore} {report : Report}
    (hwf : store.WellFormed) (hline : IsOneLine readBlock options text op)
    (hrecursive : options.recursive = true) (hsource : op.source = some source)
    (hdir : store.node? source = some .dir) (hspelled : store.SpelledBelow source)
    (hrun : runFrom store (execute MemoryStore.backend readBlock options text).run =
      (.ok report, store'))
    (hquiet : report.warnings = []) :
    (op.kind = .copy → (KeepsFiles store source op.target store' ↔
      ∀ names bytes, store.node? (source.under names) = some (.file bytes) →
        Yields store source op.target (Meets store source op.target (op.isDirectory = false))
          names bytes)) ∧
    (op.kind = .move → (KeepsFiles store source op.target store' ↔
      ∀ names bytes, store.node? (source.under names) = some (.file bytes) →
        (op.target.under names).startsWith source = false)) := by
  obtain ⟨s₁, hcomplete, hrest⟩ : Transferred store op source (op.isDirectory = false) store' :=
    transferred_of_quiet MemoryStore.serves_backend hwf hline hrecursive hsource hdir hspelled hrun
      hquiet
  constructor
  · intro hcopy
    obtain rfl : s₁ = store' := by simpa [hcopy] using hrest
    exact hcomplete.keeps_iff
  · intro hmove
    rw [if_pos hmove] at hrest
    exact hcomplete.keeps_rm_iff hdir hrest

/-- A directory `/a/b` with a file in it, and another one in its directory `c`. -/
def nestedStore (c : String) : MemoryStore :=
  (MemoryStore.empty.withFile (.ofText s!"/a/b/{c}/x.txt") ⟨#[50]⟩).withFile (.ofText "/a/b/x.txt")
    ⟨#[49]⟩

/-- The directory is transferred to the one around it. -/
def nestedTransfer (kind : OperationKind) : Operation :=
  ⟨kind, .ofText "/a", some (.ofText "/a/b"), true, 0, "a", none, none⟩

/-- The run of a structure in such a store. -/
def nestedRun (c text : String) : Except PlanError Report × MemoryStore :=
  runFrom (nestedStore c)
    (execute MemoryStore.backend (fun _ ↦ none) { root := .ofText "/" } text).run

theorem isOneLine_nestedTransfer :
    IsOneLine (fun _ ↦ none) { root := .ofText "/" } "(a/b) > a" (nestedTransfer .move) ∧
      IsOneLine (fun _ ↦ none) { root := .ofText "/" } "[a/b] > a" (nestedTransfer .copy) :=
  ⟨⟨["(a/b) > a"], ⟨1, .none, .move "a/b" (some "a")⟩, by decide +kernel⟩,
    ["[a/b] > a"], ⟨1, .none, .copy "a/b" (some "a")⟩, by decide +kernel⟩

theorem directory_transfer_keeps_iff_around : ∃ report store',
    nestedRun "c" "(a/b) > a" = (.ok report, store') ∧ report.warnings = [] ∧
      KeepsFiles (nestedStore "c") (.ofText "/a/b") (.ofText "/a") store' := by
  obtain ⟨report, store', hrun, hquiet⟩ : ∃ report store', nestedRun "c" "(a/b) > a" =
      (.ok report, store') ∧ report.warnings = [] :=
    exists_runFrom_eq_ok (by decide +kernel)
  -- nothing is stored at `/a/b/b` or below it
  have hplace : (Path.ofText "/a/b").parts =
        (Path.ofText "/a").parts ++ [.entry (.spelled "b" (by decide))] ∧
      ∀ e ∈ (nestedStore "c").entries,
        ¬(Path.ofText "/a/b").parts ++ [.entry (.spelled "b" (by decide))] <+: e.path.parts := by
    decide +kernel
  obtain ⟨hname, hnone⟩ := hplace
  obtain ⟨hwf, hdir, hspelled⟩ : (nestedStore "c").WellFormed ∧
      (nestedStore "c").node? (.ofText "/a/b") = some .dir ∧
      (nestedStore "c").SpelledBelow (.ofText "/a/b") := by
    decide +kernel
  refine ⟨report, store', hrun, hquiet, ?_⟩
  have hkeeps := directory_transfer_keeps_iff hwf isOneLine_nestedTransfer.1 rfl rfl hdir hspelled
    hrun hquiet
  refine (hkeeps.2 rfl).mpr fun names bytes hfile ↦ ?_
  obtain ⟨e, he, hpath, -⟩ := MemoryStore.node?_eq_some_iff.mp hfile
  rw [Bool.eq_false_iff, Ne, Path.startsWith_iff, Path.parts_under, hname,
    show (nestedTransfer .move).target = .ofText "/a" from rfl, List.prefix_append_right_inj]
  intro hstart
  refine hnone e he ?_
  rw [Path.equiv_iff.mp hpath, Path.parts_under, List.prefix_append_right_inj]
  exact hstart

/-- A file is lost when the directory has one of its own name: a copy takes the bytes that were
copied to its place just before, and a move removes it. Nothing is warned of. -/
theorem nested_transfer_loses :
    (nestedStore "b").WellFormed ∧ (nestedStore "b").node? (.ofText "/a/b") = some .dir ∧
      (Path.ofText "/a").startsWith (.ofText "/a/b") = false ∧
      IsOneLine (fun _ ↦ none) { root := .ofText "/" } "[a/b] > a" (nestedTransfer .copy) ∧
      (nestedRun "b" "[a/b] > a").1.toOption.map Report.warnings = some [] ∧
      (nestedStore "b").node? (.ofText "/a/b/x.txt") = some (.file ⟨#[49]⟩) ∧
      (nestedRun "b" "[a/b] > a").2.node? (.ofText "/a/x.txt") = some (.file ⟨#[50]⟩) ∧
      IsOneLine (fun _ ↦ none) { root := .ofText "/" } "(a/b) > a" (nestedTransfer .move) ∧
      (nestedRun "b" "(a/b) > a").1.toOption.map Report.warnings = some [] ∧
      (nestedStore "b").node? (.ofText "/a/b/b/x.txt") = some (.file ⟨#[50]⟩) ∧
      (nestedRun "b" "(a/b) > a").2.node? (.ofText "/a/b/x.txt") = none := by
  obtain ⟨hmove, hcopy⟩ := isOneLine_nestedTransfer
  have hstore : (nestedStore "b").WellFormed ∧
      (nestedStore "b").node? (.ofText "/a/b") = some .dir ∧
      (Path.ofText "/a").startsWith (.ofText "/a/b") = false := by
    decide +kernel
  have hcopied : (nestedRun "b" "[a/b] > a").1.toOption.map Report.warnings = some [] ∧
      (nestedStore "b").node? (.ofText "/a/b/x.txt") = some (.file ⟨#[49]⟩) ∧
      (nestedRun "b" "[a/b] > a").2.node? (.ofText "/a/x.txt") = some (.file ⟨#[50]⟩) := by
    decide +kernel
  exact ⟨hstore.1, hstore.2.1, hstore.2.2, hcopy, hcopied.1, hcopied.2.1, hcopied.2.2, hmove,
    by decide +kernel⟩

end Execution

end Scaffold
