import Scaffold.Proofs.Disk.Contents
import Scaffold.Proofs.Plan.OneLine
import Scaffold.Proofs.Plan.Termination

/-!
# Sources with links

A disk may have links anywhere in a source: links that lead nowhere, back to a directory above them,
or in a circle. Planning goes into none of them. It ends on every disk, and what it includes behind
a line that transfers a directory is what names lead to from there through directories, each once; a
link is included as a file (`plan_follows_no_links`).

Three things limit this (`not_all_is_included`). A directory is listed at its path as it is spelled
from the source, and when this path is too long for a disk, or the directory is locked, it carries a
warning, and nothing in it is included. And names are listed as texts, so what has a name that is no
text is included under another one.
-/

namespace Scaffold.Planner

open Disk

section Walks

variable {d : Disk} {loc : Location} {rules : RenameRules} {source target : Path} {depth : Nat}
  {name : EntryName} {op dir : Operation} {x : List EntryName × EntryKind}

/-! ### What a walk includes -/

/-- The operation is for what names lead to in the directory `source`, which is at a location of the
disk, where `depth` is that of the operation for the directory, which is carried to `target`. An
operation for a directory carries a warning when the directory cannot be listed. -/
structure Includes (d : Disk) (loc : Location) (rules : RenameRules) (source target : Path)
    (depth : Nat) (x : List EntryName × EntryKind) (op : Operation) : Prop where
  relocated : Relocated rules source target depth x.1 op
  kind_eq : op.kind = .included
  isDirectory_eq : op.isDirectory = (x.2 == .directory)
  warning_iff : op.warning = none ↔
    (x.2 = .directory → d.Listable (source.under x.1) (loc ++ x.1))

/-- The operation for an entry of a directory. -/
theorem includes_includedOperation (entry : DirEntry) (parent : Nat) {warning : Option String}
    (hwarning : warning = none ↔ (entry.kind = .directory →
      d.Listable (source.child entry.name) (loc ++ [entry.name]))) :
    Includes d loc rules source target depth ([entry.name], entry.kind)
      { includedOperation rules parent source target (depth + 1) entry with warning } :=
  ⟨relocated_includedOperation parent warning, rfl, rfl, hwarning⟩

/-- What is included inside a directory is included around it. -/
theorem Includes.inside (hdir : Includes d loc rules source target depth ([name], .directory) dir)
    (hne : x.1 ≠ [])
    (h : Includes d (loc ++ [name]) rules (source.child name) dir.target (depth + 1) x op) :
    Includes d loc rules source target depth (name :: x.1, x.2) op where
  relocated := hdir.relocated.inside hdir.isDirectory_eq hne h.relocated
  kind_eq := h.kind_eq
  isDirectory_eq := h.isDirectory_eq
  warning_iff := by
    rw [h.warning_iff, List.append_assoc]
    rfl

theorem Includes.withInside {found : List (List EntryName × EntryKind)} {inside : List Operation}
    (hdir : Includes d loc rules source target depth ([name], .directory) dir)
    (hfound : ∀ kind, ([], kind) ∉ found)
    (h : List.Forall₂ (Includes d (loc ++ [name]) rules (source.child name) dir.target (depth + 1))
      found inside) :
    List.Forall₂ (Includes d loc rules source target depth) (withInside ⟨name, .directory⟩ found)
      (dir :: inside) := by
  refine .cons hdir (List.forall₂_map_left_iff.mpr ?_)
  have hne : ∀ x ∈ found, x.1 ≠ [] := fun x hx hnil ↦ hfound x.2 (by rwa [← hnil])
  exact ((List.forall₂_and_left _ _).mpr ⟨hne, h⟩).imp fun _ _ h ↦ hdir.inside h.1 h.2

/-- What is listed lies in a directory whose path fits, so that a walk goes down only from there. -/
theorem enough_disk (d : Disk) : Enough (System.backend system) (· = d) Suffices where
  pos h := h.1
  list {bound source} h := by
    rintro s rfl
    rcases s.runFrom_list source with ⟨loc, hloc, -, hrun⟩ | ⟨-, e, hrun⟩
    · obtain ⟨hopens, hfits⟩ := locate_eq_dir_iff.mp hloc
      rw [hrun]
      exact ⟨fun _ _ entry _ ↦ h.child hopens.isEmpty_eq hfits entry.name, rfl⟩
    · rw [hrun]
      exact ⟨nofun, rfl⟩

theorem walksEnd_disk : WalksEnd (System.backend system) :=
  fun d source ↦ ⟨(· = d), Suffices, _, enough_disk d, rfl, suffices_maxDepth source⟩

/-- **The walk through a directory includes its contents**, and fails only if it cannot be listed.
-/
theorem includedWithin_disk (hd : d.WellNamed) (bound parent : Nat) (target : Path) (depth : Nat)
    (h : d.Opens source loc) (hspelled : d.SpelledBelow loc) (hbound : Suffices bound source) :
    let out := runFrom d
      (includedWithin (System.backend system) rules bound ⟨parent, source, target, depth + 1⟩)
    out.2 = d ∧ (out.1.1 = none ↔ d.Listable source loc) ∧
      List.Forall₂ (Includes d loc rules source target depth) (d.contents source loc) out.1.2 := by
  induction bound generalizing parent source target depth loc with
  | zero => exact absurd hbound.1 (Nat.lt_irrefl 0)
  | succ bound ih =>
    simp only [includedWithin_succ, includedStep, runFrom_bind]
    rcases d.runFrom_list source with ⟨loc', hloc, hopen, hrun⟩ | ⟨hnever, e, hrun⟩
    all_goals rw [hrun]
    · obtain ⟨hopens, hfits⟩ := locate_eq_dir_iff.mp hloc
      obtain rfl := Except.ok.inj (h.enter_eq.symm.trans hopens.enter_eq)
      have hlistable : d.Listable source loc := ⟨hfits, hopen⟩
      rw [contents_of_listable hlistable]
      simp only [runFrom_bind, runFrom_pure]
      set P : List DirEntry → List Operation → Disk → Prop := fun done found s ↦
        s = d ∧ List.Forall₂ (Includes d loc rules source target depth)
          (done.flatMap (d.contentsAt source loc)) found
      have hinit : P [] [] d := ⟨rfl, .nil⟩
      have hdone : ∀ out : List Operation × Disk, P (d.listing loc) out.1 out.2 →
          out.2 = d ∧ (True ↔ d.Listable source loc) ∧
            List.Forall₂ (Includes d loc rules source target depth)
              ((d.listing loc).flatMap (d.contentsAt source loc)) out.1 :=
        fun _ hP ↦ ⟨hP.1, iff_of_true trivial hlistable, hP.2⟩
      refine hdone _ (foldlM_induction P (d.listing loc) ?_ d hinit)
      rintro done ⟨name, kind⟩ rest found s hsplit ⟨rfl, hfound⟩
      have hsnoc : ∀ more,
          List.Forall₂ (Includes s loc rules source target depth)
            (s.contentsAt source loc ⟨name, kind⟩) more →
          P (done ++ [⟨name, kind⟩]) (found ++ more) s := by
        intro more hmore
        refine ⟨rfl, ?_⟩
        rw [List.flatMap_append, List.flatMap_singleton]
        exact List.rel_append hfound hmore
      cases kind with
      | file =>
        have hop : Includes s loc rules source target depth ([name], .file)
            (includedOperation rules parent source target (depth + 1) ⟨name, .file⟩) :=
          includes_includedOperation ⟨name, .file⟩ parent (by simp)
        exact hsnoc _ (.cons hop .nil)
      | directory =>
        have hmem : (⟨name, .directory⟩ : DirEntry) ∈ s.listing loc := by simp [hsplit]
        obtain ⟨node, hnode, hkind⟩ := (mem_listing_iff hd.sorted hspelled).mp hmem
        rw [DiskNode.kind_eq_directory_iff.mp hkind] at hnode
        obtain ⟨hkept, hnone, hbelow⟩ := ih (parent + 1 + found.length)
          (includedOperation rules parent source target (depth + 1) ⟨name, .directory⟩).target
          (depth + 1) (h.child hd hnode) (hspelled.child name)
          (hbound.child h.isEmpty_eq hfits name)
        have hdir := @includes_includedOperation s loc rules source target depth
          ⟨name, .directory⟩ parent _ (hnone.trans ⟨fun h _ ↦ h, fun h ↦ h rfl⟩)
        exact ⟨hkept, (hsnoc _ (hdir.withInside nil_notMem_contents hbelow)).2⟩
    · have hclosed : ¬d.Listable source loc := fun hlistable ↦
        hlistable.2 (hnever loc (locate_eq_dir_iff.mpr ⟨h, hlistable.1⟩))
      rw [contents_of_not_listable hclosed]
      exact ⟨rfl, by simp [hclosed], .nil⟩

/-- Looking up a source that leads to a directory is the walk through it. -/
theorem runFrom_inspectSource_disk {options : PlanOptions} (index : Nat)
    (hname : op.isDirectory = true) (hrecursive : options.recursive = true)
    (hdir : d.locate source true = .ok (loc, .dir)) :
    runFrom d (inspectSource (System.backend system) options index op source) =
      runFrom d (includedWithin (System.backend system) options.rules System.maxDepth
        ⟨index, source, op.target, op.depth + 1⟩) := by
  obtain ⟨found, hfound⟩ := locate_of_follow hdir
  have hexists : runFrom d ((System.backend system).exists_ source) = (true, d) := by
    show runFrom d (System.succeeds (asking (·.status source false))) = _
    rw [runFrom_succeeds, status, hfound]
    rfl
  have hstat : runFrom d ((System.backend system).stat source).run = (.ok ⟨.directory, 0⟩, d) := by
    show runFrom d (System.blaming source (asking (·.status source true)) >>= _).run = _
    rw [runFrom_run_bind, runFrom_blaming_asking, status, hdir]
    rfl
  rw [← (included_of_enough _ (enough_disk d) (suffices_maxDepth source) rfl).1]
  simp [inspectSource, hexists, hname, hrecursive, hstat]

/-- **Looking up a source that leads to a directory includes what is in it**, with a warning if it
is locked. -/
theorem inspectSource_disk (hd : d.WellNamed) (hspelled : d.SpelledBelow loc)
    {options : PlanOptions} (index : Nat) (hname : op.isDirectory = true)
    (hrecursive : options.recursive = true) (hdir : d.locate source true = .ok (loc, .dir)) :
    ∃ warning inside, runFrom d (inspectSource (System.backend system) options index op source) =
        ((warning, inside), d) ∧ (warning = none ↔ loc ∉ d.locked) ∧
      List.Forall₂ (Includes d loc options.rules source op.target op.depth) (d.contents source loc)
        inside := by
  obtain ⟨hopens, hfits⟩ := locate_eq_dir_iff.mp hdir
  obtain ⟨hkept, hnone, hincludes⟩ :=
    @includedWithin_disk d loc options.rules source hd System.maxDepth index op.target op.depth
      hopens hspelled (suffices_maxDepth source)
  rw [runFrom_inspectSource_disk index hname hrecursive hdir]
  exact ⟨_, _, Prod.ext rfl hkept, hnone.trans (and_iff_right hfits), hincludes⟩

end Walks

/-! ### Whole plans -/

section Plans

variable {d : Disk} {options : PlanOptions} {readBlock : String → Option FrontMatter}
  {text : String} {result : Plan}

/-- Looking up a source does not change a disk. -/
theorem onlyLooks_disk (d : Disk) : OnlyLooks (System.backend system) id d := by
  rintro options index op source s rfl
  have hexists : (runFrom s ((System.backend system).exists_ source)).2 = s :=
    congrArg Prod.snd (runFrom_succeeds (·.status source false))
  have hstat : (runFrom s ((System.backend system).stat source).run).2 = s := by
    show (runFrom s (System.blaming source (asking (·.status source true)) >>= _).run).2 = s
    rw [runFrom_run_bind, runFrom_blaming_asking]
    rcases s.status source true with e | found <;> rfl
  simp only [inspectSource, runFrom_bind, hexists]
  split
  · rfl
  split
  · rfl
  simp only [runFrom_bind, hstat]
  split
  · rfl
  split
  · rfl
  · exact (included_of_enough _ (enough_disk s) (suffices_maxDepth source) rfl).2

/-- What is planned for a line that transfers a directory of the disk. -/
theorem includes_of_plan (hd : d.WellNamed) (hrecursive : options.recursive = true) {d' : Disk}
    (hplan : runFrom d (plan (System.backend system) readBlock options text).run = (.ok result, d'))
    {i : Nat} {op : Operation} {source : Path} {loc : Location}
    (hop : result.operations[i]? = some op) (hkind : op.kind ≠ .included)
    (hname : op.isDirectory = true) (hsource : op.source = some source)
    (hdir : d.locate source true = .ok (loc, .dir)) (hspelled : d.SpelledBelow loc) :
    (op.warning = none ↔ loc ∉ d.locked) ∧ ∃ inside rest,
      result.operations.drop (i + 1) = inside ++ rest ∧
      (∀ o, rest.head? = some o → o.kind ≠ .included) ∧
      List.Forall₂ (Includes d loc result.options.rules source op.target op.depth)
        (d.contents source loc) inside := by
  have hlooks : OnlyLooks (System.backend system) id (id d) := onlyLooks_disk d
  obtain ⟨inside, rest, hrest, hhead, hlook⟩ := looksUp_plan hlooks hplan i op hop hkind
  have hrecursive' : result.options.recursive = true := by
    obtain ⟨lines, progress, -, hresult, -⟩ := plan_cases hplan
    rw [hresult]
    exact hrecursive
  simp only [LooksUp, hsource] at hlook
  obtain ⟨s, index, rfl, hlook⟩ := hlook
  obtain ⟨warning, inside', hfound, hwarning, hincludes⟩ :=
    inspectSource_disk hd hspelled index hname hrecursive' hdir
  rw [show id s = s from rfl] at *
  rw [hfound] at hlook
  obtain ⟨rfl, rfl⟩ := Prod.mk.inj hlook
  exact ⟨hwarning, inside', rest, hrest, hhead, hincludes⟩

/-- **Planning follows no links below a source.** Without a bound on its walks it ends on every
disk, whatever links there are, with the plan that is made; and every text whose lines are accepted
has a plan. Let the names on the disk be such as an operating system has, and let what is inside
directories be planned entry by entry. Then a line that copies or moves a directory to a directory
carries no warning unless the directory is locked. If the names below it are texts, the included
operations behind the line are those for what names lead to from there without a link on the way,
one for each, as far as all directories on the way can be listed. A link is included as a file, with
nothing below it. -/
theorem plan_follows_no_links (d : Disk) (readBlock : String → Option FrontMatter)
    (options : PlanOptions) (text : String) :
    (plan (System.backend system).ended readBlock options text).run.run d =
        some (runFrom d (plan (System.backend system) readBlock options text).run) ∧
      ((∃ result, (runFrom d (plan (System.backend system) readBlock options text).run).1 =
        .ok result) ↔ Accepted readBlock text) ∧
      (d.WellNamed → options.recursive = true → ∀ result,
        (runFrom d (plan (System.backend system) readBlock options text).run).1 = .ok result →
        ∀ (i : Nat) (op : Operation) (source : Path) (loc : Location),
          result.operations[i]? = some op → op.kind = .copy ∨ op.kind = .move →
          op.isDirectory = true → op.source = some source →
          d.locate source true = .ok (loc, .dir) → d.SpelledBelow loc →
          (op.warning = none ↔ loc ∉ d.locked) ∧ ∃ inside rest found,
            result.operations.drop (i + 1) = inside ++ rest ∧
            (∀ o, rest.head? = some o → o.kind ≠ .included) ∧
            List.Forall₂ (Includes d loc result.options.rules source op.target op.depth) found
              inside ∧
            (found.map Prod.fst).Nodup ∧
            (∀ names kind, (names, kind) ∈ found ↔
              (∃ node, d.LeadsTo loc names node ∧ node.kind = kind) ∧
                d.ListsTo source loc names) ∧
            ∀ names target, d.LeadsTo loc names (.link target) →
              ∀ x ∈ found, names <+: x.1 → x = (names, .file)) := by
  refine ⟨plan_ends walksEnd_disk readBlock options text d,
    plan_isOk_iff (System.backend system) options d, ?_⟩
  intro hd hrecursive result hresult i op source loc hop hkind hname hsource hdir hspelled
  have hown : op.kind ≠ .included := by
    rcases hkind with h | h <;> simp [h]
  obtain ⟨hwarning, inside, rest, hrest, hhead, hincludes⟩ :=
    includes_of_plan hd hrecursive (Prod.ext hresult rfl) hop hown hname hsource hdir hspelled
  refine ⟨hwarning, inside, rest, _, hrest, hhead, hincludes,
    nodup_contents hd.sorted _ _ hspelled,
    fun names kind ↦ mem_contents_iff hd.sorted hspelled, ?_⟩
  rintro names target hlink ⟨-, kind⟩ hx ⟨more, rfl⟩
  obtain ⟨⟨node, hleads, rfl⟩, -⟩ := (mem_contents_iff hd.sorted hspelled).mp hx
  obtain rfl := hlink.eq_nil_of_link hleads
  rw [List.append_nil] at hleads ⊢
  obtain rfl := Option.some.inj (hleads.node?_eq.symm.trans hlink.node?_eq)
  rfl

/-- A plan of one line that transfers a directory of the disk. -/
theorem IsLineUnder.plan_disk {rules : RenameRules} {op : Operation} {source : Path}
    {loc : Location} (hd : d.WellNamed) (h : IsLineUnder readBlock options text rules op)
    (haccepted : Accepted readBlock text) (hrecursive : options.recursive = true)
    (hname : op.isDirectory = true) (hsource : op.source = some source)
    (hdir : d.locate source true = .ok (loc, .dir)) (hspelled : d.SpelledBelow loc)
    (hopen : loc ∉ d.locked) :
    ∃ result inside, (runFrom d (plan (System.backend system) readBlock options text).run).1 =
        .ok result ∧ result.operations = op :: inside ∧
      List.Forall₂ (Includes d loc rules source op.target op.depth) (d.contents source loc)
        inside := by
  obtain ⟨result, hresult⟩ := (plan_isOk_iff (System.backend system) options d).mpr haccepted
  obtain ⟨-, hoperations, -⟩ := h.plan_eq hsource (Prod.ext hresult rfl)
  obtain ⟨warning, inside, hfound, hwarning, hincludes⟩ :=
    @inspectSource_disk d loc source op hd hspelled { options with rules } 0 hname hrecursive hdir
  obtain rfl := hwarning.mpr hopen
  rw [hfound] at hoperations
  rw [show ({ op with warning := none } : Operation) = op by rw [← h.kind_ne.2]] at hoperations
  exact ⟨result, inside, hresult, hoperations, hincludes⟩

/-! ### Disks with links -/

/-- The name of a directory. -/
def outerName : EntryName := .spelled "t" (by decide)

/-- The name of a directory in it. -/
def innerName : EntryName := .spelled "sub" (by decide)

/-- The name of what is in that. -/
def innermostName : EntryName := .spelled "x" (by decide)

/-- The name of a link. -/
def backName : EntryName := .spelled "back" (by decide)

/-- A directory with a link back to it, and a directory with a link that leads nowhere. -/
def linkedDisk : Disk where
  entries := [([outerName], .dir), ([outerName, backName], .link (.ofText "/t")),
    ([outerName, innerName], .dir),
    ([outerName, innerName, innermostName], .link (.ofText "nowhere"))]
  current := []

/-- The operation for the line that copies the directory. -/
def outerCopy : Operation :=
  ⟨.copy, .ofText "/w/copy", some (.ofText "/t"), true, 0, "copy", none, none⟩

theorem isLineUnder_outerCopy :
    IsLineUnder (fun _ ↦ none) { root := .ofText "/w" } "[/t] > copy" {} outerCopy :=
  ⟨["[/t] > copy"], ⟨1, .none, .copy "/t" (some "copy")⟩, by decide +kernel⟩

theorem accepted_outerCopy : Accepted (fun _ ↦ none) "[/t] > copy" :=
  ⟨["[/t] > copy"], none, by decide +kernel⟩

theorem locate_outer (h : d.node? [outerName] = some .dir) :
    d.locate (.ofText "/t") true = .ok ([outerName], .dir) := by
  refine locate_eq_dir_iff.mpr ⟨opens_of_dirs (by decide +kernel) (by decide +kernel)
    (by decide +kernel) fun l hl ↦ ?_, by decide +kernel⟩
  rcases List.prefix_cons_iff.mp hl with rfl | ⟨rest, rfl, hrest⟩
  · rfl
  · rwa [List.prefix_nil.mp hrest]

/-- The link that leads nowhere is included as a file, and the link back with nothing below it. -/
theorem plan_follows_no_links_linkedDisk :
    (linkedDisk.WellNamed ∧ linkedDisk.SpelledBelow [outerName] ∧
      Accepted (fun _ ↦ none) "[/t] > copy") ∧
    ∃ result inside rest found, (runFrom linkedDisk (plan (System.backend system) (fun _ ↦ none)
        { root := .ofText "/w" } "[/t] > copy").run).1 = .ok result ∧
      result.operations = outerCopy :: (inside ++ rest) ∧
      List.Forall₂ (Includes linkedDisk [outerName] result.options.rules (.ofText "/t")
        (.ofText "/w/copy") 0) found inside ∧
      ([innerName, innermostName], .file) ∈ found ∧
      ∀ x ∈ found, [backName] <+: x.1 → x = ([backName], .file) := by
  have hd : linkedDisk.WellNamed := by decide +kernel
  have hspelled : linkedDisk.SpelledBelow [outerName] := by decide +kernel
  have hdir : linkedDisk.locate (.ofText "/t") true = .ok ([outerName], .dir) := locate_outer rfl
  obtain ⟨result, block, hresult, hoperations, -⟩ := isLineUnder_outerCopy.plan_disk hd
    accepted_outerCopy rfl rfl rfl hdir hspelled (by decide)
  obtain ⟨-, inside, rest, found, hrest, -, hfound, -, hmem, hlinks⟩ :=
    (plan_follows_no_links linkedDisk (fun _ ↦ none) { root := .ofText "/w" } "[/t] > copy").2.2
      hd rfl result hresult 0 outerCopy (.ofText "/t") _ (by rw [hoperations]; rfl) (.inl rfl) rfl
      rfl hdir hspelled
  have hblock : block = inside ++ rest := by rwa [hoperations] at hrest
  refine ⟨⟨hd, hspelled, accepted_outerCopy⟩, result, inside, rest, found, hresult,
    by rw [hoperations, hblock], hfound, ?_, hlinks [backName] (.ofText "/t") (.entry rfl)⟩
  have hgone : linkedDisk.LeadsTo [outerName] [innerName, innermostName]
      (.link (.ofText "nowhere")) := .inside rfl (.entry rfl)
  refine (hmem _ _).mpr ⟨⟨_, hgone, rfl⟩, fun around haround ↦ ?_⟩
  -- the link lies in two directories
  rcases List.prefix_cons_iff.mp haround with rfl | ⟨more, rfl, hmore⟩
  · decide +kernel
  · rw [List.prefix_nil.mp hmore]
    decide +kernel

/-! ### What is not included -/

/-- A line copies a directory of the disk, entry by entry, and something is reached from there
without a link on the way for which there is no operation. -/
def Misses (d : Disk) (options : PlanOptions) (text : String) : Prop :=
  ∃ result op source loc names node,
    (runFrom d (plan (System.backend system) (fun _ ↦ none) options text).run).1 = .ok result ∧
      options.recursive = true ∧ result.operations[0]? = some op ∧ op.kind = .copy ∧
      op.isDirectory = true ∧ op.source = some source ∧
      d.locate source true = .ok (loc, .dir) ∧ d.LeadsTo loc names node ∧
      ∀ o ∈ result.operations, o.source ≠ some (source.under names)

/-- An operation is not for what is below its directory. -/
theorem source_ne_under {op : Operation} {source : Path} (hsource : op.source = some source)
    {names : List EntryName} (hne : names ≠ []) : op.source ≠ some (source.under names) := by
  intro hsame
  have hnil := (source.under_equiv_iff [] names).mp
    (congrArg Path.parts (Option.some.inj (hsource.symm.trans hsame)))
  exact hne hnil.symm

/-- **Nothing is included inside a directory that cannot be listed.** -/
theorem IsLineUnder.misses {rules : RenameRules} {op : Operation} {source : Path} {loc : Location}
    {names : List EntryName} {node : DiskNode} (hd : d.WellNamed)
    (h : IsLineUnder (fun _ ↦ none) options text rules op)
    (haccepted : Accepted (fun _ ↦ none) text) (hrecursive : options.recursive = true)
    (hkind : op.kind = .copy) (hname : op.isDirectory = true) (hsource : op.source = some source)
    (hdir : d.locate source true = .ok (loc, .dir)) (hspelled : d.SpelledBelow loc)
    (hopen : loc ∉ d.locked) (hleads : d.LeadsTo loc names node)
    (hclosed : ¬d.ListsTo source loc names) : Misses d options text := by
  obtain ⟨result, inside, hresult, hoperations, hincludes⟩ :=
    h.plan_disk hd haccepted hrecursive hname hsource hdir hspelled hopen
  refine ⟨result, op, source, loc, names, node, hresult, hrecursive, by rw [hoperations]; rfl,
    hkind, hname, hsource, hdir, hleads, ?_⟩
  rw [hoperations]
  refine List.forall_mem_cons.mpr ⟨source_ne_under hsource fun hnil ↦ ?_, fun o ho hsame ↦ ?_⟩
  · exact not_leadsTo_nil (hnil ▸ hleads)
  have hsources : (d.contents source loc).map (fun x ↦ some (source.under x.1)) =
      inside.map Operation.source := by
    rw [← List.forall₂_eq_eq_eq, List.forall₂_map_left_iff, List.forall₂_map_right_iff]
    exact hincludes.imp fun _ _ h ↦ h.relocated.source_eq.symm
  have hmem := List.mem_map_of_mem (f := Operation.source) ho
  rw [← hsources, hsame, List.mem_map] at hmem
  obtain ⟨⟨found, kind⟩, hx, hunder⟩ := hmem
  obtain rfl := (source.under_equiv_iff _ _).mp (congrArg Path.parts (Option.some.inj hunder))
  exact hclosed ((mem_contents_iff hd.sorted hspelled).mp hx).2

/-- A disk with a directory in a directory, and a file in that. -/
def nestedDisk (locked : List Location) : Disk where
  entries := [([outerName], .dir), ([outerName, innerName], .dir),
    ([outerName, innerName, innermostName], .file ⟨#[120]⟩)]
  current := []
  locked := locked

theorem wellNamed_nestedDisk (locked : List Location) : (nestedDisk locked).WellNamed :=
  have h : (nestedDisk []).WellNamed := by decide +kernel
  ⟨h.sorted, h.short, h.nulFree⟩

theorem spelledBelow_nestedDisk (locked : List Location) :
    (nestedDisk locked).SpelledBelow [outerName] :=
  have h : (nestedDisk []).SpelledBelow [outerName] := by decide +kernel
  h

theorem leadsTo_innermost (locked : List Location) :
    (nestedDisk locked).LeadsTo [outerName] [innerName, innermostName] (.file ⟨#[120]⟩) :=
  .inside rfl (.entry rfl)

/-- The inner directory is locked. -/
theorem lockedDisk_misses :
    Misses (nestedDisk [[outerName, innerName]]) { root := .ofText "/w" } "[/t] > copy" := by
  refine isLineUnder_outerCopy.misses (wellNamed_nestedDisk _) accepted_outerCopy rfl rfl rfl rfl
    (locate_outer rfl) (spelledBelow_nestedDisk _) (by decide) (leadsTo_innermost _) fun hlists ↦ ?_
  exact (hlists [innerName] List.prefix_rfl).2 (by decide)

/-- A text of slashes. -/
def slashes (n : Nat) : String := String.ofList (List.replicate n '/')

theorem size_slashes (n : Nat) : (slashes n).utf8ByteSize = n := by
  induction n with
  | zero => rfl
  | succ n ih =>
    rw [slashes, List.replicate_succ, String.ofList_cons, String.utf8ByteSize_append, Nat.add_comm]
    exact congrArg (· + 1) ih

theorem nul_notMem_slashes (n : Nat) : '\x00' ∉ (slashes n).toList := by
  simp [slashes]

/-- The root of a structure, spelled with many slashes. -/
def longRoot : Path := ⟨[⟨"", .root⟩], slashes 4092⟩

/-- The operation for the line that copies the outer directory. -/
def longCopy : Operation := lineOperation { root := longRoot } [] (.copy "t" (some "copy"))

/-- The source of that line. -/
def longSource : Path := longRoot.child outerName

theorem source_longCopy : longCopy.source = some longSource := by
  have hname : EntryText.expandTilde "" (EntryText.unescape "t") = outerName.text := by
    decide +kernel
  show some (longRoot.join (Path.ofText (EntryText.expandTilde "" (EntryText.unescape "t")))) = _
  rw [hname, Path.ofText_name outerName]
  rfl

theorem text_longRoot : longRoot.text = "/" ++ slashes 4092 := by
  simp [longRoot, Path.text, Piece.text, Part.text]

theorem size_longRoot : longRoot.size = 4093 := by
  have hsize : ∀ tail, Path.size ⟨[⟨"", .root⟩], tail⟩ = 1 + tail.utf8ByteSize := fun _ ↦ rfl
  rw [longRoot, hsize, size_slashes]

theorem locate_longSource (locked : List Location) :
    (nestedDisk locked).locate longSource true = .ok ([outerName], .dir) := by
  have hroot : longRoot.isEmpty = false := rfl
  refine locate_eq_dir_iff.mpr ⟨opens_of_dirs (Path.parts_child _ _) (fun hnul ↦ ?_)
    (by decide +kernel) fun l hl ↦ ?_, ?_⟩
  · rcases Path.of_hasNul_child hroot hnul with hnul | hnul
    · rw [Path.HasNul, text_longRoot, String.toList_append, List.mem_append] at hnul
      exact hnul.elim (by decide) (nul_notMem_slashes _)
    · exact absurd hnul (by decide)
  · rcases List.prefix_cons_iff.mp hl with rfl | ⟨rest, rfl, hrest⟩
    · rfl
    · rw [List.prefix_nil.mp hrest]
      rfl
  · have hsize := (Path.size_child_bounds hroot outerName).2
    rw [size_longRoot] at hsize
    exact Nat.lt_of_le_of_lt hsize (by decide)

/-- The source fits, and the path of the directory in it does not. -/
theorem longRoot_misses : Misses (nestedDisk []) { root := longRoot } "[t] > copy" := by
  have hline : IsLineUnder (fun _ ↦ none) { root := longRoot } "[t] > copy" {} longCopy :=
    ⟨["[t] > copy"], ⟨1, .none, .copy "t" (some "copy")⟩, by decide +kernel, by decide +kernel, rfl,
      rfl⟩
  refine hline.misses (wellNamed_nestedDisk _) ⟨["[t] > copy"], none, by decide +kernel⟩ rfl rfl
    (by decide +kernel) source_longCopy (locate_longSource _) (spelledBelow_nestedDisk _)
    (by decide) (leadsTo_innermost _) fun hlists ↦ ?_
  have hfits : Fits (longSource.child innerName) := (hlists [innerName] List.prefix_rfl).1
  have hroot : longRoot.isEmpty = false := rfl
  have houter := (Path.size_child_bounds hroot outerName).1
  have hinner := (Path.size_child_bounds (longRoot.isEmpty_child outerName) innerName).1
  have hnames : outerName.size = 1 ∧ innerName.size = 3 := by decide
  rw [size_longRoot] at houter
  rw [Fits, longSource, maxPathBytes] at hfits
  omega

/-- A disk with a directory, and a file in it whose name is no text. -/
def brokenDisk : Disk where
  entries := [([outerName], .dir), ([outerName, .broken], .file ⟨#[120]⟩)]
  current := []

/-- The file is included under a name that is a text. -/
theorem brokenDisk_misses : Misses brokenDisk { root := .ofText "/w" } "[/t] > copy" := by
  have hdir : brokenDisk.locate (.ofText "/t") true = .ok ([outerName], .dir) := locate_outer rfl
  obtain ⟨result, hresult⟩ := (plan_isOk_iff (System.backend system) { root := .ofText "/w" }
    brokenDisk).mpr accepted_outerCopy
  obtain ⟨-, hoperations, -⟩ := isLineUnder_outerCopy.plan_eq rfl (Prod.ext hresult rfl)
  rw [runFrom_inspectSource_disk 0 rfl rfl hdir] at hoperations
  set found := runFrom brokenDisk (includedWithin (System.backend system) {} System.maxDepth
    ⟨0, .ofText "/t", outerCopy.target, outerCopy.depth + 1⟩) with hfound
  have hlisting : brokenDisk.listing [outerName] = [⟨EntryName.broken.listed, .file⟩] := by
    decide +kernel
  have hsources : ∀ o ∈ found.1.2,
      o.source = some ((Path.ofText "/t").under [EntryName.broken.listed]) := by
    rw [hfound, show System.maxDepth = 4095 + 1 from rfl, includedWithin_succ, includedStep,
      runFrom_bind]
    rcases brokenDisk.runFrom_list (.ofText "/t") with ⟨loc, hloc, -, hrun⟩ | ⟨hnever, -⟩
    · obtain rfl : loc = [outerName] := (Prod.mk.inj (Except.ok.inj (hloc.symm.trans hdir))).1
      rw [hrun, hlisting]
      simp [includedOperation, Path.under]
    · cases hnever _ hdir
  refine ⟨result, _, .ofText "/t", [outerName], [.broken], .file ⟨#[120]⟩, hresult, rfl,
    by rw [hoperations]; rfl, rfl, rfl, rfl, hdir, .entry rfl, ?_⟩
  rw [hoperations]
  refine List.forall_mem_cons.mpr ⟨source_ne_under rfl (List.cons_ne_nil _ _), fun o ho hsame ↦ ?_⟩
  have hnames := (Path.under_equiv_iff _ _ _).mp
    (congrArg Path.parts (Option.some.inj ((hsources o ho).symm.trans hsame)))
  rw [EntryName.listed_broken] at hnames
  cases hnames

/-- **Not all that is reached without links is included**: nothing is inside a directory whose path
is too long or that is locked, and nothing whose name is no text. -/
theorem not_all_is_included :
    ((nestedDisk []).WellNamed ∧ Misses (nestedDisk []) { root := longRoot } "[t] > copy") ∧
      ((nestedDisk [[outerName, innerName]]).WellNamed ∧
        Misses (nestedDisk [[outerName, innerName]]) { root := .ofText "/w" } "[/t] > copy") ∧
      (brokenDisk.WellNamed ∧ Misses brokenDisk { root := .ofText "/w" } "[/t] > copy") :=
  ⟨⟨wellNamed_nestedDisk _, longRoot_misses⟩, ⟨wellNamed_nestedDisk _, lockedDisk_misses⟩,
    by decide +kernel, brokenDisk_misses⟩

end Plans

end Scaffold.Planner
