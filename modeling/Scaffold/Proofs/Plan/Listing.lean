import Scaffold.Proofs.Plan.Forest
import Scaffold.Proofs.Store.Calls
import Scaffold.Proofs.Store.Tree

/-!
# What is carried along

The included operations of a transfer are found by walking through the source while planning. In a
store that is a tree they are known without the walk: there is one for every entry that is reached
from the source along names, except below a directory whose listing failed, and they stand in the
order of the paths (`Walk`). An operation whose listing failed carries a warning, so the exception
can be read off the plan.

The walk is described by the names that it has come by in a directory, and an entry adds a block to
it (`Walk.of_block`): the operation for the entry, and behind it what is inside
(`walk_includedWithin`). Planning only asks, so a finished plan has all of this of the store in
which it was made (`carriedIn_plan`).
-/

namespace Scaffold.Planner

/-! ### Walks -/

/-- The operation carries along what is stored under `names` in the directory `source`, to the same
place in `target` unless it is renamed. -/
structure Carries (store : MemoryStore) (rules : RenameRules) (source target : Path)
    (names : List EntryName) (op : Operation) : Prop where
  kind_eq : op.kind = .included
  source_eq : op.source = some (source.under names)
  stored : ∃ node, store.node? (source.under names) = some node ∧
    op.isDirectory = (node.kind == .directory)
  target_eq : rules = {} → op.target ≈ target.under names

/-- The operations for what is in the directory `source`, each with the names that lead to its
entry, when the walk has come by the names that satisfy `seen`. -/
structure Walk (store : MemoryStore) (rules : RenameRules) (source target : Path)
    (seen : EntryName → Prop) (items : List (List EntryName × Operation)) : Prop where
  carries : ∀ x ∈ items, Carries store rules source target x.1 x.2
  sorted : items.Pairwise fun x y ↦ (source.under x.1).order (source.under y.1) = .lt
  covers : ∀ names, (∃ op, (names, op) ∈ items) ↔
    (∃ name more, names = name :: more ∧ seen name) ∧
      (store.node? (source.under names)).isSome = true ∧
      ∀ x ∈ items, x.2.warning ≠ none → x.1 <+: names → x.1 = names

variable {store : MemoryStore} {rules : RenameRules} {source target : Path}
  {seen : EntryName → Prop} {items : List (List EntryName × Operation)}

namespace Walk

/-- A walk that has come by no name has found nothing. -/
theorem nil (h : ∀ name, ¬seen name) : Walk store rules source target seen [] where
  carries := by simp
  sorted := .nil
  covers names := by
    simp only [List.not_mem_nil, exists_false, false_iff, not_and]
    rintro ⟨name, more, -, hseen⟩
    exact absurd hseen (h name)

/-- What is found is found under a name that the walk has come by. -/
theorem seen_of_mem (h : Walk store rules source target seen items)
    {x : List EntryName × Operation} (hx : x ∈ items) :
    ∃ name more, x.1 = name :: more ∧ seen name :=
  ((h.covers x.1).mp ⟨x.2, hx⟩).1

theorem seen_of_prefix (h : Walk store rules source target seen items)
    {x : List EntryName × Operation} (hx : x ∈ items) {name : EntryName} {more : List EntryName}
    (hstarts : x.1 <+: name :: more) : seen name := by
  obtain ⟨first, rest, hfirst, hseen⟩ := h.seen_of_mem hx
  rw [hfirst] at hstarts
  rwa [← (List.cons_prefix_cons.mp hstarts).1]

/-- Only names under which something is stored matter. -/
theorem congr (h : Walk store rules source target seen items) {seen' : EntryName → Prop}
    (hseen : ∀ name more, (store.node? (source.under (name :: more))).isSome = true →
      (seen name ↔ seen' name)) : Walk store rules source target seen' items where
  carries := h.carries
  sorted := h.sorted
  covers names := by
    rw [h.covers]
    constructor
    · rintro ⟨⟨name, more, rfl, hname⟩, hstored, huncut⟩
      exact ⟨⟨name, more, rfl, (hseen name more hstored).mp hname⟩, hstored, huncut⟩
    · rintro ⟨⟨name, more, rfl, hname⟩, hstored, huncut⟩
      exact ⟨⟨name, more, rfl, (hseen name more hstored).mpr hname⟩, hstored, huncut⟩

/-- **Walks through earlier and later names compose.** -/
theorem append (h : Walk store rules source target seen items) {seen' : EntryName → Prop}
    {items' : List (List EntryName × Operation)}
    (h' : Walk store rules source target seen' items')
    (hlater : ∀ name name', seen name → seen' name' →
      (source.child name).order (source.child name') = .lt) :
    Walk store rules source target (fun name ↦ seen name ∨ seen' name) (items ++ items') := by
  -- no name is come by twice, so what is cut off in one walk is not in the other
  have hdisjoint : ∀ name, seen name → ¬seen' name := by
    intro name hname hname'
    have hself := hlater name name hname hname'
    rw [Path.order_self] at hself
    cases hself
  refine ⟨fun x hx ↦ (List.mem_append.mp hx).elim (h.carries x) (h'.carries x), ?_, fun names ↦ ?_⟩
  · refine List.pairwise_append.mpr ⟨h.sorted, h'.sorted, fun x hx y hy ↦ ?_⟩
    obtain ⟨name, more, hx, hname⟩ := h.seen_of_mem hx
    obtain ⟨name', more', hy, hname'⟩ := h'.seen_of_mem hy
    rw [hx, hy]
    exact Path.order_under_of_child (hlater name name' hname hname') more more'
  constructor
  · rintro ⟨op, hop⟩
    rcases List.mem_append.mp hop with hop | hop
    · obtain ⟨⟨name, more, rfl, hname⟩, hstored, huncut⟩ := (h.covers names).mp ⟨op, hop⟩
      refine ⟨⟨name, more, rfl, .inl hname⟩, hstored, fun x hx hwarned hstarts ↦ ?_⟩
      rcases List.mem_append.mp hx with hx | hx
      · exact huncut x hx hwarned hstarts
      · exact absurd (h'.seen_of_prefix hx hstarts) (hdisjoint name hname)
    · obtain ⟨⟨name, more, rfl, hname⟩, hstored, huncut⟩ := (h'.covers names).mp ⟨op, hop⟩
      refine ⟨⟨name, more, rfl, .inr hname⟩, hstored, fun x hx hwarned hstarts ↦ ?_⟩
      rcases List.mem_append.mp hx with hx | hx
      · exact absurd hname (hdisjoint name (h.seen_of_prefix hx hstarts))
      · exact huncut x hx hwarned hstarts
  · rintro ⟨⟨name, more, rfl, hname | hname⟩, hstored, huncut⟩
    · obtain ⟨op, hop⟩ := (h.covers (name :: more)).mpr
        ⟨⟨name, more, rfl, hname⟩, hstored, fun x hx ↦ huncut x (List.mem_append_left _ hx)⟩
      exact ⟨op, List.mem_append_left _ hop⟩
    · obtain ⟨op, hop⟩ := (h'.covers (name :: more)).mpr
        ⟨⟨name, more, rfl, hname⟩, hstored, fun x hx ↦ huncut x (List.mem_append_right _ hx)⟩
      exact ⟨op, List.mem_append_right _ hop⟩

/-- The block of one entry: its operation, and behind it what is inside. -/
def block (name : EntryName) (op : Operation) (inside : List (List EntryName × Operation)) :
    List (List EntryName × Operation) :=
  ([name], op) :: inside.map fun x ↦ (name :: x.1, x.2)

theorem mem_block {name : EntryName} {op : Operation}
    {inside : List (List EntryName × Operation)} {x : List EntryName × Operation} :
    x ∈ block name op inside ↔ x = ([name], op) ∨ ∃ y ∈ inside, x = (name :: y.1, y.2) := by
  simp only [block, List.mem_cons, List.mem_map, eq_comm]

/-- **A block is the walk through one entry.** -/
theorem of_block {name : EntryName} {op : Operation}
    {inside : List (List EntryName × Operation)}
    (hop : Carries store rules source target [name] op)
    (h : Walk store rules (source.child name) op.target (fun _ ↦ op.warning = none) inside) :
    Walk store rules source target (· = name) (block name op inside) := by
  refine ⟨fun x hx ↦ ?_, List.pairwise_cons.mpr ⟨fun x hx ↦ ?_, ?_⟩, fun names ↦ ?_⟩
  · rcases mem_block.mp hx with rfl | ⟨y, hy, rfl⟩
    · exact hop
    · obtain ⟨hkind, hsource, hstored, htarget⟩ := h.carries y hy
      refine ⟨hkind, hsource, hstored, fun hrules ↦ ?_⟩
      have hparts := Path.equiv_iff.mp (htarget hrules)
      rw [Path.parts_under, Path.equiv_iff.mp (hop.target_eq hrules)] at hparts
      rw [Path.equiv_iff, hparts]
      simp
  · obtain ⟨y, hy, rfl⟩ := List.mem_map.mp hx
    obtain ⟨first, more, hfirst, -⟩ := h.seen_of_mem hy
    simp only [hfirst]
    exact Path.order_under_self (source.child name) first more
  · exact List.pairwise_map.mpr h.sorted
  constructor
  · rintro ⟨found, hfound⟩
    rcases mem_block.mp hfound with hfound | ⟨y, hy, hfound⟩
    · obtain ⟨rfl, rfl⟩ := Prod.mk.inj hfound
      obtain ⟨node, hnode, -⟩ := hop.stored
      refine ⟨⟨name, [], rfl, rfl⟩, by rw [hnode]; rfl, fun x hx _ hstarts ↦ ?_⟩
      rcases mem_block.mp hx with rfl | ⟨y, -, rfl⟩
      · rfl
      · have hshort : y.1 = [] := by simpa using (List.cons_prefix_cons.mp hstarts).2
        simp only [hshort]
    · obtain ⟨rfl, rfl⟩ := Prod.mk.inj hfound
      obtain ⟨⟨-, -, -, hwhole⟩, hstored, huncut⟩ := (h.covers y.1).mp ⟨y.2, hy⟩
      refine ⟨⟨name, y.1, rfl, rfl⟩, hstored, fun x hx hwarned hstarts ↦ ?_⟩
      rcases mem_block.mp hx with rfl | ⟨z, hz, rfl⟩
      · exact absurd hwhole hwarned
      · simp only [huncut z hz hwarned (List.cons_prefix_cons.mp hstarts).2]
  · rintro ⟨⟨first, more, rfl, rfl⟩, hstored, huncut⟩
    rcases more with - | ⟨next, more⟩
    · exact ⟨op, mem_block.mpr (.inl rfl)⟩
    -- nothing is missing inside, or the operation for the entry would carry a warning
    · have hwhole : op.warning = none := by
        by_contra hwarned
        have hcut := huncut ([first], op) (mem_block.mpr (.inl rfl)) hwarned ⟨next :: more, rfl⟩
        simp at hcut
      have huncut' : ∀ x ∈ inside, x.2.warning ≠ none → x.1 <+: next :: more →
          x.1 = next :: more := by
        intro x hx hwarned hstarts
        have hcut := huncut (first :: x.1, x.2) (mem_block.mpr (.inr ⟨x, hx, rfl⟩)) hwarned
          (List.cons_prefix_cons.mpr ⟨rfl, hstarts⟩)
        exact (List.cons.inj hcut).2
      obtain ⟨found, hfound⟩ := (h.covers (next :: more)).mpr
        ⟨⟨next, more, rfl, hwhole⟩, hstored, huncut'⟩
      exact ⟨found, mem_block.mpr (.inr ⟨_, hfound, rfl⟩)⟩

end Walk

/-! ### The walk through a source -/

section Sources

variable {σ : Type} {b : Backend (StateM σ)} {view : σ → MemoryStore}

theorem apply_no_rules (name : String) (isDirectory : Bool) :
    RenameRules.apply {} name isDirectory = name := by
  cases isDirectory <;> rfl

/-- The operation for an entry of a directory carries it along. -/
theorem carries_includedOperation {entry : DirEntry} {node : StoredNode}
    (hnode : store.node? (source.child entry.name) = some node) (hkind : node.kind = entry.kind)
    (htext : entry.name.isText = true) (parent depth : Nat) (warning : Option String) :
    Carries store rules source target [entry.name]
      { includedOperation rules parent source target depth entry with warning } where
  kind_eq := rfl
  source_eq := rfl
  stored := ⟨node, hnode, by rw [hkind]; rfl⟩
  target_eq hrules := by
    subst hrules
    rw [Path.equiv_iff, includedOperation]
    simp only [apply_no_rules, Path.parts_join_name, EntryName.listed_eq_self_iff.mpr htext]
    exact (Path.parts_child target entry.name).symm

/-- There is nothing in a file. -/
theorem Walk.of_file (hwf : store.WellFormed) {name : EntryName} {node : StoredNode}
    (hnode : store.node? (source.child name) = some node) (hfile : node.kind ≠ .directory) :
    Walk store rules (source.child name) target seen [] := by
  have hnothing : Walk store rules (source.child name) target (fun _ ↦ False) [] := .nil (by simp)
  refine hnothing.congr fun next more hstored ↦ ?_
  obtain ⟨below, hbelow⟩ := Option.isSome_iff_exists.mp hstored
  rw [hwf.dir_of_under hbelow] at hnode
  exact absurd (congrArg StoredNode.kind (Option.some.inj hnode)).symm hfile

/-- **One entry more.** -/
theorem Walk.entry {done rest entries : List DirEntry} {entry : DirEntry}
    (h : Walk store rules source target (fun name ↦ ∃ e ∈ done, e.name = name) items)
    (hspelled : store.SpelledIn source) (hentries : store.list source = .ok entries)
    (hsplit : entries = done ++ entry :: rest)
    {op : Operation} (hop : Carries store rules source target [entry.name] op)
    {inside : List (List EntryName × Operation)}
    (hinside : Walk store rules (source.child entry.name) op.target (fun _ ↦ op.warning = none)
      inside) :
    Walk store rules source target (fun name ↦ ∃ e ∈ done ++ [entry], e.name = name)
      (items ++ block entry.name op inside) := by
  have hsorted := hspelled.listing_sorted hentries
  rw [hsplit, List.pairwise_append] at hsorted
  refine (h.append (.of_block hop hinside) ?_).congr fun name more _ ↦ ?_
  · rintro - - ⟨e, he, rfl⟩ rfl
    exact hsorted.2.2 e he entry List.mem_cons_self
  · simp only [List.mem_append, List.mem_singleton, or_and_right, exists_or, exists_eq_left]
    rw [eq_comm (a := name)]

/-- **The walk through a directory finds what is stored there**, if all names are texts, and in any
case it only asks. -/
theorem walk_includedWithin (hb : Serves b view) (rules : RenameRules) (bound parent : Nat)
    (source target : Path) (depth : Nat) (s : σ) (hwf : (view s).WellFormed) :
    let out := runFrom s (includedWithin b rules bound ⟨parent, source, target, depth⟩)
    view out.2 = view s ∧ ((view s).SpelledBelow source → ∃ items, out.1.2 = items.map Prod.snd ∧
      Walk (view s) rules source target (fun _ ↦ out.1.1 = none) items) := by
  induction bound generalizing parent source target depth s with
  | zero => exact ⟨rfl, fun _ ↦ ⟨[], rfl, .nil (by simp [includedWithin_zero, endless])⟩⟩
  | succ bound ih =>
    have hlist := hb.list source s
    simp only [includedWithin_succ, includedStep, runFrom_bind]
    rcases hrun : runFrom s (b.list source).run with ⟨e | entries, s₁⟩
    · rw [hrun] at hlist
      exact ⟨hlist.1, fun _ ↦ ⟨[], rfl, .nil (by simp)⟩⟩
    rw [hrun] at hlist
    obtain ⟨hview, hentries⟩ := hlist
    have hentries := hentries entries rfl
    simp only [runFrom_bind, runFrom_pure]
    -- the loop has come by the names of the entries that are done
    set P : List DirEntry → List Operation → σ → Prop := fun done found s' ↦
      view s' = view s ∧ ((view s).SpelledBelow source → ∃ items, found = items.map Prod.snd ∧
        Walk (view s) rules source target (fun name ↦ ∃ e ∈ done, e.name = name) items) with hP
    have hinit : P [] [] s₁ := ⟨hview, fun _ ↦ ⟨[], rfl, .nil (by simp)⟩⟩
    have hdone : ∀ out : List Operation × σ, P entries out.1 out.2 →
        view out.2 = view s ∧ ((view s).SpelledBelow source → ∃ items, out.1 = items.map Prod.snd ∧
          Walk (view s) rules source target (fun _ ↦ True) items) := by
      rintro out ⟨hkept, hfound⟩
      refine ⟨hkept, fun hspelled ↦ ?_⟩
      obtain ⟨items, hitems, hwalk⟩ := hfound hspelled
      refine ⟨items, hitems, hwalk.congr fun name more hstored ↦ ?_⟩
      obtain ⟨node, hnode⟩ := Option.isSome_iff_exists.mp (hwf.child_of_under hstored)
      have hlisted : (⟨name, node.kind⟩ : DirEntry) ∈ entries :=
        (hspelled.spelledIn.mem_listing_iff hentries).mpr ⟨node, hnode, rfl⟩
      exact iff_of_true ⟨_, hlisted, rfl⟩ trivial
    refine hdone _ (foldlM_induction P entries ?_ s₁ hinit)
    rintro done entry rest found s' hsplit ⟨hkept, hfound⟩
    have hmem : entry ∈ entries := by simp [hsplit]
    have htext := MemoryStore.isText_of_mem_listing hentries hmem
    split
    · simp only [runFrom_bind, runFrom_pure]
      set walk := runFrom s' (includedWithin b rules bound
        ⟨parent + 1 + found.length, source.child entry.name,
          (includedOperation rules parent source target depth entry).target, depth + 1⟩)
      obtain ⟨hview', hbelow⟩ : view walk.2 = view s' ∧
          ((view s').SpelledBelow (source.child entry.name) → ∃ inside,
            walk.1.2 = inside.map Prod.snd ∧ Walk (view s') rules (source.child entry.name)
              (includedOperation rules parent source target depth entry).target
              (fun _ ↦ walk.1.1 = none) inside) := ih _ _ _ _ s' (hkept ▸ hwf)
      refine ⟨hview'.trans hkept, fun hspelled ↦ ?_⟩
      obtain ⟨node, hnode, hkind⟩ := (hspelled.spelledIn.mem_listing_iff hentries).mp hmem
      obtain ⟨items, rfl, hwalk⟩ := hfound hspelled
      rw [hkept] at hbelow
      obtain ⟨inside, hinside, hbelow⟩ := hbelow (hspelled.child entry.name)
      have hop : Carries (view s) rules source target [entry.name]
          { includedOperation rules parent source target depth entry with warning := walk.1.1 } :=
        carries_includedOperation hnode hkind htext parent depth _
      exact ⟨_, by simp [hinside, Walk.block],
        hwalk.entry hspelled.spelledIn hentries hsplit hop hbelow⟩
    · rename_i hisDir
      refine ⟨hkept, fun hspelled ↦ ?_⟩
      obtain ⟨node, hnode, hkind⟩ := (hspelled.spelledIn.mem_listing_iff hentries).mp hmem
      obtain ⟨items, rfl, hwalk⟩ := hfound hspelled
      have hfile : node.kind ≠ .directory := by
        rw [hkind]
        simpa [includedOperation] using hisDir
      have hop : Carries (view s) rules source target [entry.name]
          (includedOperation rules parent source target depth entry) :=
        carries_includedOperation hnode hkind htext parent depth none
      exact ⟨_, by simp [Walk.block],
        hwalk.entry hspelled.spelledIn hentries hsplit hop (.of_file hwf hnode hfile)⟩

/-- **Looking up a source finds what is stored in it**, if all names are texts, and in any case it
only asks. Nothing is found when there is a warning, or the source is not a directory, or its
contents are not carried along one by one. -/
theorem walk_inspectSource (hb : Serves b view) (options : PlanOptions) (index : Nat)
    (op : Operation) (source : Path) (s : σ) (hwf : (view s).WellFormed) :
    let out := runFrom s (inspectSource b options index op source)
    view out.2 = view s ∧
      (out.1.2 = [] ∧ (out.1.1 = none → op.isDirectory = true → options.recursive = true →
          (view s).kindOf? source ≠ some .directory) ∨
        op.isDirectory = true ∧ ((view s).SpelledBelow source → ∃ items,
          out.1.2 = items.map Prod.snd ∧
          Walk (view s) options.rules source op.target (fun _ ↦ out.1.1 = none) items)) := by
  have hexists := (hb.exists_ source s).1
  unfold inspectSource
  simp only [runFrom_bind]
  split
  · exact ⟨hexists, .inl ⟨rfl, nofun⟩⟩
  split
  · rename_i hone
    refine ⟨hexists, .inl ⟨rfl, fun _ hdir hrecursive ↦ ?_⟩⟩
    simp [hdir, hrecursive] at hone
  rename_i hone
  have hone : op.isDirectory = true ∧ options.recursive = true := by simpa using hone
  simp only [runFrom_bind]
  rcases hrun : runFrom (runFrom s (b.exists_ source)).2 (b.stat source).run with ⟨e | found, s₁⟩
  · have hstat := (hb.stat source (runFrom s (b.exists_ source)).2).1
    rw [hrun] at hstat
    exact ⟨hstat.trans hexists, .inl ⟨rfl, nofun⟩⟩
  obtain ⟨hstat, hfound⟩ := hb.stat_ok hrun
  rw [hexists] at hfound
  dsimp only
  split
  · rename_i hfile
    exact ⟨hstat.trans hexists, .inl ⟨rfl, fun _ _ _ ↦ by rw [hfound, hfile]; nofun⟩⟩
  have hkept := hstat.trans hexists
  obtain ⟨bound, hbound⟩ := exists_includedWithin b options.rules
    ⟨index, source, op.target, op.depth + 1⟩ s₁
  rw [hbound]
  obtain ⟨hview, hwalk⟩ := walk_includedWithin hb options.rules bound index source
    op.target (op.depth + 1) s₁ (hkept ▸ hwf)
  rw [hkept] at hwalk
  exact ⟨hview.trans hkept, .inr ⟨hone.1, hwalk⟩⟩

/-! ### Whole plans -/

/-- Each operation for a line satisfies `P` together with what stands behind it, up to the next
operation for a line. -/
def Blocks (P : Operation → List Operation → Prop) (ops : List Operation) : Prop :=
  ∀ i op, ops[i]? = some op → op.kind ≠ .included → ∃ inside rest,
    ops.drop (i + 1) = inside ++ rest ∧
      (∀ o, rest.head? = some o → o.kind ≠ .included) ∧ P op inside

/-- The operation for one more line, and the included ones behind it, are one more block. -/
theorem Blocks.snoc {P : Operation → List Operation → Prop} {ops : List Operation} (op : Operation)
    {inside : List Operation} (h : Blocks P ops) (hkind : op.kind ≠ .included)
    (hincluded : ∀ o ∈ inside, o.kind = .included) (hblock : P op inside) :
    Blocks P (ops ++ op :: inside) := by
  intro i o ho hown
  rcases Nat.lt_trichotomy i ops.length with hlt | rfl | hgt
  · rw [List.getElem?_append_left hlt] at ho
    obtain ⟨inside', rest, hrest, hhead, hblock'⟩ := h i o ho hown
    refine ⟨inside', rest ++ op :: inside, ?_, fun o' ho' ↦ ?_, hblock'⟩
    · rw [List.drop_append_of_le_length hlt, hrest, List.append_assoc]
    · rcases rest with - | ⟨first, rest⟩
      · obtain rfl : op = o' := by simpa using ho'
        exact hkind
      · exact hhead o' (by simpa using ho')
  · obtain rfl : op = o := by simpa using ho
    refine ⟨inside, [], ?_, by simp, hblock⟩
    rw [List.append_cons, List.append_nil, List.drop_left' (by simp)]
  · rw [List.append_cons, List.getElem?_append_right (by simp; omega)] at ho
    exact absurd (hincluded o (List.mem_of_getElem? ho)) hown

/-- What the operation `op` at position `i` carries along: the included operations `inside`, which
stand right behind it, up to the next operation for a line. -/
structure CarriesAlong (store : MemoryStore) (rules : RenameRules) (ops : List Operation) (i : Nat)
    (op : Operation) (inside : List Operation) : Prop where
  behind : ∃ rest, ops.drop (i + 1) = inside ++ rest ∧ ∀ o, rest.head? = some o → o.kind ≠ .included
  included : ∀ o ∈ inside, o.kind = .included ∧ op.depth < o.depth
  found : inside ≠ [] → ∃ source, op.source = some source ∧ (store.SpelledBelow source →
    ∃ items, inside = items.map Prod.snd ∧ Walk store rules source op.target (fun _ ↦ True) items)

/-- Every operation for a line is known by what it carries along. -/
def CarriedIn (store : MemoryStore) (rules : RenameRules) (ops : List Operation) : Prop :=
  ∀ i op, ops[i]? = some op → op.kind ≠ .included →
    ∃ inside, CarriesAlong store rules ops i op inside

/-- The operation for one more line, and what it carries along. -/
theorem CarriedIn.snoc {ops : List Operation} (op : Operation) (inside : List Operation)
    (h : CarriedIn store rules ops) (hkind : op.kind ≠ .included)
    (hincluded : ∀ o ∈ inside, o.kind = .included ∧ op.depth < o.depth)
    (hfound : inside ≠ [] → ∃ source, op.source = some source ∧ (store.SpelledBelow source →
      ∃ items, inside = items.map Prod.snd ∧
        Walk store rules source op.target (fun _ ↦ True) items)) :
    CarriedIn store rules (ops ++ op :: inside) := by
  have hblocks : Blocks (fun op inside ↦ (∀ o ∈ inside, o.kind = .included ∧ op.depth < o.depth) ∧
      (inside ≠ [] → ∃ source, op.source = some source ∧ (store.SpelledBelow source →
        ∃ items, inside = items.map Prod.snd ∧
          Walk store rules source op.target (fun _ ↦ True) items))) ops := by
    intro i o ho hown
    obtain ⟨inside', ⟨rest, hrest, hhead⟩, hincluded', hfound'⟩ := h i o ho hown
    exact ⟨inside', rest, hrest, hhead, hincluded', hfound'⟩
  intro i o ho hown
  obtain ⟨inside', rest, hrest, hhead, hincluded', hfound'⟩ :=
    hblocks.snoc op hkind (fun o ho ↦ (hincluded o ho).1) ⟨hincluded, hfound⟩ i o ho hown
  exact ⟨inside', ⟨rest, hrest, hhead⟩, hincluded', hfound'⟩

/-- **Planning a line** only asks, and what it carries along is what the store has. -/
theorem carriedIn_planLine (hb : Serves b view) (options : PlanOptions) {progress : Progress}
    (line : Line) (s : σ) (hwf : (view s).WellFormed)
    (h : CarriedIn (view s) options.rules progress.operations.toList) :
    let out := runFrom s (planLine b options progress line)
    view out.2 = view s ∧ CarriedIn (view s) options.rules out.1.operations.toList := by
  set op := lineOperation options (progress.openDirs.take line.depth) line.kind with hop
  have hown : op.kind ≠ .included := lineOperation_kind_ne options _ line.kind
  simp only [planLine, ← hop]
  split
  · have hsnoc := h.snoc { op with warning := none } [] hown (by simp) (by simp)
    exact ⟨rfl, by simpa using hsnoc⟩
  · rename_i source hsource
    simp only [runFrom_bind, runFrom_pure]
    set found := runFrom s (inspectSource b options progress.operations.size op source)
    obtain ⟨hview, hfound⟩ :=
      walk_inspectSource hb options progress.operations.size op source s hwf
    have hwalk : WalkSound options.root
        (progress.operations.toList ++ [{ op with warning := none }]) (op.depth + 1) found.1.2 :=
      walkSound_inspectSource options source none s Array.length_toList
    have hsnoc := h.snoc { op with warning := found.1.1 } found.1.2 hown
      (fun o ho ↦ ⟨hwalk.included o ho, hwalk.deep o ho⟩)
      (fun hne ↦ by
        obtain ⟨-, hfound⟩ := hfound.resolve_left fun hnone ↦ hne hnone.1
        refine ⟨source, hsource, fun hspelled ↦ ?_⟩
        obtain ⟨items, hitems, hwalk⟩ := hfound hspelled
        refine ⟨items, hitems, hwalk.congr fun _ _ _ ↦ iff_of_true ?_ trivial⟩
        -- a directory that could not be listed has nothing found in it
        obtain ⟨x, hx⟩ := List.exists_mem_of_ne_nil items fun hnil ↦ hne (by rw [hitems, hnil]; rfl)
        obtain ⟨-, -, -, hseen⟩ := hwalk.seen_of_mem hx
        exact hseen)
    exact ⟨hview, by simpa using hsnoc⟩

/-- **A plan is known by what its operations carry along.** Planning changes nothing in the store,
and what each operation for a line carries along is what the store has. -/
theorem carriedIn_plan (hb : Serves b view) {readBlock : String → Option FrontMatter}
    {options : PlanOptions} {text : String} {s s' : σ} {result : Plan}
    (hwf : (view s).WellFormed)
    (h : runFrom s (plan b readBlock options text).run = (.ok result, s')) :
    view s' = view s ∧ CarriedIn (view s) result.options.rules result.operations := by
  obtain ⟨lines, progress, -, hresult, hprogress⟩ := plan_cases h
  have hcarried := planLines_induction
    (fun _ progress s₁ ↦ view s₁ = view s ∧
      CarriedIn (view s) result.options.rules progress.operations.toList)
    (fun _ _ _ _ h ↦ h) (fun _ line progress s₁ h ↦ ?_) ⟨rfl, nofun⟩ hprogress
  · rw [hresult] at hcarried ⊢
    exact hcarried
  · have hline := carriedIn_planLine hb result.options line s₁ (h.1 ▸ hwf) (h.1 ▸ h.2)
    rw [h.1] at hline
    exact hline

/-- The included operations behind an operation end with the block of those that are deeper. -/
theorem includedEnd?_of_block {plan : Plan} {i : Nat} {op : Operation}
    {inside rest : List Operation} (hop : plan.operations[i]? = some op)
    (hrest : plan.operations.drop (i + 1) = inside ++ rest)
    (hhead : ∀ o, rest.head? = some o → o.kind ≠ .included)
    (hinside : ∀ o ∈ inside, o.kind = .included ∧ op.depth < o.depth) :
    plan.includedEnd? i = if inside = [] then none else some (i + inside.length) := by
  -- the scan stops at the next operation for a line
  have hrun : (plan.operations.drop (i + 1)).takeWhile (fun below ↦
      below.kind == .included && decide (op.depth < below.depth)) = inside := by
    rw [hrest, List.takeWhile_append_of_pos fun o ho ↦ by simp [hinside o ho]]
    rcases rest with - | ⟨first, rest⟩
    · simp
    · simp [hhead first rfl]
  unfold Plan.includedEnd?
  rw [hop, Option.bind_eq_bind, Option.bind_some]
  simp only [hrun, List.isEmpty_iff]

/-- The included operations behind a transfer end with the last one that it carries along. -/
theorem CarriesAlong.includedEnd?_eq {plan : Plan} {i : Nat} {op : Operation}
    {inside : List Operation} (h : CarriesAlong store rules plan.operations i op inside)
    (hop : plan.operations[i]? = some op) :
    plan.includedEnd? i = if inside = [] then none else some (i + inside.length) := by
  obtain ⟨rest, hrest, hhead⟩ := h.behind
  exact includedEnd?_of_block hop hrest hhead h.included

/-- Included operations that nothing follows are all carried along. -/
theorem CarriesAlong.eq_of_included {ops inside inside' : List Operation} {i : Nat} {op : Operation}
    (h : CarriesAlong store rules ops i op inside) (hdrop : ops.drop (i + 1) = inside')
    (hincluded : ∀ o ∈ inside', o.kind = .included) : inside = inside' := by
  obtain ⟨rest, hrest, hhead⟩ := h.behind
  rw [hdrop] at hrest
  rcases rest with - | ⟨first, rest⟩
  · rw [hrest, List.append_nil]
  · exact absurd (hincluded first (by simp [hrest])) (hhead first rfl)

/-- A plan without warnings has none on its operations. -/
theorem warning_eq_none {plan : Plan} (h : plan.warnings = []) {o : Operation}
    (ho : o ∈ plan.operations) : o.warning = none := by
  by_contra hwarned
  obtain ⟨warning, hwarning⟩ := Option.ne_none_iff_exists'.mp hwarned
  have hmem : (o, warning) ∈ plan.warnings :=
    List.mem_filterMap.mpr ⟨o, ho, by rw [hwarning]; rfl⟩
  rw [h] at hmem
  cases hmem

/-- What is carried along stands right behind. -/
theorem CarriesAlong.mem_iff {ops inside : List Operation} {k : Nat} {move : Operation}
    (h : CarriesAlong store rules ops k move inside) (op : Operation) :
    op ∈ inside ↔ ∃ j, k < j ∧ j ≤ k + inside.length ∧ ops[j]? = some op := by
  obtain ⟨rest, hrest, -⟩ := h.behind
  have hget : ∀ m < inside.length, ops[k + 1 + m]? = inside[m]? := by
    intro m hm
    rw [← List.getElem?_drop, hrest, List.getElem?_append_left hm]
  constructor
  · intro hop
    obtain ⟨m, hm, rfl⟩ := List.mem_iff_getElem.mp hop
    exact ⟨k + 1 + m, by omega, by omega, by rw [hget m hm, List.getElem?_eq_getElem hm]⟩
  · rintro ⟨j, hkj, hj, hop⟩
    obtain ⟨m, rfl⟩ : ∃ m, j = k + 1 + m := ⟨j - (k + 1), by omega⟩
    rw [hget m (by omega)] at hop
    exact List.mem_of_getElem? hop

/-- **A walk carries a path along** exactly if it is stored, is reached along names, and no listing
failed above it. -/
theorem Walk.carries_iff (h : Walk store rules source target (fun _ ↦ True) items) {f : Path}
    (hbelow : ¬f ≈ source) :
    (∃ op ∈ items.map Prod.snd, ∃ p, op.source = some p ∧ p ≈ f) ↔
      (store.node? f).isSome = true ∧ (∃ names, f ≈ source.under names) ∧
        ∀ op ∈ items.map Prod.snd, op.warning ≠ none → ∀ p, op.source = some p →
          f.startsWith p = true → p ≈ f := by
  constructor
  · rintro ⟨op, hop, p, hp, hpf⟩
    obtain ⟨x, hx, rfl⟩ := List.mem_map.mp hop
    obtain rfl := Option.some.inj ((h.carries x hx).source_eq.symm.trans hp)
    obtain ⟨-, hstored, huncut⟩ := (h.covers x.1).mp ⟨x.2, hx⟩
    refine ⟨?_, ⟨x.1, hpf.symm⟩, fun op' hop' hwarned p' hp' hstart ↦ ?_⟩
    · rwa [← store.node?_congr hpf]
    · obtain ⟨y, hy, rfl⟩ := List.mem_map.mp hop'
      obtain rfl := Option.some.inj ((h.carries y hy).source_eq.symm.trans hp')
      rw [Path.startsWith, ← Path.equiv_iff.mp hpf] at hstart
      rw [huncut y hy hwarned ((source.under_startsWith_iff y.1 x.1).mp hstart)]
      exact hpf
  · rintro ⟨hstored, ⟨names, hf⟩, huncut⟩
    obtain ⟨name, more, rfl⟩ : ∃ name more, names = name :: more := by
      rcases names with - | ⟨name, more⟩
      · exact absurd hf hbelow
      · exact ⟨name, more, rfl⟩
    rw [store.node?_congr hf] at hstored
    obtain ⟨op, hop⟩ := (h.covers (name :: more)).mpr ⟨⟨name, more, rfl, trivial⟩, hstored,
      fun x hx hwarned hstarts ↦ by
        have hstart := (source.under_startsWith_iff x.1 (name :: more)).mpr hstarts
        rw [Path.startsWith, ← Path.equiv_iff.mp hf] at hstart
        have heq := huncut x.2 (List.mem_map_of_mem hx) hwarned _ (h.carries x hx).source_eq hstart
        exact (source.under_equiv_iff x.1 (name :: more)).mp (Eq.trans heq hf)⟩
    exact ⟨op, List.mem_map.mpr ⟨_, hop, rfl⟩, _, (h.carries _ hop).source_eq, Eq.symm hf⟩

end Sources

end Scaffold.Planner
