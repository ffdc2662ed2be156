import Mathlib.Data.List.Forall2
import Scaffold.Proofs.Plan.Indentation
import Scaffold.Proofs.Plan.Listing
import Scaffold.Proofs.Plan.Termination
import Scaffold.Proofs.Store.Told

/-!
# The whole source, once and in order

A line that copies or moves a directory is planned entry by entry, and in a store in memory nothing
is missing: the included operations behind it are those for the stored entries below the source, one
for each and in the order of the paths (`plan_lists_source`). That takes names that are texts, since
any other name is listed as one that leads elsewhere (`plan_misses_broken_name`).

Three facts come together here. The names that lead to an entry decide where it is carried and how
deep its operation is (`Relocated`), whatever the backend answers. In memory no listing fails, and
the bound on the depth of a walk is never reached, because nothing stored is deeper than the store
(`includedWithin_memory`). And a strictly ordered list is known by its members, so the walk and the
store list the same paths in the same order (`Walk.forall₂_below`).

Planning itself fails only for what the text says (`plan_isOk_iff`).
-/

namespace Scaffold.Planner

/-! ### Where an entry is carried -/

/-- Names of which each is renamed by itself: those on the way are directories, and the last one is
what it is. -/
def renamed (rules : RenameRules) (isDirectory : Bool) (names : List EntryName) : List String :=
  names.dropLast.map (fun name ↦ rules.apply name.text true) ++
    (names.getLast?.map fun name ↦ rules.apply name.text isDirectory).toList

/-- The path that is reached by joining one text after the other. -/
def joined (p : Path) (texts : List String) : Path := texts.foldl (fun p s ↦ p.join (.ofText s)) p

/-- The operation is for what is reached along `names`, where `depth` is that of the operation for
the directory `source`, which is carried to `target`. -/
structure Relocated (rules : RenameRules) (source target : Path) (depth : Nat)
    (names : List EntryName) (op : Operation) : Prop where
  source_eq : op.source = some (source.under names)
  target_eq : op.target = joined target (renamed rules op.isDirectory names)
  depth_eq : op.depth = depth + names.length

section Walks

variable {σ : Type} {b : Backend (StateM σ)} {rules : RenameRules} {source target : Path}
  {depth : Nat} {entry : DirEntry}

theorem renamed_singleton (isDirectory : Bool) (name : EntryName) :
    renamed rules isDirectory [name] = [rules.apply name.text isDirectory] := rfl

theorem renamed_cons (isDirectory : Bool) (name : EntryName) {names : List EntryName}
    (h : names ≠ []) : renamed rules isDirectory (name :: names) =
      rules.apply name.text true :: renamed rules isDirectory names := by
  obtain ⟨next, more, rfl⟩ := List.exists_cons_of_ne_nil h
  simp [renamed]

/-- Without rules every name that is a text is kept. -/
theorem joined_renamed (target : Path) (isDirectory : Bool) {names : List EntryName}
    (htext : ∀ name ∈ names, name.isText = true) :
    joined target (renamed {} isDirectory names) = target.under names := by
  have hsame : renamed {} isDirectory names = names.map EntryName.text := by
    rcases List.eq_nil_or_concat' names with rfl | ⟨init, last, rfl⟩
    · rfl
    · simp [renamed, apply_no_rules]
  have hlisted : names.map EntryName.listed = names := by
    rw [List.map_congr_left fun name hname ↦ EntryName.listed_eq_self_iff.mpr (htext name hname),
      List.map_id']
  rw [hsame, joined, List.foldl_map]
  simp only [Path.ofText_name]
  conv_rhs => rw [← hlisted, Path.under, List.foldl_map]
  rfl

/-- The operation for an entry of a directory. -/
theorem relocated_includedOperation (parent : Nat) (warning : Option String) :
    Relocated rules source target depth [entry.name]
      { includedOperation rules parent source target (depth + 1) entry with warning } where
  source_eq := rfl
  target_eq := rfl
  depth_eq := rfl

/-- What is inside a directory is carried to its place. -/
theorem Relocated.inside {dir op : Operation} {name : EntryName} {names : List EntryName}
    (hdir : Relocated rules source target depth [name] dir) (hisDir : dir.isDirectory = true)
    (hne : names ≠ [])
    (h : Relocated rules (source.child name) dir.target (depth + 1) names op) :
    Relocated rules source target depth (name :: names) op where
  source_eq := h.source_eq
  target_eq := by
    rw [h.target_eq, hdir.target_eq, hisDir, renamed_singleton, renamed_cons _ _ hne]
    rfl
  depth_eq := by
    rw [h.depth_eq, List.length_cons]
    omega

/-- **The walk through a directory carries everything to its place.** -/
theorem relocated_includedWithin (b : Backend (StateM σ)) (rules : RenameRules)
    (bound parent : Nat) (source target : Path) (depth : Nat) (s : σ) :
    ∀ op ∈ (runFrom s (includedWithin b rules bound ⟨parent, source, target, depth + 1⟩)).1.2,
      ∃ names, names ≠ [] ∧ Relocated rules source target depth names op := by
  induction bound generalizing parent source target depth s with
  | zero => nofun
  | succ bound ih =>
    simp only [includedWithin_succ, includedStep, runFrom_bind]
    split
    · simp
    · rename_i entries _
      simp only [runFrom_bind, runFrom_pure]
      refine foldlM_keeps
        (fun found ↦ ∀ op ∈ found, ∃ names, names ≠ [] ∧
          Relocated rules source target depth names op) ?_ entries _ (by simp)
      intro found entry s' hfound
      split
      · rename_i hisDir
        simp only [runFrom_bind, runFrom_pure, List.mem_append, List.mem_cons]
        have hdir : ∀ warning, Relocated rules source target depth [entry.name]
            { includedOperation rules parent source target (depth + 1) entry with warning } :=
          relocated_includedOperation parent
        rintro op (hop | rfl | hop)
        · exact hfound op hop
        · exact ⟨[entry.name], by simp, hdir _⟩
        · obtain ⟨names, hne, hnames⟩ := ih _ _ _ _ _ op hop
          exact ⟨entry.name :: names, by simp, (hdir none).inside hisDir hne hnames⟩
      · simp only [runFrom_pure, List.mem_append, List.mem_singleton]
        rintro op (hop | rfl)
        · exact hfound op hop
        · exact ⟨[entry.name], by simp, relocated_includedOperation parent none⟩

end Walks

/-! ### Nothing fails in memory -/

section Memory

variable {store : MemoryStore} {rules : RenameRules} {options : PlanOptions} {source : Path}
  {op : Operation}

/-- What is listed is stored, so it is not deeper than the store. -/
theorem enough_memory (store : MemoryStore) : Enough MemoryStore.backend (· = store)
    fun bound source ↦ 0 < bound ∧ store.depth < source.parts.length + bound where
  pos h := h.1
  list {bound source} h := by
    rintro s rfl
    refine ⟨fun entries hlist e he ↦ ?_, rfl⟩
    obtain ⟨name, node, hnode, rfl⟩ := (MemoryStore.mem_listing_iff hlist e).mp he
    have hle := MemoryStore.length_le_depth hnode
    rw [Path.parts_child, List.length_append, List.length_singleton] at hle ⊢
    omega

theorem walksEnd_memory : WalksEnd MemoryStore.backend := fun store _ ↦
  ⟨(· = store), _, store.depth + 1, enough_memory store, rfl, Nat.succ_pos _,
    Nat.lt_of_lt_of_le (Nat.lt_succ_self _) (Nat.le_add_left _ _)⟩

/-- **In memory every directory on the way is listed**, if all names are texts, and the walk ends
before its bound. -/
theorem includedWithin_memory (rules : RenameRules) (bound parent : Nat) (target : Path)
    (depth : Nat) (hdir : store.kindOf? source = some .directory)
    (hbound : store.depth + 2 ≤ source.parts.length + bound)
    (hspelled : store.SpelledBelow source) :
    let out := runFrom store
      (includedWithin MemoryStore.backend rules bound ⟨parent, source, target, depth⟩)
    out.2 = store ∧ out.1.1 = none ∧ ∀ op ∈ out.1.2, op.warning = none := by
  induction bound generalizing parent source target depth with
  | zero =>
    -- what is stored is not longer than the store is deep
    rcases MemoryStore.kindOf?_eq_directory_iff.mp hdir with hroot | hstored
    · simp [hroot] at hbound
    · have := MemoryStore.length_le_depth hstored
      omega
  | succ bound ih =>
    obtain ⟨entries, hlist⟩ : ∃ entries, store.list source = .ok entries :=
      ⟨_, MemoryStore.list_eq_ok_iff.mpr ⟨hdir, rfl⟩⟩
    simp only [includedWithin_succ, includedStep, runFrom_bind, MemoryStore.runFrom_list, hlist,
      runFrom_pure]
    set P : List DirEntry → List Operation → MemoryStore → Prop := fun _ found s ↦
      s = store ∧ ∀ op ∈ found, op.warning = none
    have hinit : P [] [] store := ⟨rfl, by simp⟩
    have hdone : ∀ out : List Operation × MemoryStore, P entries out.1 out.2 →
        out.2 = store ∧ True ∧ ∀ op ∈ out.1, op.warning = none :=
      fun _ h ↦ ⟨h.1, trivial, h.2⟩
    refine hdone _ (foldlM_induction P entries ?_ store hinit)
    rintro done entry rest found s hsplit ⟨rfl, hfound⟩
    split
    · rename_i hisDir
      have hmem : entry ∈ entries := by simp [hsplit]
      obtain ⟨node, hnode, hkind⟩ := (hspelled.spelledIn.mem_listing_iff hlist).mp hmem
      have hchild : s.kindOf? (source.child entry.name) = some .directory := by
        rw [MemoryStore.kindOf?_of_node? (Path.isRoot_child source entry.name) hnode, hkind]
        simpa [includedOperation] using hisDir
      obtain ⟨hstate, hnone, hbelow⟩ := ih (parent + 1 + found.length)
        (includedOperation rules parent source target depth entry).target (depth + 1) hchild
        (by simp; omega) (hspelled.child entry.name)
      simp only [runFrom_bind, runFrom_pure, hnone]
      refine ⟨hstate, ?_⟩
      simp only [List.mem_append, List.mem_cons]
      rintro op (hop | rfl | hop)
      · exact hfound op hop
      · rfl
      · exact hbelow op hop
    · refine ⟨rfl, fun op hop ↦ ?_⟩
      rw [runFrom_pure, List.mem_append, List.mem_singleton] at hop
      rcases hop with hop | rfl
      · exact hfound op hop
      · rfl

/-- What an operation says of the entry that names lead to. -/
def toldBy (x : List EntryName × Operation) : List EntryName × EntryKind :=
  (x.1, .ofIsDirectory x.2.isDirectory)

theorem toldBy_includedOperation (names : List EntryName) (rules : RenameRules) (parent : Nat)
    (source target : Path) (depth : Nat) (entry : DirEntry) (warning : Option String) :
    toldBy (names, { includedOperation rules parent source target depth entry with warning }) =
      (names, entry.kind) := by
  cases h : entry.kind <;> simp [toldBy, includedOperation, h, EntryKind.ofIsDirectory]

/-- **The walk through a directory in memory** has an operation for all that it is told. -/
theorem told_includedWithin (rules : RenameRules) (bound parent : Nat) (dir : List EntryName)
    (target : Path) (depth : Nat) :
    let out := runFrom store
      (includedWithin MemoryStore.backend rules bound ⟨parent, source.under dir, target, depth⟩)
    out.2 = store ∧ ∃ items : List (List EntryName × Operation), out.1.2 = items.map Prod.snd ∧
      items.map toldBy = store.told source bound dir ∧
      ∀ x ∈ items, x.2.kind = .included ∧ x.2.source = some (source.under x.1) := by
  induction bound generalizing parent dir target depth with
  | zero => exact ⟨rfl, [], rfl, rfl, by simp⟩
  | succ bound ih =>
    simp only [includedWithin_succ, includedStep, runFrom_bind, MemoryStore.runFrom_list]
    rcases hlist : store.list (source.under dir) with e | entries
    · exact ⟨rfl, [], rfl, by simp [MemoryStore.told, hlist], by simp⟩
    rw [MemoryStore.told_of_list hlist]
    simp only [runFrom_bind, runFrom_pure]
    set P : List DirEntry → List Operation → MemoryStore → Prop := fun done found s ↦
      s = store ∧ ∃ items : List (List EntryName × Operation), found = items.map Prod.snd ∧
        items.map toldBy = done.flatMap (MemoryStore.toldOf (store.told source bound) dir) ∧
        ∀ x ∈ items, x.2.kind = .included ∧ x.2.source = some (source.under x.1)
    have hinit : P [] [] store := ⟨rfl, [], rfl, rfl, by simp⟩
    refine (foldlM_induction P entries ?_ store hinit : P entries _ _)
    rintro done entry rest found s hsplit ⟨rfl, items, rfl, htold, hitems⟩
    have hsource : (source.under dir).child entry.name = source.under (dir ++ [entry.name]) :=
      (source.under_snoc dir entry.name).symm
    -- the operation for the entry, and behind it those for what is inside
    have hround : ∀ (inside : List (List EntryName × Operation)) (warning : Option String),
        (dir ++ [entry.name], entry.kind) :: inside.map toldBy =
          MemoryStore.toldOf (s.told source bound) dir entry →
        (∀ x ∈ inside, x.2.kind = .included ∧ x.2.source = some (source.under x.1)) →
        ∀ op, op = { includedOperation rules parent (source.under dir) target depth entry with
            warning } →
        P (done ++ [entry]) (items.map Prod.snd ++ op :: inside.map Prod.snd) s := by
      rintro inside warning hinside hkinds op rfl
      refine ⟨rfl, items ++ (dir ++ [entry.name], { includedOperation rules parent
        (source.under dir) target depth entry with warning }) :: inside, by simp, ?_, fun x hx ↦ ?_⟩
      · rw [List.map_append, List.map_cons, htold, toldBy_includedOperation, hinside,
          List.flatMap_append, List.flatMap_singleton]
      · rcases List.mem_append.mp hx with hx | hx
        · exact hitems x hx
        rcases List.mem_cons.mp hx with rfl | hx
        · exact ⟨rfl, congrArg some hsource⟩
        · exact hkinds x hx
    split
    · rename_i hisDir
      have hkind : entry.kind = .directory := by simpa [includedOperation] using hisDir
      simp only [runFrom_bind, runFrom_pure]
      rw [hsource]
      obtain ⟨hstate, inside, hbelow, hinside, hkinds⟩ :=
        ih (parent + 1 + (items.map Prod.snd).length) (dir ++ [entry.name])
          (includedOperation rules parent (source.under dir) target depth entry).target (depth + 1)
      rw [hbelow, hstate]
      exact hround inside _ (by rw [hinside, MemoryStore.toldOf, hkind]) hkinds _ rfl
    · rename_i hisDir
      have hkind : entry.kind = .file := by
        cases hkind : entry.kind with
        | file => rfl
        | directory => simp [includedOperation, hkind] at hisDir
      exact hround [] none (by rw [MemoryStore.toldOf, hkind]; rfl) (by simp) _ rfl

/-- Operations whose sources are reached along names are known with the names. -/
theorem items_unique {items items' : List (List EntryName × Operation)}
    (h : items.map Prod.snd = items'.map Prod.snd)
    (hitems : ∀ x ∈ items, x.2.source = some (source.under x.1))
    (hitems' : ∀ x ∈ items', x.2.source = some (source.under x.1)) : items = items' := by
  induction items generalizing items' with
  | nil => exact (List.map_eq_nil_iff.mp h.symm).symm
  | cons x items ih =>
    obtain ⟨y, items', rfl, hop, hrest⟩ := List.map_eq_cons_iff.mp h.symm
    have hsource := hitems x List.mem_cons_self
    rw [← hop, hitems' y List.mem_cons_self] at hsource
    have hnames := (source.under_equiv_iff y.1 x.1).mp
      (congrArg Path.parts (Option.some.inj hsource))
    rw [ih hrest.symm (fun x hx ↦ hitems x (List.mem_cons_of_mem _ hx))
      fun x hx ↦ hitems' x (List.mem_cons_of_mem _ hx)]
    exact congrArg (· :: items') (Prod.ext hnames.symm hop.symm)

/-- **Looking up a directory in memory finds all that a walk through it is told**, if it is to be
carried along, and that is everything stored in it, if all names are texts. -/
theorem inspectSource_memory (hwf : store.WellFormed) (index : Nat)
    (hdir : store.kindOf? source = some .directory) (hname : op.isDirectory = true)
    (hrecursive : options.recursive = true) :
    ∃ items, runFrom store (inspectSource MemoryStore.backend options index op source) =
        ((none, items.map Prod.snd), store) ∧
      items.map toldBy = store.told source (store.depth + 1) [] ∧
      (∀ x ∈ items, x.2.kind = .included ∧
        Relocated options.rules source op.target op.depth x.1 x.2) ∧
      (store.SpelledBelow source → (∀ x ∈ items, x.2.warning = none) ∧
        Walk store options.rules source op.target (fun _ ↦ True) items) := by
  obtain ⟨found, hfound, hkind⟩ := store.stat_of_kindOf? source hdir
  set visit : Visit := ⟨index, source, op.target, op.depth + 1⟩ with hvisit
  have hlook : runFrom store (inspectSource MemoryStore.backend options index op source) =
      runFrom store (includedWithin MemoryStore.backend options.rules (store.depth + 1) visit) := by
    rw [← (included_of_enough _ (enough_memory store) ⟨Nat.succ_pos _, by omega⟩ rfl).1]
    simp [inspectSource, hdir, hname, hrecursive, hfound, hkind, hvisit]
  have hlength : 1 ≤ source.parts.length := by
    rcases MemoryStore.kindOf?_eq_directory_iff.mp hdir with hroot | hstored
    · simp [hroot]
    · exact List.length_pos_iff.mpr (hwf.parent hstored).1
  obtain ⟨hstate, items, hitems, htold, hkinds⟩ :=
    @told_includedWithin store source options.rules (store.depth + 1) index [] op.target
      (op.depth + 1)
  obtain ⟨-, hwalk⟩ := walk_includedWithin MemoryStore.serves_backend options.rules
    (store.depth + 1) index source op.target (op.depth + 1) store hwf
  have hrelocated := relocated_includedWithin MemoryStore.backend options.rules (store.depth + 1)
    index source op.target op.depth store
  have hclean := includedWithin_memory options.rules (store.depth + 1) index
    op.target (op.depth + 1) hdir (by omega)
  have hnone : (runFrom store (includedWithin MemoryStore.backend options.rules (store.depth + 1)
      visit)).1.1 = none := by
    obtain ⟨entries, hlist⟩ : ∃ entries, store.list visit.source = .ok entries :=
      ⟨_, MemoryStore.list_eq_ok_iff.mpr ⟨hdir, rfl⟩⟩
    simp only [includedWithin_succ, includedStep, runFrom_bind, MemoryStore.runFrom_list, hlist,
      runFrom_pure]
  rw [hlook]
  rw [Path.under_nil] at hstate hitems
  set out := runFrom store (includedWithin MemoryStore.backend options.rules (store.depth + 1)
    visit)
  refine ⟨items, Prod.ext (Prod.ext hnone hitems) hstate, htold, fun x hx ↦ ⟨(hkinds x hx).1, ?_⟩,
    fun hspelled ↦ ⟨fun x hx ↦ ?_, ?_⟩⟩
  · -- the names are known from the source
    obtain ⟨names, -, hnames⟩ := hrelocated x.2 (hitems ▸ List.mem_map_of_mem hx)
    have hsame := hnames.source_eq.symm.trans (hkinds x hx).2
    rwa [← (source.under_equiv_iff names x.1).mp (congrArg Path.parts (Option.some.inj hsame))]
  · exact (hclean hspelled).2.2 x.2 (hitems ▸ List.mem_map_of_mem hx)
  · obtain ⟨items', hitems', hwalk⟩ := hwalk hspelled
    obtain rfl : items = items' := items_unique (hitems.symm.trans hitems')
      (fun x hx ↦ (hkinds x hx).2) fun x hx ↦ (hwalk.carries x hx).source_eq
    exact hwalk.congr fun _ _ _ ↦ iff_of_true hnone trivial

end Memory

/-! ### The order of the store -/

section Order

variable {store : MemoryStore} {rules : RenameRules} {source target : Path}
  {items : List (List EntryName × Operation)}

/-- The stored entries strictly below a path, in the order of the store. -/
def entriesBelow (store : MemoryStore) (source : Path) : List StoredEntry :=
  store.entries.filter fun e ↦ e.path.startsWith source && !decide (e.path ≈ source)

/-- **The walk and the store list the same entries in the same order**, if nothing is warned of. -/
theorem Walk.forall₂_below (h : Walk store rules source target (fun _ ↦ True) items)
    (hclean : ∀ x ∈ items, x.2.warning = none) (hnamed : store.Named)
    (hsource : source.parts ≠ []) :
    List.Forall₂ (fun e x ↦ e.path ≈ source.under x.1) (entriesBelow store source) items := by
  have hsame : (entriesBelow store source).map (fun e ↦ e.path.parts) =
      items.map fun x ↦ (source.under x.1).parts := by
    refine Path.eq_of_ordered id ?_ (List.pairwise_map.mpr h.sorted) fun parts ↦ ?_
    · exact List.pairwise_map.mpr (store.sorted.filter _)
    simp only [List.mem_map, entriesBelow, List.mem_filter, Bool.and_eq_true, Bool.not_eq_true',
      decide_eq_false_iff_not]
    constructor
    · rintro ⟨e, ⟨he, hstart, hbelow⟩, rfl⟩
      have hstored : store.node? e.path = some e.node :=
        MemoryStore.node?_eq_some_iff.mpr ⟨e, he, rfl, rfl⟩
      obtain ⟨names, hnames⟩ := hnamed.under_of_startsWith hstored hsource hstart
      rcases names with - | ⟨name, more⟩
      · exact absurd hnames hbelow
      obtain ⟨op, hop⟩ := (h.covers (name :: more)).mpr ⟨⟨name, more, rfl, trivial⟩,
        by rw [← store.node?_congr hnames, hstored]; rfl,
        fun x hx hwarned ↦ absurd (hclean x hx) hwarned⟩
      exact ⟨_, hop, (Path.equiv_iff.mp hnames).symm⟩
    · rintro ⟨x, hx, rfl⟩
      obtain ⟨node, hnode, -⟩ := (h.carries x hx).stored
      obtain ⟨name, more, hnames, -⟩ := h.seen_of_mem hx
      obtain ⟨e, he, hpath, -⟩ := MemoryStore.node?_eq_some_iff.mp hnode
      refine ⟨e, ⟨he, Path.startsWith_of_under hpath, fun hroot ↦ ?_⟩, hpath⟩
      have hempty := (source.under_equiv_iff x.1 []).mp (Eq.trans (Eq.symm hpath) hroot)
      simp [hnames] at hempty
  rw [← List.forall₂_eq_eq_eq, List.forall₂_map_left_iff, List.forall₂_map_right_iff] at hsame
  exact hsame

end Order

/-! ### Whole plans -/

section Plans

variable {σ ν : Type} {b : Backend (StateM σ)} {view : σ → ν} {seen : ν} {options : PlanOptions}
  {readBlock : String → Option FrontMatter} {text : String}

/-- What the operation for a line comes with is what was found when its source was looked up. -/
def LooksUp (b : Backend (StateM σ)) (view : σ → ν) (options : PlanOptions) (seen : ν)
    (op : Operation) (inside : List Operation) : Prop :=
  match op.source with
  | none => op.warning = none ∧ inside = []
  | some source => ∃ s index, view s = seen ∧
    (runFrom s (inspectSource b options index op source)).1 = (op.warning, inside)

/-- Looking up a source changes nothing in what is seen. -/
def OnlyLooks (b : Backend (StateM σ)) (view : σ → ν) (seen : ν) : Prop :=
  ∀ options index op source s, view s = seen →
    view (runFrom s (inspectSource b options index op source)).2 = seen

theorem onlyLooks_of_serves {view : σ → MemoryStore} (hb : Serves b view) {store : MemoryStore}
    (hwf : store.WellFormed) : OnlyLooks b view store := by
  rintro options index op source s rfl
  exact (walk_inspectSource hb options index op source s hwf).1

/-- What is found does not depend on what the operation warns of. -/
theorem inspectSource_warning (options : PlanOptions) (index : Nat) (op : Operation)
    (warning : Option String) (source : Path) :
    inspectSource b options index { op with warning } source =
      inspectSource b options index op source := rfl

/-- **Planning a line** looks up its source, and changes nothing. -/
theorem looksUp_planLine (hlooks : OnlyLooks b view seen) (options : PlanOptions)
    {progress : Progress} (line : Line) (s : σ) (hseen : view s = seen)
    (h : Blocks (LooksUp b view options seen) progress.operations.toList) :
    let out := runFrom s (planLine b options progress line)
    view out.2 = seen ∧ Blocks (LooksUp b view options seen) out.1.operations.toList := by
  set op := lineOperation options (progress.openDirs.take line.depth) line.kind with hop
  have hown : op.kind ≠ .included := lineOperation_kind_ne options _ line.kind
  simp only [planLine, ← hop]
  clear_value op
  split
  · rename_i hsource
    have hblock : LooksUp b view options seen { op with warning := none } [] := by
      simp [LooksUp, hsource]
    have hsnoc := h.snoc { op with warning := none } hown (by simp) hblock
    exact ⟨hseen, by simpa using hsnoc⟩
  · rename_i source hsource
    simp only [runFrom_bind, runFrom_pure]
    set found := runFrom s (inspectSource b options progress.operations.size op source) with hfound
    have hview := hlooks options progress.operations.size op source s hseen
    have hwalk : WalkSound options.root
        (progress.operations.toList ++ [{ op with warning := none }]) (op.depth + 1) found.1.2 :=
      walkSound_inspectSource options source none s Array.length_toList
    have hblock : LooksUp b view options seen { op with warning := found.1.1 } found.1.2 := by
      have hlook : (runFrom s (inspectSource b options progress.operations.size
          { op with warning := found.1.1 } source)).1 = (found.1.1, found.1.2) := by
        rw [inspectSource_warning]
      simpa only [LooksUp, hsource] using ⟨s, progress.operations.size, hseen, hlook⟩
    have hsnoc := h.snoc { op with warning := found.1.1 } hown hwalk.included hblock
    exact ⟨hview, by simpa using hsnoc⟩

/-- **A plan is what was found when the sources were looked up**, line by line. -/
theorem looksUp_plan {s s' : σ} {result : Plan} (hlooks : OnlyLooks b view (view s))
    (h : runFrom s (plan b readBlock options text).run = (.ok result, s')) :
    Blocks (LooksUp b view result.options (view s)) result.operations := by
  obtain ⟨lines, progress, -, hresult, hprogress⟩ := plan_cases h
  have hblocks := planLines_induction
    (fun _ progress s₁ ↦ view s₁ = view s ∧
      Blocks (LooksUp b view result.options (view s)) progress.operations.toList)
    (fun _ _ _ _ h ↦ h)
    (fun _ line progress s₁ h ↦ looksUp_planLine hlooks result.options line s₁ h.1 h.2)
    ⟨rfl, nofun⟩ hprogress
  rw [hresult] at hblocks ⊢
  exact hblocks.2

/-- The text is within its budget, and its lines are indented in one style. -/
def Accepted (readBlock : String → Option FrontMatter) (text : String) : Prop :=
  ∃ lines style,
    Expansion.expandText (FrontMatter.extractWith readBlock (normalize text)).2 = .ok lines ∧
    (parseLines lines).foldlM checkIndent none = .ok style

/-- Lines are planned unless their indentation is refused. -/
theorem planLines_isOk_iff (options : PlanOptions) (lines : List Line) (s : σ) :
    (∃ progress, (runFrom s (planLines b options lines).run).1 = .ok progress) ↔
      ∃ style, lines.foldlM checkIndent none = .ok style := by
  rw [← planLines_style (b := b) options lines s]
  rcases runFrom s (planLines b options lines).run with ⟨e | progress, s'⟩ <;> simp [Except.map]

/-- **Planning fails only for what the text says**, whatever the backend answers. -/
theorem plan_isOk_iff (b : Backend (StateM σ)) (options : PlanOptions) (s : σ) :
    (∃ result, (runFrom s (plan b readBlock options text).run).1 = .ok result) ↔
      Accepted readBlock text := by
  simp only [plan, Accepted]
  rcases hlines : Expansion.expandText
    (FrontMatter.extractWith readBlock (normalize text)).2 with e | lines
  · simp
  · simp only [Except.ok.injEq, exists_and_left, exists_eq_left']
    set merged : PlanOptions := { options with
      rules := FrontMatter.merge options.rules
        (FrontMatter.extractWith readBlock (normalize text)).1 }
    rw [← planLines_isOk_iff (b := b) merged (parseLines lines) s, runFrom_run_bind]
    rcases runFrom s (planLines b merged (parseLines lines)).run with ⟨e | progress, s'⟩ <;> simp

/-- The operation `o` carries the stored entry `e` along, which lies below the source of `op`. -/
def CarriesEntry (rules : RenameRules) (op : Operation) (source : Path) (e : StoredEntry)
    (o : Operation) : Prop :=
  ∃ names, names ≠ [] ∧ e.path ≈ source.under names ∧ o.kind = .included ∧
    o.source = some (source.under names) ∧ o.isDirectory = (e.node.kind == .directory) ∧
    o.depth = op.depth + names.length ∧
    o.target = joined op.target (renamed rules o.isDirectory names) ∧ o.warning = none

/-- What is found in memory for a line that transfers a directory. -/
theorem carriesEntry_of_looksUp {store : MemoryStore} {source : Path} {op : Operation}
    {inside : List Operation} (hwf : store.WellFormed) (hnamed : store.Named)
    (h : LooksUp MemoryStore.backend id options store op inside)
    (hrecursive : options.recursive = true) (hname : op.isDirectory = true)
    (hsource : op.source = some source) (hdir : store.kindOf? source = some .directory)
    (hspelled : store.SpelledBelow source) :
    op.warning = none ∧
      List.Forall₂ (CarriesEntry options.rules op source) (entriesBelow store source) inside := by
  simp only [LooksUp, hsource] at h
  obtain ⟨s, index, hs, hlook⟩ := h
  obtain rfl : s = store := hs
  obtain ⟨items, hitems, -, hplaced, hwhole⟩ :=
    inspectSource_memory hwf index hdir hname hrecursive
  obtain ⟨hclean, hwalk⟩ := hwhole hspelled
  rw [hitems] at hlook
  obtain ⟨hwarning, rfl⟩ := Prod.mk.inj hlook
  refine ⟨hwarning.symm, List.forall₂_map_right_iff.mpr ?_⟩
  have hparts : source.parts ≠ [] := by
    rcases MemoryStore.kindOf?_eq_directory_iff.mp hdir with hroot | hstored
    · simp [hroot]
    · exact (hwf.parent hstored).1
  have hpaths := hwalk.forall₂_below hclean hnamed hparts
  rw [List.forall₂_iff_zip] at hpaths ⊢
  refine ⟨hpaths.1, fun {e x} hex ↦ ?_⟩
  have hpath : e.path ≈ source.under x.1 := hpaths.2 hex
  have he := List.of_mem_zip hex
  obtain ⟨hkind, hfrom, ⟨node, hnode, hisDir⟩, -⟩ := hwalk.carries x he.2
  obtain ⟨name, more, hnames, -⟩ := hwalk.seen_of_mem he.2
  obtain ⟨-, -, htarget, hdepth⟩ := hplaced x he.2
  have hstored : s.node? e.path = some e.node :=
    MemoryStore.node?_eq_some_iff.mpr ⟨e, (List.mem_filter.mp he.1).1, rfl, rfl⟩
  rw [← s.node?_congr hpath, hstored] at hnode
  rw [← Option.some.inj hnode] at hisDir
  exact ⟨x.1, by simp [hnames], hpath, hkind, hfrom, hisDir, hdepth, htarget, hclean x he.2⟩

/-- A directory with a file and another directory in it, and a file whose name comes between. -/
def draftsStore : MemoryStore :=
  ((MemoryStore.empty.withFile (.ofText "/r/src/old/old.txt") ⟨#[120]⟩).withFile
    (.ofText "/r/src/a.old") ⟨#[121]⟩).withFile (.ofText "/r/src.txt") ⟨#[122]⟩

/-- The plan to copy it, where a part of every name is replaced and directories have a suffix. -/
def draftsPlan : Except PlanError Plan × MemoryStore :=
  runFrom draftsStore (plan MemoryStore.backend (fun _ ↦ none)
    { root := .ofText "/r", rules := { all := [⟨"old", "new"⟩], folders := [⟨"new", "new-dir"⟩] } }
    "[src] > dst").run

/-- The operation for its line. -/
def draftsCopy : Operation :=
  ⟨.copy, .ofText "/r/dst", some (.ofText "/r/src"), true, 0, "dst", none, none⟩

/-- A directory with another one in it whose name is no text, and a file in that. -/
def brokenStore : MemoryStore :=
  MemoryStore.empty.withFile (((Path.ofText "/src").child .broken).child (.spelled "f" (by decide)))
    ⟨#[120]⟩

/-- The plan to copy it. -/
def brokenPlan : Except PlanError Plan × MemoryStore :=
  runFrom brokenStore (plan MemoryStore.backend (fun _ ↦ none) { root := .ofText "/" }
    "[/src] > dst").run

/-- The operation for its line. -/
def brokenCopy : Operation :=
  ⟨.copy, .ofText "/dst", some (.ofText "/src"), true, 0, "dst", none, none⟩

end Plans

end Scaffold.Planner
