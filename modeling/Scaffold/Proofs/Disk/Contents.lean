import Scaffold.Proofs.Disk.Asking

/-!
# What is in a directory of a disk

From a directory names lead on as long as they are those of directories, and no link is followed on
the way (`Disk.LeadsTo`). So nothing is reached behind a link, wherever it leads
(`LeadsTo.eq_nil_of_link`).

A program goes through a directory by listing it, and then the directories in it, each at the path
of its own. What it finds in this way (`Disk.contents`) is everything that names lead to
(`mem_contents_iff`), each once (`nodup_contents`), except inside directories that cannot be listed
(`Disk.Listable`): some are locked, and the path of others is too long for a disk. Paths become
longer with every name, so at the latest there it ends.

Names are listed as texts, so a name that is none is found as another one, which need not lead back.
All of this is said of directories below which all names are texts (`Disk.SpelledBelow`).
-/

namespace Scaffold

namespace Disk

variable {d : Disk} {loc : Location} {p : Path} {name : EntryName} {names : List EntryName}
  {node : DiskNode}

/-! ### Disks that can be listed -/

/-- The entries are in order, and all names on the disk are such as an operating system has. -/
structure WellNamed (d : Disk) : Prop where
  sorted : d.Sorted
  short : ∀ e ∈ d.entries, ∀ name ∈ e.1, name.size ≤ maxNameBytes
  nulFree : ∀ e ∈ d.entries, ∀ name ∈ e.1, '\x00' ∉ name.text.toList

instance (d : Disk) : Decidable d.WellNamed :=
  decidable_of_iff (d.Sorted ∧
      (∀ e ∈ d.entries, ∀ name ∈ e.1, name.size ≤ maxNameBytes) ∧
      ∀ e ∈ d.entries, ∀ name ∈ e.1, '\x00' ∉ name.text.toList)
    ⟨fun h ↦ ⟨h.1, h.2.1, h.2.2⟩, fun h ↦ ⟨h.1, h.2, h.3⟩⟩

theorem WellNamed.of_node? (hd : d.WellNamed) (h : d.node? (loc ++ [name]) = some node) :
    name.size ≤ maxNameBytes ∧ '\x00' ∉ name.text.toList := by
  rw [node?, if_neg (by simp)] at h
  have hmem := hd.sorted.lookup_eq_some_iff.mp h
  exact ⟨hd.short _ hmem name (by simp), hd.nulFree _ hmem name (by simp)⟩

/-- Every name on the way from the location to what is below it is a text. -/
def SpelledBelow (d : Disk) (loc : Location) : Prop :=
  ∀ e ∈ d.entries, loc <+: e.1 → ∀ name ∈ e.1.drop loc.length, name.isText = true

instance (d : Disk) (loc : Location) : Decidable (d.SpelledBelow loc) :=
  inferInstanceAs (Decidable (∀ e ∈ d.entries, loc <+: e.1 →
    ∀ name ∈ e.1.drop loc.length, name.isText = true))

theorem SpelledBelow.isText (h : d.SpelledBelow loc) (hd : d.Sorted)
    (hnode : d.node? (loc ++ [name]) = some node) : name.isText = true := by
  rw [node?, if_neg (by simp)] at hnode
  refine h _ (hd.lookup_eq_some_iff.mp hnode) (List.prefix_append _ _) name ?_
  rw [List.drop_left]
  exact List.mem_singleton.mpr rfl

theorem SpelledBelow.child (h : d.SpelledBelow loc) (name : EntryName) :
    d.SpelledBelow (loc ++ [name]) := by
  intro e he hbelow name' hname'
  refine h e he ((List.prefix_append _ _).trans hbelow) name' ?_
  rw [List.length_append, ← List.drop_drop] at hname'
  exact List.mem_of_mem_drop hname'

/-- The path is short enough for a disk. -/
def Fits (p : Path) : Prop := p.size < maxPathBytes

instance (p : Path) : Decidable (Fits p) :=
  inferInstanceAs (Decidable (p.size < maxPathBytes))

/-- The directory at a location can be listed at the path `p`: the path fits, and the directory is
not locked. -/
def Listable (d : Disk) (p : Path) (loc : Location) : Prop := Fits p ∧ loc ∉ d.locked

instance (d : Disk) (p : Path) (loc : Location) : Decidable (d.Listable p loc) :=
  inferInstanceAs (Decidable (_ ∧ _))

/-- A bound on the number of directories that a walk goes down from the path, which no walk can
reach: the paths on the way become too long before. -/
def Suffices (reach : Nat) (p : Path) : Prop :=
  0 < reach ∧ (p.isEmpty = false → maxPathBytes < p.size + reach)

theorem suffices_maxDepth (p : Path) : Suffices System.maxDepth p :=
  ⟨by decide, fun hp ↦ Nat.lt_add_of_pos_left (Path.size_pos hp)⟩

theorem Suffices.child {reach : Nat} (h : Suffices (reach + 1) p) (hp : p.isEmpty = false)
    (hfits : Fits p) (name : EntryName) : Suffices reach (p.child name) := by
  have hreach := h.2 hp
  have hlonger := p.size_lt_child name
  rw [Fits] at hfits
  exact ⟨by omega, fun _ ↦ by omega⟩

/-! ### Paths of directories -/

/-- The path leads to the directory at a location, unless it is too long. -/
structure Opens (d : Disk) (p : Path) (loc : Location) : Prop where
  isEmpty_eq : p.isEmpty = false
  noNul : ¬p.HasNul
  enter_eq : d.enter p.parts = .ok loc

theorem walkHops_eq_dir_iff :
    d.walkHops true (hops p) = .ok (.found loc .dir) ↔ d.enter p.parts = .ok loc := by
  have henter : ∀ parts, d.enter parts = .ok loc ↔
      d.walkHops true parts = .ok (.found loc .dir) := by
    intro parts
    rw [enter]
    rcases d.walkHops true parts with e | ⟨dir, - | bytes | target⟩ | ⟨dir, n⟩ <;>
      simp [bind, Except.bind, pure, Except.pure, throw, throwThe, MonadExceptOf.throw]
  by_cases htail : p.tail.isEmpty
  · rw [hops, if_pos htail, List.append_nil, henter]
  -- behind the parts there is only a step to the directory itself
  · rw [hops, if_neg htail]
    rcases hparts : d.enter p.parts with e | dir
    · rw [walkHops_of_enter_error (by simp) hparts]
      simp
    · obtain ⟨left, hleft⟩ := walkHops_of_enter (List.cons_ne_nil .here []) hparts
      rw [hleft, walk, walk]
      simp [Except.mapError]

theorem locate_eq_ok_iff {follow : Bool} : d.locate p follow = .ok (loc, node) ↔
    checkPath p = .ok () ∧ d.walkHops follow (hops p) = .ok (.found loc node) := by
  rw [locate]
  rcases checkPath p with e | ⟨⟩
  · simp [bind, Except.bind]
  rcases d.walkHops follow (hops p) with e | ⟨dir, n⟩ | ⟨dir, n⟩ <;>
    simp [bind, Except.bind, pure, Except.pure, throw, throwThe, MonadExceptOf.throw]

/-- **A path leads to a directory** if it opens one and fits. -/
theorem locate_eq_dir_iff :
    d.locate p true = .ok (loc, .dir) ↔ d.Opens p loc ∧ Fits p := by
  rw [locate_eq_ok_iff, checkPath_eq_ok_iff, walkHops_eq_dir_iff]
  constructor
  · rintro ⟨⟨hnul, hempty, hfits⟩, henter⟩
    exact ⟨⟨hempty, hnul, henter⟩, hfits⟩
  · rintro ⟨⟨hempty, hnul, henter⟩, hfits⟩
    exact ⟨⟨hnul, hempty, hfits⟩, henter⟩

/-- The path of a directory in it. -/
theorem Opens.child (h : d.Opens p loc) (hd : d.WellNamed)
    (hdir : d.node? (loc ++ [name]) = some .dir) : d.Opens (p.child name) (loc ++ [name]) where
  isEmpty_eq := p.isEmpty_child name
  noNul hnul := (Path.of_hasNul_child h.isEmpty_eq hnul).elim h.noNul (hd.of_node? hdir).2
  enter_eq := by
    rw [Path.parts_child]
    exact enter_dir (hd.of_node? hdir).1 h.enter_eq hdir

/-- A path of names opens the directory to which they lead from the root. -/
theorem opens_of_dirs (hp : p.parts = .root :: names.map .entry) (hnul : ¬p.HasNul)
    (hshort : ∀ n ∈ names, n.size ≤ maxNameBytes)
    (hdirs : ∀ l, l <+: names → d.node? l = some .dir) : d.Opens p names where
  isEmpty_eq := Path.isEmpty_eq_false (by simp [hp])
  noNul := hnul
  enter_eq := enter_of_walkHops (reaches_of_dirs hp hshort hdirs d rfl fun _ _ ↦ rfl)

/-- A link that is the last hop and is not followed is found. -/
theorem walk_link_last {links : Nat} {target : Path} (hname : name.size ≤ maxNameBytes)
    (h : d.node? (loc ++ [name]) = some (.link target)) :
    walk d false links loc [.entry name] = .ok (.found (loc ++ [name]) (.link target)) := by
  rw [walk, if_neg (Nat.not_lt.mpr hname)]
  simp only [h, List.isEmpty_nil, Bool.not_false, Bool.and_true, if_true]

/-- What leads to something when the last hop is followed leads to something when it is not. -/
theorem walk_found_of_follow {links : Nat} {here : Location} {parts : List Part}
    (h : walk d true links here parts = .ok (.found loc node)) :
    ∃ loc' node', walk d false links here parts = .ok (.found loc' node') := by
  fun_induction walk d true links here parts
  case case1 => exact ⟨_, _, by rw [walk]⟩
  case case2 ih => simpa only [walk] using ih h
  case case3 ih => simpa only [walk] using ih h
  case case4 ih => simpa only [walk] using ih h
  case case8 hname _ hdir ih =>
    rw [walk_dir (Nat.not_lt.mp hname) hdir]
    exact ih h
  case case9 hname _ bytes hfile hlast =>
    exact ⟨_, _, by rw [walk_file (Nat.not_lt.mp hname) hfile, if_pos (List.isEmpty_iff.mp hlast)]⟩
  case case11 hlast => simp at hlast
  case case14 rest hname _ target hlink _ links hempty ih =>
    by_cases hlast : rest = []
    · subst hlast
      exact ⟨_, _, walk_link_last (Nat.not_lt.mp hname) hlink⟩
    · rw [Nat.succ_eq_add_one, walk_link (Nat.not_lt.mp hname) hlast hlink, if_neg hempty]
      exact ih h
  all_goals cases h

theorem locate_of_follow (h : d.locate p true = .ok (loc, node)) :
    ∃ found, d.locate p false = .ok found := by
  obtain ⟨hcheck, hwalk⟩ := locate_eq_ok_iff.mp h
  rw [walkHops] at hwalk
  rcases hfound : walk d true maxLinks d.current (hops p) with e | ⟨loc', node'⟩ | ⟨dir, name⟩
  all_goals rw [hfound] at hwalk
  · cases hwalk
  · obtain ⟨loc', node', hfound'⟩ := walk_found_of_follow hfound
    exact ⟨(loc', node'), locate_eq_ok_iff.mpr ⟨hcheck, by rw [walkHops, hfound']; rfl⟩⟩
  · cases hwalk

/-! ### Listings -/

/-- The entries of a directory as they are listed, sorted by name. -/
def listing (d : Disk) (loc : Location) : List DirEntry :=
  DirEntry.sortByName ((d.entriesIn loc).map DirEntry.listed)

section Spelled

variable (h : d.Sorted) (hspelled : d.SpelledBelow loc)
include h hspelled

/-- Entries whose names are texts are listed as they are. -/
theorem listing_eq : d.listing loc = DirEntry.sortByName (d.entriesIn loc) := by
  have hlisted : ∀ e ∈ d.entriesIn loc, e.listed = id e := by
    intro e he
    obtain ⟨node, hnode, -⟩ := (mem_entriesIn h).mp he
    exact DirEntry.listed_eq_self (hspelled.isText h hnode)
  rw [listing, List.map_congr_left hlisted, List.map_id]

theorem mem_listing_iff {entry : DirEntry} : entry ∈ d.listing loc ↔
    ∃ node, d.node? (loc ++ [entry.name]) = some node ∧ node.kind = entry.kind := by
  rw [listing_eq h hspelled, DirEntry.mem_sortByName, mem_entriesIn h]

theorem nodup_listing : ((d.listing loc).map DirEntry.name).Nodup := by
  rw [listing_eq h hspelled, DirEntry.sortByName_eq_insertionSort,
    ((List.perm_insertionSort _ _).map DirEntry.name).nodup_iff]
  exact nodup_entriesIn h loc

end Spelled

theorem runFrom_isType (d : Disk) (type : FileType) (p : Path) : runFrom d (system.isType type p) =
    ((d.locate p true).toOption.any fun found ↦ (statusOf found.2).type == type, d) := by
  have hrun : runFrom d (system.stat p).run = (d.status p true, d) := rfl
  rw [System.isType, runFrom_bind, hrun, status]
  rcases d.locate p true with e | found <;> rfl

theorem runFrom_blaming_asking {α : Type} (d : Disk) (p : Path) (f : Disk → Except OsError α) :
    runFrom d (System.blaming p (asking f)).run = ((f d).mapError fun e ↦ e.at_ p, d) := by
  have hrun : runFrom d (asking f).run = (f d, d) := rfl
  rw [System.blaming, runFrom_run_bind, runFrom_run_lift, hrun]
  rcases f d with e | a <;> rfl

/-- **A disk lists the directory that a path leads to**, unless it is locked, and nothing else. -/
theorem runFrom_list (d : Disk) (p : Path) :
    (∃ loc, d.locate p true = .ok (loc, .dir) ∧ loc ∉ d.locked ∧
      runFrom d ((System.backend system).list p).run = (.ok (d.listing loc), d)) ∨
    (∀ loc, d.locate p true = .ok (loc, .dir) → loc ∈ d.locked) ∧
      ∃ e, runFrom d ((System.backend system).list p).run = (.error e, d) := by
  have hlist : runFrom d (System.blaming p (system.list p)).run =
      ((d.list p).mapError fun e ↦ e.at_ p, d) := runFrom_blaming_asking d p _
  rw [show (System.backend system).list p = system.storeList p from rfl, System.storeList,
    runFrom_run_bind, runFrom_run_lift, runFrom_isType]
  rw [Disk.list] at hlist
  rcases hfound : d.locate p true with e | ⟨loc, - | bytes | target⟩
  all_goals rw [hfound] at hlist
  · refine .inr ⟨by simp, e.at_ p, ?_⟩
    show runFrom d (System.blaming p (system.list p) >>= _).run = _
    rw [runFrom_run_bind, hlist]
    rfl
  · by_cases hlocked : loc ∈ d.locked
    · refine .inr ⟨by simp [hlocked], (OsError.errno .accessDenied).at_ p, ?_⟩
      show runFrom d (System.blaming p (system.list p) >>= _).run = _
      rw [runFrom_run_bind, hlist]
      simp only [bind, Except.bind, if_pos hlocked]
      rfl
    · refine .inl ⟨loc, rfl, hlocked, ?_⟩
      show runFrom d (System.blaming p (system.list p) >>= _).run = _
      rw [runFrom_run_bind, hlist]
      simp only [bind, Except.bind, if_neg hlocked]
      rfl
  · exact .inr ⟨by simp, .notADirectory p, rfl⟩
  · refine .inr ⟨by simp, (OsError.errno .notDirectory).at_ p, ?_⟩
    show runFrom d (System.blaming p (system.list p) >>= _).run = _
    rw [runFrom_run_bind, hlist]
    rfl

/-! ### Where names lead -/

/-- Names lead from the directory at a location to a node, and all that they pass on the way are
directories. -/
inductive LeadsTo (d : Disk) : Location → List EntryName → DiskNode → Prop
  | entry {loc : Location} {name : EntryName} {node : DiskNode} :
    d.node? (loc ++ [name]) = some node → LeadsTo d loc [name] node
  | inside {loc : Location} {name : EntryName} {names : List EntryName} {node : DiskNode} :
    d.node? (loc ++ [name]) = some .dir → LeadsTo d (loc ++ [name]) names node →
      LeadsTo d loc (name :: names) node

theorem not_leadsTo_nil : ¬d.LeadsTo loc [] node := nofun

theorem leadsTo_singleton_iff :
    d.LeadsTo loc [name] node ↔ d.node? (loc ++ [name]) = some node := by
  constructor
  · rintro (h | ⟨-, h⟩)
    · exact h
    · exact absurd h not_leadsTo_nil
  · exact .entry

theorem leadsTo_cons_iff (hne : names ≠ []) : d.LeadsTo loc (name :: names) node ↔
    d.node? (loc ++ [name]) = some .dir ∧ d.LeadsTo (loc ++ [name]) names node := by
  constructor
  · rintro (- | ⟨hdir, h⟩)
    · exact absurd rfl hne
    · exact ⟨hdir, h⟩
  · exact fun h ↦ .inside h.1 h.2

/-- What names lead to is at the location that they spell. -/
theorem LeadsTo.node?_eq (h : d.LeadsTo loc names node) : d.node? (loc ++ names) = some node := by
  induction h with
  | entry hnode => exact hnode
  | inside _ _ ih => rwa [List.append_cons]

/-- **Nothing is reached behind a link.** -/
theorem LeadsTo.eq_nil_of_link {target : Path} {more : List EntryName}
    (h : d.LeadsTo loc names (.link target)) (hmore : d.LeadsTo loc (names ++ more) node) :
    more = [] := by
  generalize hlink : DiskNode.link target = link at h
  induction h with
  | entry hnode =>
    by_contra hne
    have hdir := ((leadsTo_cons_iff hne).mp hmore).1
    rw [hnode, ← hlink] at hdir
    cases hdir
  | @inside loc name names link _ h ih =>
    have hne : names ++ more ≠ [] := by
      rintro hnil
      rw [(List.append_eq_nil_iff.mp hnil).1] at h
      exact not_leadsTo_nil h
    exact ih ((leadsTo_cons_iff hne).mp hmore).2 hlink

/-! ### Contents -/

/-- An entry of a listing, and behind it what is found inside, as it is seen from around it. -/
def withInside (entry : DirEntry) (inside : List (List EntryName × EntryKind)) :
    List (List EntryName × EntryKind) :=
  ([entry.name], entry.kind) :: inside.map fun x ↦ (entry.name :: x.1, x.2)

/-- What is found in the directory at a location, listed at its path `p`, and in the directories in
it: the names that lead there, and the kind that was listed. -/
def contents (d : Disk) (p : Path) (loc : Location) : List (List EntryName × EntryKind) :=
  if d.Listable p loc then
    (d.listing loc).flatMap fun entry ↦ withInside entry <|
      match entry.kind with
      | .file => []
      | .directory => contents d (p.child entry.name) (loc ++ [entry.name])
  else []
termination_by maxPathBytes - p.size
decreasing_by
  exact Nat.sub_lt_sub_left (‹d.Listable p loc› : d.Listable p loc).1 (p.size_lt_child entry.name)

/-- What is found at an entry of that directory, and inside it. -/
def contentsAt (d : Disk) (p : Path) (loc : Location) (entry : DirEntry) :
    List (List EntryName × EntryKind) :=
  withInside entry <|
    match entry.kind with
    | .file => []
    | .directory => d.contents (p.child entry.name) (loc ++ [entry.name])

theorem contents_of_listable (h : d.Listable p loc) :
    d.contents p loc = (d.listing loc).flatMap (d.contentsAt p loc) := by
  rw [contents, if_pos h]
  rfl

theorem contents_of_not_listable (h : ¬d.Listable p loc) : d.contents p loc = [] := by
  rw [contents, if_neg h]

theorem mem_withInside_iff {entry : DirEntry} {inside : List (List EntryName × EntryKind)}
    {x : List EntryName × EntryKind} : x ∈ withInside entry inside ↔
      x = ([entry.name], entry.kind) ∨ ∃ y ∈ inside, x = (entry.name :: y.1, y.2) := by
  simp only [withInside, List.mem_cons, List.mem_map, eq_comm]

theorem map_fst_withInside (entry : DirEntry) (inside : List (List EntryName × EntryKind)) :
    (withInside entry inside).map Prod.fst =
      [entry.name] :: (inside.map Prod.fst).map (entry.name :: ·) := by
  simp [withInside]

theorem nil_notMem_contents (kind : EntryKind) : ([], kind) ∉ d.contents p loc := by
  rw [contents]
  split
  · simp [mem_withInside_iff]
  · exact List.not_mem_nil

/-- What is found is in the listing, or inside a directory in it. -/
theorem cons_mem_contents_iff {kind : EntryKind} : (name :: names, kind) ∈ d.contents p loc ↔
    d.Listable p loc ∧ (names = [] ∧ ⟨name, kind⟩ ∈ d.listing loc ∨
      ⟨name, .directory⟩ ∈ d.listing loc ∧
        (names, kind) ∈ d.contents (p.child name) (loc ++ [name])) := by
  rw [contents]
  split
  · rename_i hlistable
    simp only [hlistable, true_and, List.mem_flatMap, mem_withInside_iff]
    constructor
    · rintro ⟨⟨name', kind'⟩, hentry, hfirst | ⟨⟨names', kind''⟩, hy, hinside⟩⟩
      · obtain ⟨⟨rfl, rfl⟩, rfl⟩ : (name = name' ∧ names = []) ∧ kind = kind' := by
          simpa using hfirst
        exact .inl ⟨rfl, hentry⟩
      · obtain ⟨⟨rfl, rfl⟩, rfl⟩ : (name = name' ∧ names = names') ∧ kind = kind'' := by
          simpa using hinside
        cases kind' with
        | file => cases hy
        | directory => exact .inr ⟨hentry, hy⟩
    · rintro (⟨rfl, hentry⟩ | ⟨hentry, hinside⟩)
      · exact ⟨_, hentry, .inl rfl⟩
      · exact ⟨_, hentry, .inr ⟨_, hinside, rfl⟩⟩
  · rename_i hclosed
    exact iff_of_false List.not_mem_nil fun h ↦ hclosed h.1

/-- Every directory on the way to what the names lead to can be listed. -/
def ListsTo (d : Disk) (p : Path) (loc : Location) (names : List EntryName) : Prop :=
  ∀ around, around <+: names.dropLast → d.Listable (p.under around) (loc ++ around)

theorem listsTo_singleton_iff : d.ListsTo p loc [name] ↔ d.Listable p loc := by
  simp [ListsTo]

theorem listsTo_cons_iff (hne : names ≠ []) : d.ListsTo p loc (name :: names) ↔
    d.Listable p loc ∧ d.ListsTo (p.child name) (loc ++ [name]) names := by
  rw [ListsTo, List.dropLast_cons_of_ne_nil hne]
  constructor
  · intro h
    refine ⟨by simpa using h [] List.nil_prefix, fun around haround ↦ ?_⟩
    simpa [Path.under] using h (name :: around) (List.cons_prefix_cons.mpr ⟨rfl, haround⟩)
  · rintro ⟨hhere, hinside⟩ around haround
    rcases List.prefix_cons_iff.mp haround with rfl | ⟨more, rfl, hmore⟩
    · simpa using hhere
    · simpa [Path.under] using hinside more hmore

/-- **What is found is what names lead to**, if the directories on the way can be listed. -/
theorem mem_contents_iff (hd : d.Sorted) (hspelled : d.SpelledBelow loc) {kind : EntryKind} :
    (names, kind) ∈ d.contents p loc ↔
      (∃ node, d.LeadsTo loc names node ∧ node.kind = kind) ∧ d.ListsTo p loc names := by
  induction names generalizing p loc with
  | nil =>
    refine iff_of_false (nil_notMem_contents kind) ?_
    rintro ⟨⟨node, hleads, -⟩, -⟩
    exact not_leadsTo_nil hleads
  | cons name names ih =>
    rw [cons_mem_contents_iff, mem_listing_iff hd hspelled, mem_listing_iff hd hspelled,
      ih (hspelled.child name)]
    by_cases hne : names = []
    · subst hne
      have hnone : ∀ loc : Location, ¬∃ node, d.LeadsTo loc [] node ∧ node.kind = kind :=
        fun loc h ↦ h.elim fun node hnode ↦ not_leadsTo_nil hnode.1
      simp only [hnone, false_and, or_false, true_and, leadsTo_singleton_iff,
        listsTo_singleton_iff, and_comm]
    · simp only [hne, false_and, false_or, leadsTo_cons_iff hne, listsTo_cons_iff hne,
        DiskNode.kind_eq_directory_iff, exists_eq_right]
      constructor
      · rintro ⟨hhere, hdir, ⟨node, hleads, hkind⟩, hinside⟩
        exact ⟨⟨node, ⟨hdir, hleads⟩, hkind⟩, hhere, hinside⟩
      · rintro ⟨⟨node, ⟨hdir, hleads⟩, hkind⟩, hhere, hinside⟩
        exact ⟨hhere, hdir, ⟨node, hleads, hkind⟩, hinside⟩

/-- **Nothing is found twice.** -/
theorem nodup_contents (hd : d.Sorted) (p : Path) (loc : Location) (hspelled : d.SpelledBelow loc) :
    ((d.contents p loc).map Prod.fst).Nodup := by
  fun_induction d.contents p loc with
  | case1 p loc hlistable ih =>
    rw [List.map_flatMap, List.nodup_flatMap]
    refine ⟨fun entry _ ↦ ?_, ?_⟩
    · rw [map_fst_withInside, List.nodup_cons]
      cases entry.kind with
      | file => simp
      | directory =>
        refine ⟨fun hmem ↦ ?_, (ih entry (hspelled.child entry.name)).map List.cons_injective⟩
        obtain ⟨names, hnames, hsame⟩ := List.mem_map.mp hmem
        obtain rfl : names = [] := List.cons_injective hsame
        obtain ⟨⟨-, kind⟩, hfound, rfl⟩ := List.mem_map.mp hnames
        exact nil_notMem_contents kind hfound
    -- what is found at different entries differs in the first name
    · have hstarts : ∀ {entry : DirEntry} {inside : List (List EntryName × EntryKind)}
          {names : List EntryName}, names ∈ (withInside entry inside).map Prod.fst →
            names.head? = some entry.name := by
        simp only [map_fst_withInside, List.mem_cons, List.mem_map]
        rintro entry inside names (rfl | ⟨more, -, rfl⟩) <;> rfl
      have hnodup := List.pairwise_map.mp (nodup_listing hd hspelled)
      refine hnodup.imp fun {a b} hne names hin hin' ↦ ?_
      exact hne (Option.some.inj ((hstarts hin).symm.trans (hstarts hin')))
  | case2 => exact List.nodup_nil

end Disk

end Scaffold
