import Scaffold.Proofs.Transfer.Complete

/-!
# Copying a directory as a whole

A directory that is not planned entry by entry is copied by a walk through the store as it is then,
and a directory on the way is listed when the walk comes to it. If source and target overlap, what
the walk has already written may turn up in a listing and is then copied too.

The walk meets entries in the order of their paths, so when it comes to a directory it has carried
over exactly what it meets in front of that one. `Walked` says so, and `walked_copyFolderWithin`
follows it through the recursion. In the end all that is met has been carried over in order
(`complete_copyFolder`). That takes names that are texts, since no other name is listed as it is.
-/

namespace Scaffold.Transfer

open MemoryStore

/-- The walk has carried over the entries that it meets where `reached` holds. -/
structure Walked (store : MemoryStore) (source target : Path) (done : List Entry)
    (s : MemoryStore) (reached : List EntryName → Prop) : Prop where
  carried : CarriedOver source target store done s
  order : InOrder source done
  mem : ∀ x, x ∈ done ↔ Meets store source target True x ∧ reached x.1

/-- Only the entries that are met matter. -/
theorem Walked.congr {store s : MemoryStore} {source target : Path} {done : List Entry}
    {reached reached' : List EntryName → Prop}
    (h : Walked store source target done s reached)
    (hreached : ∀ x, Meets store source target True x → (reached x.1 ↔ reached' x.1)) :
    Walked store source target done s reached' where
  carried := h.carried
  order := h.order
  mem x := by
    rw [h.mem]
    exact and_congr_right (hreached x)

/-! ### Places -/

section Places

variable {source target : Path} {names earlier : List EntryName}

/-- A place below the target that is also below the source is further from the target, unless the
target is at or below the source. -/
theorem length_lt_of_place (houtside : target.startsWith source = false)
    (h : target.under earlier ≈ source.under names) : names.length < earlier.length := by
  rw [Bool.eq_false_iff, Ne, Path.startsWith_iff] at houtside
  have hparts := Path.equiv_iff.mp h
  rw [Path.parts_under, Path.parts_under, List.append_eq_append_iff] at hparts
  rcases hparts with ⟨c, hsource, hearlier⟩ | ⟨c, htarget, -⟩
  · have hne : c ≠ [] := by
      rintro rfl
      exact houtside ⟨[], by rw [hsource, List.append_nil, List.append_nil]⟩
    have hlength := congrArg List.length hearlier
    have := List.length_pos_iff.mpr hne
    simp only [List.length_append, List.length_map] at hlength
    omega
  · exact absurd ⟨c, htarget.symm⟩ houtside

/-- What is above a place below the target and below the source is itself such a place. -/
theorem place_of_prefix (houtside : target.startsWith source = false)
    (h : (source.under names).parts <+: (target.under earlier).parts) :
    ∃ above, above <+: earlier ∧ target.under above ≈ source.under names := by
  rw [Bool.eq_false_iff, Ne, Path.startsWith_iff] at houtside
  obtain ⟨rest, hrest⟩ := h
  rw [Path.parts_under target, List.append_eq_append_iff] at hrest
  rcases hrest with ⟨c, htarget, -⟩ | ⟨c, hnames, hearlier⟩
  · refine absurd ?_ houtside
    rw [htarget, Path.parts_under, List.append_assoc]
    exact List.prefix_append _ _
  · refine ⟨earlier.take c.length, List.take_prefix _ _, ?_⟩
    rw [Path.equiv_iff, Path.parts_under, List.map_take, hearlier, List.take_left', hnames]
    rfl

end Places

/-! ### What a listing shows -/

section Listings

variable {store s : MemoryStore} {source target : Path} {done : List Entry}
  {dir names more : List EntryName} {name : EntryName} {kind : EntryKind}

/-- What is above an entry that is met is met as a directory. -/
theorem Meets.above (hwf : store.WellFormed) (hsource : store.node? source = some .dir)
    {whole : Prop} {x : Entry} (h : Meets store source target whole x) (hx : x.1 = names ++ more)
    (hmore : more ≠ []) : Meets store source target whole (names, .directory) := by
  induction h generalizing more with
  | stored h =>
    rename_i names' n
    have hdir : store.node? (source.under names) = some .dir := by
      rcases names.eq_nil_or_concat' with rfl | ⟨first, last, rfl⟩
      · exact hsource
      · obtain ⟨next, rest, rfl⟩ := List.exists_cons_of_ne_nil hmore
        rw [show names' = first ++ [last] ++ next :: rest from hx, Path.under_append,
          Path.under_snoc] at h
        rw [Path.under_snoc]
        exact hwf.dir_of_under h
    exact .stored hdir
  | placed hwhole hmet hdir hbefore hplace ihmet ihdir =>
    rename_i earlier dir name kind
    obtain ⟨rest, last, rfl⟩ := more.eq_nil_or_concat'.resolve_left hmore
    rw [← List.append_assoc] at hx
    have hdirEq : dir = names ++ rest := (List.append_inj' hx rfl).1
    rcases rest with - | ⟨next, rest⟩
    · rwa [hdirEq, List.append_nil] at hdir
    · exact ihdir hdirEq (by simp)

/-- Of what is met inside a directory, the entry of the directory is met. -/
theorem Meets.child (hwf : store.WellFormed) (hsource : store.node? source = some .dir)
    {whole : Prop} {x : Entry} (h : Meets store source target whole x)
    (hx : x.1 = names ++ name :: more) :
    ∃ kind, Meets store source target whole (names ++ [name], kind) := by
  rcases more with - | ⟨next, more⟩
  · exact ⟨x.2, hx ▸ h⟩
  · have hbelow : x.1 = names ++ [name] ++ next :: more := by simp [hx]
    exact ⟨_, h.above hwf hsource hbelow (by simp)⟩

/-- Only texts are met where all names are texts. -/
theorem Meets.isText (hspelled : store.SpelledBelow source)
    (houtside : target.startsWith source = false) {whole : Prop} {x : Entry}
    (h : Meets store source target whole x) : ∀ name ∈ x.1, name.isText = true := by
  induction h with
  | stored h => exact fun name hname ↦ hspelled.isText h hname
  | placed hwhole hmet hdir hbefore hplace ihmet ihdir =>
    rename_i earlier dir name kind
    intro name' hname'
    rcases List.mem_append.mp hname' with hname' | hname'
    · exact ihdir name' hname'
    obtain rfl := List.mem_singleton.mp hname'
    -- the last name on the way is that of what was carried there
    have hshort := length_lt_of_place houtside hplace
    obtain ⟨first, last, rfl⟩ := (List.eq_nil_or_concat' earlier).resolve_left fun hnil ↦ by
      simp [hnil] at hshort
    rw [Path.equiv_iff, Path.parts_under, Path.parts_under, List.map_append, List.map_append,
      ← List.append_assoc, ← List.append_assoc] at hplace
    obtain rfl : last = name' := by simpa using (List.append_inj' hplace rfl).2
    exact ihmet last (by simp)

/-- The walk has come to a directory, which it has created. -/
def Comes (source : Path) (dir r : List EntryName) : Prop :=
  (source.under r).order (source.under dir) = .lt ∨ r = dir

/-- What was carried to a place in the directory is met there. -/
theorem Walked.meets_of_place (houtside : target.startsWith source = false)
    (hdir : Meets store source target True (dir, .directory))
    (h : Walked store source target done s (Comes source dir)) {earlier : List EntryName}
    (hearlier : (earlier, kind) ∈ done)
    (hplace : target.under earlier ≈ source.under (dir ++ [name])) :
    Meets store source target True (dir ++ [name], kind) := by
  obtain ⟨hmet, hbefore | rfl⟩ := (h.mem _).mp hearlier
  · exact .placed trivial hmet hdir hbefore hplace
  -- the directory itself was carried further away
  · have hshort := length_lt_of_place houtside hplace
    simp only [List.length_append, List.length_singleton] at hshort
    omega

/-- What is in the directory is met there. -/
theorem Walked.meets_of_node (hwf : store.WellFormed) (hsource : store.node? source = some .dir)
    (houtside : target.startsWith source = false)
    (hdir : Meets store source target True (dir, .directory))
    (h : Walked store source target done s (Comes source dir)) {n : StoredNode}
    (hn : s.node? (source.under (dir ++ [name])) = some n) :
    Meets store source target True (dir ++ [name], n.kind) := by
  rcases h.carried.origin hn with ⟨n₀, hn₀, hkind⟩ | ⟨x, hx, hkind, hplace⟩ |
    ⟨hkind, x, hx, habove⟩
  · rw [← hkind]
    exact .stored hn₀
  · exact h.meets_of_place houtside hdir (show (x.1, n.kind) ∈ done from hkind ▸ hx) hplace
  -- a directory above what was carried has itself been carried
  · obtain ⟨above, ⟨rest, hrest⟩, hplace⟩ := place_of_prefix houtside habove
    refine h.meets_of_place houtside hdir ?_ hplace
    rw [hkind]
    rcases rest with - | ⟨next, rest⟩
    · rw [List.append_nil] at hrest
      have hnode := h.carried.kindOf?_target hx (by
        rw [← hrest, Path.equiv_iff.mp hplace]
        simp)
      rw [← hrest, kindOf?_congr _ hplace,
        kindOf?_of_node? (Path.isRoot_under_snoc source dir name) hn, hkind] at hnode
      rw [Option.some.inj hnode, hrest]
      exact hx
    · obtain ⟨hmet, hcomes⟩ := (h.mem x).mp hx
      refine (h.mem _).mpr ⟨hmet.above hwf hsource hrest.symm (by simp), .inl ?_⟩
      have hlt : (source.under above).order (source.under x.1) = .lt := by
        rw [← hrest, Path.under_append]
        exact Path.order_under_self _ next rest
      rcases hcomes with hbefore | heq
      · exact Path.order_lt_trans hlt hbefore
      · rwa [← heq]

/-- What is met in the directory is there. -/
theorem Walked.kindOf?_of_meets (h : Walked store source target done s (Comes source dir))
    (hmet : Meets store source target True (dir ++ [name], kind)) :
    s.kindOf? (source.under (dir ++ [name])) = some kind := by
  generalize hx : (dir ++ [name], kind) = x at hmet
  cases hmet with
  | stored hn =>
    obtain ⟨hnames, rfl⟩ := Prod.mk.inj hx
    rw [← hnames] at hn
    exact h.carried.kindOf?_keeps (kindOf?_of_node? (Path.isRoot_under_snoc source dir name) hn)
  | @placed earlier dir' name' kind' _ hmet _ hbefore hplace =>
    obtain ⟨hnames, rfl⟩ := Prod.mk.inj hx
    obtain ⟨rfl, hname⟩ := List.append_inj' hnames rfl
    have hmem := (h.mem (earlier, kind)).mpr ⟨hmet, .inl hbefore⟩
    have hnode := h.carried.kindOf?_target hmem (by
      rw [Path.equiv_iff.mp hplace]
      simp)
    rw [kindOf?_congr _ hplace] at hnode
    rwa [hnames]

/-- **A listing shows what is met**: what is in a directory when the walk comes to it are the
entries that are met there. -/
theorem Walked.node_iff_meets (hwf : store.WellFormed) (hsource : store.node? source = some .dir)
    (houtside : target.startsWith source = false)
    (hdir : Meets store source target True (dir, .directory))
    (h : Walked store source target done s (Comes source dir)) :
    (∃ n, s.node? ((source.under dir).child name) = some n ∧ n.kind = kind) ↔
      Meets store source target True (dir ++ [name], kind) := by
  rw [← Path.under_snoc]
  constructor
  · rintro ⟨n, hn, rfl⟩
    exact h.meets_of_node hwf hsource houtside hdir hn
  · intro hmet
    have hkind := h.kindOf?_of_meets hmet
    rw [kindOf?_of_not_root (Path.isRoot_under_snoc source dir name)] at hkind
    exact Option.map_eq_some_iff.mp hkind

/-- The walk has come by some entries of the directory, with all that is in them. -/
def Passes (source : Path) (dir : List EntryName) (entries : List DirEntry) (r : List EntryName) :
    Prop :=
  Comes source dir r ∨ ∃ e ∈ entries, dir ++ [e.name] <+: r

/-- **What the walk has come by is what comes in front of the next entry.** -/
theorem passes_iff_before (hwf : store.WellFormed) (hsource : store.node? source = some .dir)
    {listing earlier later : List DirEntry} {e : DirEntry}
    (hmet : ∀ name kind, Meets store source target True (dir ++ [name], kind) →
      ⟨name, kind⟩ ∈ listing)
    (hsorted : listing.Pairwise fun a b ↦
      ((source.under dir).child a.name).order ((source.under dir).child b.name) = .lt)
    (hsplit : listing = earlier ++ e :: later) {x : Entry}
    (hx : Meets store source target True x) :
    Passes source dir earlier x.1 ↔
      (source.under x.1).order (source.under (dir ++ [e.name])) = .lt := by
  have hin : (source.under dir).order (source.under (dir ++ [e.name])) = .lt := by
    rw [Path.under_append]
    exact Path.order_under_self _ e.name []
  rw [hsplit, List.pairwise_append, List.pairwise_cons] at hsorted
  obtain ⟨-, ⟨hlater, -⟩, hearlier⟩ := hsorted
  constructor
  · rintro ((hbefore | heq) | ⟨e', he', more, hmore⟩)
    · exact Path.order_lt_trans hbefore hin
    · rwa [heq]
    · rw [← hmore, List.append_assoc, Path.under_append, Path.under_append source dir]
      exact Path.order_under_of_child (hearlier e' he' e List.mem_cons_self) more []
  · intro hbefore
    rcases hcompare : (source.under x.1).order (source.under dir) with - | - | -
    · exact .inl (.inl hcompare)
    · exact .inl (.inr ((source.under_equiv_iff _ _).mp (Path.order_eq_iff.mp hcompare)))
    -- between the directory and one of its entries there is only what is in it
    · have hbelow : dir <+: x.1 := by
        rw [← source.under_startsWith_iff, Path.startsWith_iff]
        have hstart : (source.under dir).parts <+: (source.under (dir ++ [e.name])).parts := by
          rw [← Path.startsWith_iff, source.under_startsWith_iff]
          exact List.prefix_append _ _
        exact Path.isPrefix_of_between hstart
          (Ordering.isLE_of_eq_lt (Path.order_gt_iff.mp hcompare)) (Ordering.isLE_of_eq_lt hbefore)
      obtain ⟨more, hmore⟩ := hbelow
      rcases more with - | ⟨name, more⟩
      · rw [← hmore, List.append_nil, Path.order_self] at hcompare
        cases hcompare
      have hname : x.1 = dir ++ [name] ++ more := by simp [← hmore]
      obtain ⟨kind, hkind⟩ := hx.child hwf hsource hmore.symm
      have hmem := hmet name kind hkind
      rw [hsplit] at hmem
      rcases List.mem_append.mp hmem with hmem | hmem
      · exact .inr ⟨_, hmem, more, hname.symm⟩
      · refine absurd hbefore ?_
        rcases List.mem_cons.mp hmem with rfl | hmem
        · refine Path.not_order_lt_of_startsWith ?_
          rw [source.under_startsWith_iff, hname]
          exact List.prefix_append _ _
        · have hgt := Path.order_under_of_child (hlater _ hmem) [] more
          rw [hname, List.append_assoc, Path.under_append, Path.under_append source dir]
          intro hlt
          have hflip := Path.order_gt_iff.mpr hgt
          cases hlt.symm.trans hflip

/-- When the walk has come by all entries of a directory, it has come by all that is in it. -/
theorem passes_all_iff (hwf : store.WellFormed) (hsource : store.node? source = some .dir)
    {listing : List DirEntry}
    (hmet : ∀ name kind, Meets store source target True (dir ++ [name], kind) →
      ⟨name, kind⟩ ∈ listing) {x : Entry} (hx : Meets store source target True x) :
    Passes source dir listing x.1 ↔
      (source.under x.1).order (source.under dir) = .lt ∨ dir <+: x.1 := by
  constructor
  · rintro ((hbefore | heq) | ⟨e, -, hbelow⟩)
    · exact .inl hbefore
    · exact .inr (heq ▸ List.prefix_rfl)
    · exact .inr ((List.prefix_append _ _).trans hbelow)
  · rintro (hbefore | ⟨more, hmore⟩)
    · exact .inl (.inl hbefore)
    rcases more with - | ⟨name, more⟩
    · exact .inl (.inr (by rw [← hmore, List.append_nil]))
    · obtain ⟨kind, hkind⟩ := hx.child hwf hsource hmore.symm
      exact .inr ⟨_, hmet name kind hkind, more, by simp [← hmore]⟩

theorem passes_snoc (earlier : List DirEntry) (e : DirEntry) (r : List EntryName) :
    Passes source dir (earlier ++ [e]) r ↔ Passes source dir earlier r ∨ dir ++ [e.name] <+: r := by
  simp only [Passes, List.mem_append, List.mem_singleton, or_and_right, exists_or, exists_eq_left,
    or_assoc]

end Listings

/-! ### The walk -/

section Walks

variable {store : MemoryStore} {source target : Path} {done : List Entry}

/-- One more entry is carried over. -/
theorem Walked.snoc {s s' : MemoryStore} {reached reached' : List EntryName → Prop}
    (h : Walked store source target done s reached) {x : Entry}
    (hcarry : Carry source target x s s') (hx : Meets store source target True x)
    (hunique : ∀ kind, Meets store source target True (x.1, kind) → kind = x.2)
    (hbefore : ∀ y, Meets store source target True y → reached y.1 →
      (source.under y.1).order (source.under x.1) = .lt)
    (hreached : ∀ y, Meets store source target True y →
      (reached' y.1 ↔ reached y.1 ∨ y.1 = x.1)) :
    Walked store source target (done ++ [x]) s' reached' where
  carried := h.carried.next hcarry
  order := by
    refine List.pairwise_append.mpr ⟨h.order, List.pairwise_singleton _ _, fun y hy z hz ↦ ?_⟩
    obtain rfl := List.mem_singleton.mp hz
    obtain ⟨hmet, hreach⟩ := (h.mem y).mp hy
    exact hbefore y hmet hreach
  mem y := by
    rw [List.mem_append, h.mem, List.mem_singleton]
    constructor
    · rintro (⟨hmet, hreach⟩ | rfl)
      · exact ⟨hmet, (hreached y hmet).mpr (.inl hreach)⟩
      · exact ⟨hx, (hreached y hx).mpr (.inr rfl)⟩
    · rintro ⟨hmet, hreach⟩
      rcases (hreached y hmet).mp hreach with hreach | heq
      · exact .inl ⟨hmet, hreach⟩
      · refine .inr (Prod.ext heq (hunique y.2 ?_))
        rwa [← heq]

variable {σ : Type} {b : Backend (StateM σ)} {view : σ → MemoryStore}

/-- **The walk through a directory carries over what it meets there.** -/
theorem walked_copyFolderWithin (hb : Serves b view) (hwf : store.WellFormed)
    (hsource : store.node? source = some .dir) (hspelled : store.SpelledBelow source)
    (houtside : target.startsWith source = false)
    (depth : Nat) {dir : List EntryName} {s s' : σ}
    (hdir : Meets store source target True (dir, .directory))
    (hunique : ∀ kind, Meets store source target True (dir, kind) → kind = .directory)
    (h : Walked store source target done (view s) fun r ↦
      (source.under r).order (source.under dir) = .lt)
    (hok : runFrom s (b.toCalls.copyFolderWithin depth (source.under dir) (target.under dir)).run =
      (.ok (), s')) :
    ∃ done', Walked store source target done' (view s') fun r ↦
      (source.under r).order (source.under dir) = .lt ∨ dir <+: r := by
  induction depth generalizing dir done s s' with
  | zero => cases hok
  | succ depth ih =>
    obtain ⟨⟨⟩, s₁, hensure, hok⟩ := run_bind_eq_ok_iff.mp hok
    obtain ⟨listing, s₂, hlist, hok⟩ := run_bind_eq_ok_iff.mp hok
    obtain ⟨⟨⟩, s₃, hloop, hok⟩ := run_bind_eq_ok_iff.mp hok
    obtain rfl : s₃ = s' := by simpa using hok
    obtain ⟨hview, hlist⟩ := (hb.list _).ok hlist
    -- the directory is created first, and listed behind that
    have hcomes : Walked store source target (done ++ [(dir, .directory)]) (view s₁)
        (Comes source dir) :=
      h.snoc (carry_of_ensureDir hb rfl hensure) hdir hunique (fun _ _ hbefore ↦ hbefore)
        fun _ _ ↦ Iff.rfl
    have hspelledIn : (view s₁).SpelledIn (source.under dir) := by
      intro e he
      have hmet := (hcomes.node_iff_meets hwf hsource houtside hdir).mp (mem_contents_iff.mp he)
      exact hmet.isText hspelled houtside e.name (by simp)
    have hentry : ∀ {name kind}, ⟨name, kind⟩ ∈ listing ↔
        Meets store source target True (dir ++ [name], kind) := by
      intro name kind
      rw [hspelledIn.mem_listing_iff hlist]
      exact hcomes.node_iff_meets hwf hsource houtside hdir
    have hsorted := hspelledIn.listing_sorted hlist
    have hkind : ∀ {name kind kind'}, ⟨name, kind⟩ ∈ listing →
        Meets store source target True (dir ++ [name], kind') → kind' = kind := by
      intro name kind kind' hmem hmet
      obtain ⟨n, hn, rfl⟩ := (hspelledIn.mem_listing_iff hlist).mp hmem
      obtain ⟨n', hn', rfl⟩ := (hspelledIn.mem_listing_iff hlist).mp (hentry.mpr hmet)
      rw [Option.some.inj (hn.symm.trans hn')]
    -- the loop has carried over what is met in front of the next entry
    have hdone : ∃ done', Walked store source target done' (view s₃)
        (Passes source dir listing) := by
      refine run_forIn_induction (fun earlier s ↦ ∃ done', Walked store source target done' (view s)
        (Passes source dir earlier)) listing ?_ ⟨done ++ [(dir, .directory)], ?_⟩ hloop
      · rintro earlier ⟨name, kind⟩ later s s' step hsplit ⟨done', hwalked⟩ hround
        have hmem : ⟨name, kind⟩ ∈ listing := by simp [hsplit]
        have hbefore : ∀ x, Meets store source target True x →
            (Passes source dir earlier x.1 ↔
              (source.under x.1).order (source.under (dir ++ [name])) = .lt) := fun x hx ↦
          passes_iff_before hwf hsource (fun _ _ ↦ hentry.mpr) hsorted hsplit hx
        split at hround
        · rename_i hdirectory
          obtain rfl : kind = .directory := hdirectory
          obtain ⟨⟨⟩, s₄, hcopy, hround⟩ := run_bind_eq_ok_iff.mp hround
          obtain ⟨rfl, rfl⟩ : ForInStep.yield PUnit.unit = step ∧ s₄ = s' := by simpa using hround
          rw [← Path.under_snoc, ← Path.under_snoc] at hcopy
          obtain ⟨done'', hwalked'⟩ := ih (hentry.mp hmem) (fun _ ↦ hkind hmem)
            (hwalked.congr hbefore) hcopy
          refine ⟨rfl, done'', hwalked'.congr fun x hx ↦ ?_⟩
          rw [passes_snoc, hbefore x hx]
        · rename_i hfile
          obtain rfl : kind = .file := hfile
          obtain ⟨⟨⟩, s₄, hcopy, hround⟩ := run_bind_eq_ok_iff.mp hround
          obtain ⟨rfl, rfl⟩ : ForInStep.yield PUnit.unit = step ∧ s₄ = s' := by simpa using hround
          have hcarry : Carry source target (dir ++ [name], .file) (view s) (view s₄) :=
            carry_of_copyFile hb (Path.under_snoc source dir name).symm
              (by rw [Path.under_snoc]) (.refl _ _) hcopy
          refine ⟨rfl, _, hwalked.snoc hcarry (hentry.mp hmem) (fun _ ↦ hkind hmem)
            (fun x hx ↦ (hbefore x hx).mp) fun x hx ↦ ?_⟩
          rw [passes_snoc]
          -- nothing is met below a file
          refine or_congr_right ⟨fun hprefix ↦ ?_, fun heq ↦ heq ▸ List.prefix_rfl⟩
          obtain ⟨more, hmore⟩ := hprefix
          rcases more with - | ⟨next, more⟩
          · rw [← hmore, List.append_nil]
          · have hnone := hkind hmem (hx.above hwf hsource hmore.symm (by simp))
            cases hnone
      · rw [hview]
        refine hcomes.congr fun x _ ↦ ?_
        simp [Passes]
    obtain ⟨done', hwalked⟩ := hdone
    exact ⟨done', hwalked.congr fun x hx ↦ passes_all_iff hwf hsource (fun _ _ ↦ hentry.mpr) hx⟩

/-- **A directory that is copied as a whole** has all carried over that the walk meets. -/
theorem complete_copyFolder (hb : Serves b view) {s s' : σ} (hwf : (view s).WellFormed)
    (hsource : (view s).node? source = some .dir) (hspelled : (view s).SpelledBelow source)
    (houtside : target.startsWith source = false)
    (hok : runFrom s (b.copyFolder source target).run = (.ok (), s')) :
    Complete (view s) source target True (view s') := by
  obtain ⟨depth, hdepth⟩ := b.exists_copyFolderWithin source target s
  rw [hb.byCalls.copyFolder_eq, hdepth] at hok
  have hunique : ∀ kind, Meets (view s) source target True ([], kind) → kind = .directory := by
    intro kind hmet
    generalize hx : (([], kind) : Entry) = x at hmet
    cases hmet with
    | stored hn =>
      obtain ⟨rfl, rfl⟩ := Prod.mk.inj hx
      rw [← Option.some.inj (hsource.symm.trans hn)]
      rfl
    | placed => simp at hx
  have hfront : ∀ r, (source.under r).order (source.under []) ≠ .lt := fun r ↦
    Path.not_order_lt_of_startsWith ((source.under_startsWith_iff _ _).mpr List.nil_prefix)
  have hstart : Walked (view s) source target [] (view s) fun r ↦
      (source.under r).order (source.under []) = .lt := by
    refine ⟨.start, .nil, fun x ↦ ?_⟩
    exact ⟨nofun, fun hx ↦ absurd hx.2 (hfront x.1)⟩
  obtain ⟨done, hwalked⟩ := walked_copyFolderWithin hb hwf hsource hspelled houtside depth
    (.root hsource) hunique hstart hok
  refine ⟨done, hwalked.carried, hwalked.order, fun x ↦ ?_⟩
  rw [hwalked.mem]
  simp

end Walks

end Scaffold.Transfer
