import Scaffold.Proofs.Store.Told
import Scaffold.Proofs.Transfer.Carry
import Scaffold.Proofs.Transfer.Termination

/-!
# Entries carried over from a list

In memory it is known what carrying over does, and when it fails (`carryEntry`), so a directory can
be carried over by a fold over its entries. A walk knows them from what it is told, and a name that
it is told need not lead back to what is stored (`LeadsBack`); then carrying over fails
(`carryIf`, `carryAll`).

When neither the source nor the target lies in the other, the walk through a directory that copies
it as a whole does the same (`run_copyFolder_eq_ok_iff_told`). It meets nothing but what it has been
told of, because carrying over to a place beside the source leaves the source alone (`Still`).

Where all names are texts, what is told are the entries that are stored in the directory, in the
order of their paths (`Lists`), since what is at or below a name stands in one block of that list
(`Lists.below_directory`). All of them lead back, so the directory is copied by carrying over each
of them (`run_copyFolder_eq_ok_iff`).
-/

namespace Scaffold.Transfer

open MemoryStore

variable {source target : Path} {store s s' : MemoryStore} {x : Entry}
  {all done rest : List Entry}

/-! ### Carrying entries over -/

/-- Carries one entry over: creates a directory, or copies a file. -/
def carryEntry (source target : Path) (s : MemoryStore) : Entry → Update
  | (names, .directory) => s.mkdir (target.under names) true
  | (names, .file) => s.copyFile (source.under names) (target.under names)

theorem carry_of_carryEntry (h : carryEntry source target s x = .ok s') :
    Carry source target x s s' := by
  obtain ⟨names, kind⟩ := x
  cases kind with
  | directory =>
    exact carry_of_ensureDir serves_backend rfl (run_ensureDir_eq_ok_iff.mpr h)
  | file =>
    exact carry_of_copyFile serves_backend rfl rfl (.refl _ _) (run_changing_eq_ok_iff.mpr h)

/-- What is carried over stays in its place. -/
theorem Carry.confined (h : Carry source target x s s') :
    ConfinedBelow (target.under x.1) s s' := by
  cases h with
  | directory hgrows => exact hgrows.confined
  | file hgrows _ _ hview =>
    refine IsTrans.trans _ _ _ hgrows.confined fun q hq ↦ .inl ?_
    rw [hview, if_neg fun hsame ↦ hq ?_]
    exact Path.startsWith_of_equiv (Eq.symm hsame)

/-- The source has not changed. -/
def Still (store : MemoryStore) (source : Path) (s : MemoryStore) : Prop :=
  ∀ names, s.node? (source.under names) = store.node? (source.under names)

/-- Carrying over to a place beside the source leaves the source alone. -/
theorem Still.carried (h : Still store source s) (hcarry : Carry source target x s s')
    (houtside : target.startsWith source = false) (hbeside : source.startsWith target = false) :
    Still store source s' := by
  intro more
  rw [hcarry.confined.node?_beside rfl houtside hbeside more]
  exact h more

theorem CarriedOver.still (h : CarriedOver source target store done s)
    (houtside : target.startsWith source = false) (hbeside : source.startsWith target = false) :
    Still store source s := by
  induction h with
  | start => exact fun _ ↦ rfl
  | next _ hcarry ih => exact ih.carried hcarry houtside hbeside

theorem Still.carry (h : Still store source s) (hcarry : carryEntry source target s x = .ok s')
    (houtside : target.startsWith source = false) (hbeside : source.startsWith target = false) :
    Still store source s' :=
  h.carried (carry_of_carryEntry hcarry) houtside hbeside

theorem Still.carryAll (h : Still store source s)
    (hall : all.foldlM (carryEntry source target) s = .ok s')
    (houtside : target.startsWith source = false) (hbeside : source.startsWith target = false) :
    Still store source s' := by
  induction all generalizing s with
  | nil =>
    obtain rfl := Except.ok.inj hall
    exact h
  | cons x all ih =>
    rw [List.foldlM_cons, bind_eq_ok_iff] at hall
    obtain ⟨s₁, hx, hrest⟩ := hall
    exact ih (h.carry hx houtside hbeside) hrest

theorem Still.kindOf?_eq (h : Still store source s) (names : List EntryName) :
    s.kindOf? (source.under names) = store.kindOf? (source.under names) := by
  unfold kindOf?
  rw [h names]

/-- Carrying over one entry more. -/
theorem carryAll_snoc_iff {step : MemoryStore → Entry → Update} :
    (done ++ [x]).foldlM step store = .ok s' ↔
      ∃ s, done.foldlM step store = .ok s ∧ step s x = .ok s' := by
  rw [List.foldlM_append, bind_eq_ok_iff]
  simp

theorem carriedOver_of_carryAll (h : all.foldlM (carryEntry source target) store = .ok s) :
    CarriedOver source target store all s := by
  induction all using List.reverseRecOn generalizing s with
  | nil =>
    obtain rfl := Except.ok.inj h
    exact .start
  | append_singleton all x ih =>
    obtain ⟨s₁, hall, hx⟩ := carryAll_snoc_iff.mp h
    exact (ih hall).next (carry_of_carryEntry hx)

/-! ### The entries of a directory -/

/-- The entries of a store below a directory, with it, in the order of the paths. -/
structure Lists (store : MemoryStore) (source : Path) (all : List Entry) : Prop where
  order : InOrder source all
  mem : ∀ x, x ∈ all ↔ ∃ n, store.node? (source.under x.1) = some n ∧ n.kind = x.2

/-- What is at or below a place in the directory. -/
def below (all : List Entry) (names : List EntryName) : List Entry :=
  all.filter fun x ↦ decide (names <+: x.1)

theorem mem_below {names : List EntryName} : x ∈ below all names ↔ x ∈ all ∧ names <+: x.1 := by
  simp [below]

theorem eq_of_inOrder {l l' : List Entry} (h : InOrder source l) (h' : InOrder source l')
    (hmem : ∀ x, x ∈ l ↔ x ∈ l') : l = l' :=
  Path.eq_of_ordered (fun x : Entry ↦ (source.under x.1).parts) h h' hmem

variable {dir : List EntryName} {listing : List DirEntry}

theorem Lists.inOrder_below (hall : Lists store source all) (names : List EntryName) :
    InOrder source (below all names) :=
  hall.order.filter _

/-- There is nothing below a file. -/
theorem Lists.below_file (hall : Lists store source all) (hwf : store.WellFormed)
    {bytes : ByteArray} {name : EntryName}
    (hfile : store.node? (source.under (dir ++ [name])) = some (.file bytes)) :
    below all (dir ++ [name]) = [(dir ++ [name], .file)] := by
  refine eq_of_inOrder (hall.inOrder_below _) (List.pairwise_singleton _ _) fun x ↦ ?_
  rw [mem_below, hall.mem, List.mem_singleton]
  constructor
  · rintro ⟨⟨n, hn, hkind⟩, more, hmore⟩
    obtain ⟨names, kind⟩ := x
    obtain rfl : dir ++ [name] ++ more = names := hmore
    rcases more with - | ⟨next, more⟩
    · rw [List.append_nil] at hn ⊢
      obtain rfl := Option.some.inj (hfile.symm.trans hn)
      exact Prod.ext rfl hkind.symm
    · rw [Path.under_append, Path.under_snoc] at hn
      rw [Path.under_snoc, hwf.dir_of_under hn] at hfile
      cases hfile
  · rintro rfl
    exact ⟨⟨_, hfile, rfl⟩, List.prefix_rfl⟩

/-- **What is in a directory** is the directory, and behind it entry by entry what is there, if the
names are texts. -/
theorem Lists.below_directory (hall : Lists store source all) (hwf : store.WellFormed)
    (hdir : store.node? (source.under dir) = some .dir)
    (hspelled : store.SpelledIn (source.under dir))
    (hlisting : store.list (source.under dir) = .ok listing) :
    below all dir = (dir, .directory) :: listing.flatMap fun e ↦ below all (dir ++ [e.name]) := by
  refine eq_of_inOrder (hall.inOrder_below _) ?_ fun x ↦ ?_
  · have hsorted := hspelled.listing_sorted hlisting
    refine List.pairwise_cons.mpr ⟨fun x hx ↦ ?_, List.pairwise_flatMap.mpr
      ⟨fun e _ ↦ hall.inOrder_below _, hsorted.imp fun {e e'} h x hx y hy ↦ ?_⟩⟩
    · obtain ⟨e, -, hx⟩ := List.mem_flatMap.mp hx
      obtain ⟨-, more, hmore⟩ := mem_below.mp hx
      rw [← hmore, List.append_assoc, Path.under_append]
      exact Path.order_under_self _ e.name more
    · obtain ⟨-, more, hmore⟩ := mem_below.mp hx
      obtain ⟨-, more', hmore'⟩ := mem_below.mp hy
      rw [← hmore, ← hmore', List.append_assoc, List.append_assoc, Path.under_append,
        Path.under_append source dir]
      exact Path.order_under_of_child h more more'
  · rw [mem_below, List.mem_cons, List.mem_flatMap]
    constructor
    · rintro ⟨hx, more, hmore⟩
      rcases more with - | ⟨name, more⟩
      · obtain ⟨n, hn, hkind⟩ := (hall.mem x).mp hx
        rw [List.append_nil] at hmore
        rw [← hmore, hdir] at hn
        obtain rfl := Option.some.inj hn
        exact .inl (Prod.ext hmore.symm hkind.symm)
      · obtain ⟨n, hn, -⟩ := (hall.mem x).mp hx
        rw [← hmore, Path.under_append] at hn
        obtain ⟨n', hn'⟩ := Option.isSome_iff_exists.mp
          (hwf.child_of_under (by rw [hn]; rfl : (store.node? _).isSome = true))
        have hmem : (⟨name, n'.kind⟩ : DirEntry) ∈ listing :=
          (hspelled.mem_listing_iff hlisting).mpr ⟨n', hn', rfl⟩
        exact .inr ⟨_, hmem, mem_below.mpr ⟨hx, more, by simp [← hmore]⟩⟩
    · rintro (rfl | ⟨e, -, hx⟩)
      · exact ⟨(hall.mem _).mpr ⟨.dir, hdir, rfl⟩, List.prefix_rfl⟩
      · obtain ⟨hx, hbelow⟩ := mem_below.mp hx
        exact ⟨hx, (List.prefix_append _ _).trans hbelow⟩

/-- **What is told of a directory** whose names are texts is what is in it. -/
theorem Lists.told_eq (hall : Lists store source all) (hwf : store.WellFormed)
    (hspelled : store.SpelledBelow source) {depth : Nat}
    (hdir : store.node? (source.under dir) = some .dir)
    (hdepth : store.depth < (source.under dir).parts.length + depth) :
    (dir, .directory) :: store.told source depth dir = below all dir := by
  induction depth generalizing dir with
  | zero =>
    -- what is stored is not longer than the store is deep
    have := length_le_depth hdir
    omega
  | succ depth ih =>
    obtain ⟨listing, hlisting⟩ : ∃ listing, store.list (source.under dir) = .ok listing :=
      ⟨_, list_eq_ok_iff.mpr ⟨kindOf?_eq_directory_iff.mpr (.inr hdir), rfl⟩⟩
    have hspelledIn := (hspelled.under dir).spelledIn
    rw [told_of_list hlisting, hall.below_directory hwf hdir hspelledIn hlisting]
    refine congrArg _ (List.flatMap_congr fun e he ↦ ?_)
    obtain ⟨n, hn, hkind⟩ := (hspelledIn.mem_listing_iff hlisting).mp he
    rw [← Path.under_snoc] at hn
    cases n with
    | dir =>
      rw [← ih hn (by simp at hdepth ⊢; omega), toldOf, ← hkind]
      rfl
    | file bytes =>
      rw [hall.below_file hwf hn, toldOf, ← hkind]
      rfl

/-- As long as the source has not changed its directories have the same listings. -/
theorem Still.list_eq (h : Still store source s)
    (hdir : store.kindOf? (source.under dir) = some .directory)
    (hlisting : store.list (source.under dir) = .ok listing) :
    s.list (source.under dir) = .ok listing := by
  refine list_congr hlisting ?_ fun name ↦ ?_
  · rwa [h.kindOf?_eq]
  · rw [← Path.under_snoc]
    exact h _

/-! ### As a whole -/

/-- Copies an entry of a directory, at most `depth` directories deep. -/
def copyChild (depth : Nat) (source target : Path) (e : DirEntry) :
    Attempt (StateM MemoryStore) Unit :=
  match e.kind with
  | .directory => calls.copyFolderWithin depth (source.child e.name) (target.child e.name)
  | .file => calls.copyFile (source.child e.name) (target.child e.name)

/-- A directory is copied by creating it and then copying what is in it, entry by entry. -/
theorem run_copyFolderWithin_succ_eq_ok_iff {depth : Nat} :
    runFrom s (calls.copyFolderWithin (depth + 1) source target).run = (.ok (), s') ↔
      ∃ s₁, s.mkdir target true = .ok s₁ ∧ ∃ listing, s₁.list source = .ok listing ∧
        runFrom s₁ (forIn listing () fun e _ ↦ do
          copyChild depth source target e
          pure (.yield ())).run = (.ok (), s') := by
  have hround : (fun (e : DirEntry) (_ : Unit) ↦ (do
      copyChild depth source target e
      pure (.yield ()) : Attempt (StateM MemoryStore) (ForInStep Unit))) = (fun e _ ↦
        match e.kind with
        | .directory => do
          calls.copyFolderWithin depth (source.child e.name) (target.child e.name)
          pure (.yield ())
        | .file => do
          calls.copyFile (source.child e.name) (target.child e.name)
          pure (.yield ())) := by
    funext e _
    unfold copyChild
    cases e.kind <;> rfl
  rw [Calls.copyFolderWithin_succ, Calls.copyFolderStep, run_bind_eq_ok_iff, hround]
  simp only [run_bind_eq_ok_iff, runFrom_run_pure]
  constructor
  · rintro ⟨⟨⟩, s₁, hensure, listing, s₂, hlist, ⟨⟩, s₃, hloop, hend⟩
    obtain ⟨hlisting, rfl⟩ := Prod.mk.inj hlist
    obtain rfl := (Prod.mk.inj hend).2
    exact ⟨s₁, run_ensureDir_eq_ok_iff.mp hensure, listing, hlisting, hloop⟩
  · rintro ⟨s₁, hmade, listing, hlisting, hloop⟩
    have hlist : runFrom s₁ (calls.list source).run = (.ok listing, s₁) := congrArg (·, s₁) hlisting
    exact ⟨(), s₁, run_ensureDir_eq_ok_iff.mpr hmade, listing, s₁, hlist, (), s', hloop, rfl⟩

/-- What is told leads back to what is stored. -/
def LeadsBack (store : MemoryStore) (source : Path) (x : Entry) : Prop :=
  store.kindOf? (source.under x.1) = some x.2

instance (store : MemoryStore) (source : Path) : DecidablePred (LeadsBack store source) :=
  fun _ ↦ inferInstanceAs (Decidable (_ = _))

/-- Carries one entry over, on a condition. -/
def carryIf (allowed : Entry → Prop) [DecidablePred allowed] (source target : Path)
    (s : MemoryStore) (x : Entry) : Update :=
  if allowed x then carryEntry source target s x else .error (.notFound (source.under x.1))

section Conditions

variable {allowed : Entry → Prop} [DecidablePred allowed]

theorem carryIf_eq_ok_iff : carryIf allowed source target s x = .ok s' ↔
    allowed x ∧ carryEntry source target s x = .ok s' := by
  unfold carryIf
  split <;> simp [*]

/-- Entries are carried over on a condition if all satisfy it. -/
theorem carryAllIf_eq_ok_iff : all.foldlM (carryIf allowed source target) s = .ok s' ↔
    (∀ x ∈ all, allowed x) ∧ all.foldlM (carryEntry source target) s = .ok s' := by
  induction all generalizing s with
  | nil => simp
  | cons x all ih =>
    rw [List.foldlM_cons, List.foldlM_cons, bind_eq_ok_iff, bind_eq_ok_iff, List.forall_mem_cons]
    simp only [carryIf_eq_ok_iff, ih]
    constructor
    · rintro ⟨s₁, ⟨hx, hcarry⟩, hrest, hcarried⟩
      exact ⟨⟨hx, hrest⟩, s₁, hcarry, hcarried⟩
    · rintro ⟨⟨hx, hrest⟩, s₁, hcarry, hcarried⟩
      exact ⟨s₁, ⟨hx, hcarry⟩, hrest, hcarried⟩

theorem Still.carryAllIf (h : Still store source s)
    (hall : all.foldlM (carryIf allowed source target) s = .ok s')
    (houtside : target.startsWith source = false) (hbeside : source.startsWith target = false) :
    Still store source s' :=
  h.carryAll (carryAllIf_eq_ok_iff.mp hall).2 houtside hbeside

end Conditions

/-- A fold over blocks is a fold of folds. -/
theorem foldlM_flatMap (step : MemoryStore → Entry → Update) (blocks : DirEntry → List Entry)
    (s : MemoryStore) : (listing.flatMap blocks).foldlM step s =
      listing.foldlM (fun s e ↦ (blocks e).foldlM step s) s := by
  induction listing generalizing s with
  | nil => rfl
  | cons e listing ih =>
    rw [List.flatMap_cons, List.foldlM_append, List.foldlM_cons]
    exact congrArg _ (funext ih)

/-- A file that is copied from a directory was there. -/
theorem Still.leadsBack_of_copyFile {name : EntryName} (hs : Still store source s) {p : Path}
    (h : s.copyFile (source.under (dir ++ [name])) p = .ok s') :
    LeadsBack store source (dir ++ [name], .file) := by
  obtain ⟨bytes, hread, -⟩ := bind_eq_ok_iff.mp h
  rw [LeadsBack, ← hs.kindOf?_eq]
  exact kindOf?_of_node? (Path.isRoot_under_snoc _ _ _) (read_eq_ok_iff.mp hread)

/-- **The walk through a directory carries over what it is told of**, and succeeds if each entry
leads back and can be carried over. -/
theorem run_copyFolderWithin_eq_ok_iff (houtside : target.startsWith source = false)
    (hbeside : source.startsWith target = false) (depth : Nat)
    (hdepth : store.depth + 2 ≤ (source.under dir).parts.length + depth)
    (hshort : (source.under dir).parts.length ≤ store.depth + 1) (hs : Still store source s) :
    runFrom s (calls.copyFolderWithin depth (source.under dir) (target.under dir)).run =
        (.ok (), s') ↔
      ((dir, .directory) :: store.told source depth dir).foldlM
        (carryIf (LeadsBack store source) source target) s = .ok s' := by
  induction depth generalizing dir s s' with
  | zero => omega
  | succ depth ih =>
    rw [List.foldlM_cons, bind_eq_ok_iff, run_copyFolderWithin_succ_eq_ok_iff]
    refine exists_congr fun s₁ ↦ ?_
    rw [carryIf_eq_ok_iff, and_comm (a := LeadsBack _ _ _), and_assoc]
    refine and_congr_right fun hmade ↦ ?_
    have hcarry : carryEntry source target s (dir, .directory) = .ok s₁ := hmade
    have hs₁ : Still store source s₁ := hs.carry hcarry houtside hbeside
    by_cases hdir : store.kindOf? (source.under dir) = some .directory
    swap
    -- what is no directory is not listed
    · refine iff_of_false ?_ fun h ↦ hdir h.1
      rintro ⟨listing, hlisting, -⟩
      exact hdir ((hs₁.kindOf?_eq dir).symm.trans (list_eq_ok_iff.mp hlisting).1)
    obtain ⟨listing, hlisting⟩ : ∃ listing, store.list (source.under dir) = .ok listing :=
      ⟨_, list_eq_ok_iff.mpr ⟨hdir, rfl⟩⟩
    rw [hs₁.list_eq hdir hlisting, told_of_list hlisting, foldlM_flatMap]
    simp only [Except.ok.injEq, exists_eq_left', show LeadsBack store source (dir, .directory)
      from hdir, true_and]
    refine run_forIn_eq_ok_iff (Still store source) listing ?_
      (fun e _ s s' hs hblock ↦ hs.carryAllIf hblock houtside hbeside) hs₁
    rintro ⟨name, kind⟩ hmem s s' step hs
    have hcopy :
        runFrom s (copyChild depth (source.under dir) (target.under dir) ⟨name, kind⟩).run =
            (.ok (), s') ↔
          (toldOf (store.told source depth) dir ⟨name, kind⟩).foldlM
            (carryIf (LeadsBack store source) source target) s = .ok s' := by
      cases kind with
      | directory =>
        -- what is listed is no longer than the store is deep
        obtain ⟨name', n, hn, hentry⟩ := (mem_listing_iff hlisting _).mp hmem
        have hlength := length_le_depth hn
        have hbelow := @ih s s' (dir ++ [name]) (by simp at hdepth ⊢; omega)
          (by simp at hlength ⊢; omega) hs
        rwa [Path.under_snoc, Path.under_snoc] at hbelow
      | file =>
        rw [toldOf, List.foldlM_cons]
        simp only [List.foldlM_nil, bind_pure]
        rw [carryIf_eq_ok_iff, carryEntry, Path.under_snoc, Path.under_snoc]
        rw [and_iff_right_of_imp]
        · exact run_changing_eq_ok_iff
        · intro h
          rw [← Path.under_snoc] at h
          exact hs.leadsBack_of_copyFile h
    rw [← hcopy, run_bind_eq_ok_iff]
    constructor
    · rintro ⟨⟨⟩, s₂, hround, hend⟩
      obtain ⟨hstep, rfl⟩ := Prod.mk.inj hend
      exact ⟨(Except.ok.inj hstep).symm, hround⟩
    · rintro ⟨rfl, hround⟩
      exact ⟨(), s', hround, rfl⟩

/-- The directory and all that a walk through it is told of. -/
def toldOfAll (store : MemoryStore) (source : Path) : List Entry :=
  ([], .directory) :: store.told source (store.depth + 1) []

/-- **A directory that is copied as a whole** has all that is told of it carried over one by one. -/
theorem run_copyFolder_eq_ok_iff_told (hwf : store.WellFormed)
    (houtside : target.startsWith source = false) (hbeside : source.startsWith target = false)
    (hdir : store.node? source = some .dir) :
    runFrom store (backend.copyFolder source target).run = (.ok (), s') ↔
      (toldOfAll store source).foldlM (carryIf (LeadsBack store source) source target) store =
        .ok s' := by
  have hlength : 1 ≤ source.parts.length := List.length_pos_iff.mpr (hwf.parent hdir).1
  have hshort := length_le_depth hdir
  rw [toldOfAll, ← run_copyFolderWithin_eq_ok_iff houtside hbeside (store.depth + 1)
    (by simp; omega) (by simp; omega) fun _ ↦ rfl, runFrom_copyFolder serves_backend houtside]
  rfl

/-- Where all names are texts, what is told is what is stored, and leads back to it. -/
theorem Lists.toldOfAll_eq (hall : Lists store source all) (hwf : store.WellFormed)
    (hspelled : store.SpelledBelow source) (hdir : store.node? source = some .dir) :
    toldOfAll store source = all ∧ ∀ x ∈ all, LeadsBack store source x := by
  have htold := @Lists.told_eq source store all [] hall hwf hspelled (store.depth + 1) hdir
    (by simp; omega)
  have hbelow : below all [] = all := List.filter_eq_self.mpr (by simp)
  refine ⟨htold.trans hbelow, fun x hx ↦ ?_⟩
  obtain ⟨n, hn, hkind⟩ := (hall.mem x).mp hx
  rw [LeadsBack, hwf.kindOf? hn, hkind]

/-- **A directory that is copied as a whole** has its entries carried over one by one, if all names
are texts. -/
theorem run_copyFolder_eq_ok_iff (hall : Lists store source all) (hwf : store.WellFormed)
    (hspelled : store.SpelledBelow source) (houtside : target.startsWith source = false)
    (hbeside : source.startsWith target = false) (hdir : store.node? source = some .dir) :
    runFrom store (backend.copyFolder source target).run = (.ok (), s') ↔
      all.foldlM (carryEntry source target) store = .ok s' := by
  obtain ⟨htold, hback⟩ := hall.toldOfAll_eq hwf hspelled hdir
  rw [run_copyFolder_eq_ok_iff_told hwf houtside hbeside hdir, htold, carryAllIf_eq_ok_iff,
    and_iff_right hback]

/-- All entries are carried over if they lead back, and the source of a move is removed behind
that. -/
def carryAll (op : Operation) (source : Path) (all : List Entry) (store : MemoryStore) :
    Update := do
  let s ← all.foldlM (carryIf (LeadsBack store source) source op.target) store
  if op.kind = .move then s.rm source true else pure s

theorem carryAll_eq_ok_iff {op : Operation} : carryAll op source all store = .ok s' ↔
    ∃ s, all.foldlM (carryIf (LeadsBack store source) source op.target) store = .ok s ∧
      if op.kind = .move then s.rm source true = .ok s' else s = s' := by
  rw [carryAll, bind_eq_ok_iff]
  refine exists_congr fun s ↦ and_congr_right fun _ ↦ ?_
  split
  · rfl
  · exact Except.ok.injEq s s' ▸ Iff.rfl

/-- Once everything is carried over the source of a move can be removed. -/
theorem exists_carryAll_iff {op : Operation} (hdir : store.node? source = some .dir) :
    (∃ s', carryAll op source all store = .ok s') ↔
      ∃ s, all.foldlM (carryIf (LeadsBack store source) source op.target) store = .ok s := by
  simp only [carryAll_eq_ok_iff]
  constructor
  · rintro ⟨s', s, hall, -⟩
    exact ⟨s, hall⟩
  · rintro ⟨s, hall⟩
    have hcarried := carriedOver_of_carryAll (carryAllIf_eq_ok_iff.mp hall).2
    have hthere : s.kindOf? source = some .directory :=
      hcarried.kindOf?_keeps (kindOf?_eq_directory_iff.mpr (.inr hdir))
    obtain ⟨s', hrm, -⟩ := rm_directory hthere
    by_cases hmove : op.kind = .move
    · exact ⟨s', s, hall, by rwa [if_pos hmove]⟩
    · exact ⟨s, s, hall, by rw [if_neg hmove]⟩

end Scaffold.Transfer
