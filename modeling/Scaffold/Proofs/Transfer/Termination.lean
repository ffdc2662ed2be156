import Scaffold.Proofs.Store.Frame
import Scaffold.Proofs.Store.Tree
import Scaffold.Proofs.Walks

/-!
# Copying a folder ends

A directory is read while another one is written, so the tree that is gone through can grow on the
way, and when the target lies in the source this has no end. Everywhere else it has one. What is
created at or below the source stands above the place that is being written, so it can only be there
when the source lies below the target, and then it is less deep than the place that is being read
(`MemoryStore.length_lt_of_above`). The tree at the source therefore never becomes deeper than
everything that was stored (`MemoryStore.ShallowAt`), and each step of the recursion goes one level
further down in it (`MemoryStore.ending_attempt_copyFolder`).

So copying a folder is copying it with the depth of the store as a bound
(`MemoryStore.runFrom_copyFolder`), and it has an answer among the computations that need not end
(`MemoryStore.copyFolder_ends`). All of this holds of a store whose calls may be refused, too.
-/

namespace Scaffold

namespace MemoryStore

variable {s s' : MemoryStore} {source target : Path} {limit : Nat}

/-- What is stored at or below the path is no deeper than the limit. -/
def ShallowAt (source : Path) (limit : Nat) (s : MemoryStore) : Prop :=
  ∀ q n, s.node? q = some n → source.parts <+: q.parts → q.parts.length ≤ limit

/-- What is put elsewhere, or not too deep, leaves it shallow. -/
theorem ShallowAt.of_confined {place : Path → Prop} {p : Path} (h : ShallowAt source limit s)
    (hs : Confined place p s s')
    (hplace : ∀ q : Path, place q ∨ q.parts <+: p.parts → source.parts <+: q.parts →
      q.parts.length ≤ limit) : ShallowAt source limit s' := by
  intro q n hq hsource
  by_cases hnear : place q
  · exact hplace q (.inl hnear) hsource
  · rcases hs q hnear with hsame | ⟨-, -, habove⟩
    · exact h q n (hsame ▸ hq) hsource
    · exact hplace q (.inr habove) hsource

theorem shallowAt_depth (source : Path) (s : MemoryStore) : ShallowAt source s.depth s :=
  fun _ _ hq _ ↦ length_le_depth hq

/-- What is at or above a place in the target, and at or below the source, is less deep than the
same place in the source: the source lies below the target then. -/
theorem length_lt_of_above (houtside : target.startsWith source = false) {names : List EntryName}
    {q : Path} (hq : q.parts <+: (target.under names).parts) (hsource : source.parts <+: q.parts) :
    q.parts.length < (source.under names).parts.length := by
  rw [Bool.eq_false_iff, Ne, Path.startsWith_iff] at houtside
  rw [Path.parts_under] at hq ⊢
  have hlength : target.parts.length < source.parts.length := by
    have hor :=
      List.prefix_or_prefix_of_prefix (hsource.trans hq) (List.prefix_append target.parts _)
    have htarget := hor.resolve_left houtside
    refine Nat.lt_of_le_of_ne htarget.length_le fun heq ↦ houtside ?_
    exact (htarget.eq_of_length heq).symm ▸ List.prefix_rfl
  have hle := hq.length_le
  rw [List.length_append] at hle ⊢
  omega

/-! ### The recursion -/

section Recursion

variable {σ : Type} {b : Backend (StateM σ)} {view : σ → MemoryStore} (hb : Serves b view)
  {S D : Path} {depth : Nat}
include hb

theorem ending_ensureDir (hplace : ∀ q : Path, q.parts <+: D.parts → source.parts <+: q.parts →
      q.parts.length ≤ limit) :
    (ending (ShallowAt source limit ∘ view)).TrySame ((b.map OptionT.lift).ensureDir D)
      (b.ensureDir D) := by
  have hstat : Leads view (Preserved (ShallowAt source limit)) (b.stat D) := (hb.stat D).leads
  refine Lockstep.ensureDir (ending_lift fun s hs ↦ ⟨fun _ _ ↦ trivial, hstat s hs⟩)
    (ending_lift fun s hs ↦ ⟨fun _ _ ↦ trivial, ?_⟩)
  have hmade : Leads view (Confined (fun _ ↦ False) D) (b.mkdir D true) :=
    (hb.mkdir D true).leads fun _ _ h ↦ (of_mkdir h).1.confined
  exact ShallowAt.of_confined hs (hmade s) fun q hq hsource ↦ hplace q (hq.resolve_left id) hsource

theorem ending_copyFile (hplace : ∀ q : Path, q.parts <+: D.parts → source.parts <+: q.parts →
      q.parts.length ≤ limit) :
    (ending (ShallowAt source limit ∘ view)).TrySame ((b.map OptionT.lift).copyFile S D)
      (b.copyFile S D) := by
  refine ending_lift fun s hs ↦ ⟨fun _ _ ↦ trivial, ?_⟩
  have hmade : Leads view (Confined (· ≈ D) D) (b.copyFile S D) :=
    hb.leads_copyFile (fun _ ↦ id) S
  refine ShallowAt.of_confined hs (hmade s) fun q hq hsource ↦ hplace q ?_ hsource
  exact hq.elim (fun hsame ↦ Path.equiv_iff.mp hsame ▸ List.prefix_rfl) id

/-- What is listed lies no deeper than the limit. -/
theorem ending_list (hS : source.parts <+: S.parts) :
    (ending (ShallowAt source limit ∘ view)).TryTogether
      (fun entries : List DirEntry ↦ ∀ e ∈ entries, (S.child e.name).parts.length ≤ limit)
      ((b.map OptionT.lift).list S) (b.list S) := by
  refine ending_lift fun s hs ↦ ⟨fun entries hlist e he ↦ ?_, ?_⟩
  · obtain ⟨name, n, hn, rfl⟩ := (mem_listing_iff ((hb.list S s).2 entries hlist) e).mp he
    have hlength := hs _ n hn (hS.trans (by rw [Path.parts_child]; exact List.prefix_append _ _))
    rwa [Path.parts_child, List.length_append] at hlength ⊢
  · show ShallowAt source limit (view _)
    rw [(hb.list S s).1]
    exact hs

/-- **The recursion ends** before it has gone through a limited number of directories, because what
it creates at or below the source is less deep than what it is about to read. -/
theorem ending_attempt_copyFolder (houtside : target.startsWith source = false) (depth more : Nat)
    (hmore : depth ≤ more) (names : List EntryName) (hpositive : 0 < depth)
    (hdepth : limit < (source.under names).parts.length + depth)
    (hfound : names ≠ [] → (source.under names).parts.length ≤ limit) :
    (ending (ShallowAt source limit ∘ view)).Same
      (attempt b.copyFolderPair more (source.under names, target.under names))
      (b.copyFolderWithin depth (source.under names) (target.under names)).run := by
  induction depth generalizing more names with
  | zero => exact absurd hpositive (Nat.lt_irrefl 0)
  | succ depth ih =>
    obtain ⟨more, rfl⟩ : ∃ n, more = n + 1 := ⟨more - 1, by omega⟩
    have hbelow : ∀ names, source.parts <+: (source.under names).parts := fun names ↦ by
      rw [Path.parts_under]
      exact List.prefix_append _ _
    have hplace : ∀ names, (names ≠ [] → (source.under names).parts.length ≤ limit) →
        ∀ q : Path, q.parts <+: (target.under names).parts → source.parts <+: q.parts →
          q.parts.length ≤ limit := by
      intro names hfound q hq hsource
      have hlt := length_lt_of_above houtside hq hsource
      refine Nat.le_trans (Nat.le_of_lt hlt) (hfound ?_)
      rintro rfl
      exact absurd hsource.length_le (Nat.not_le_of_lt hlt)
    rw [attempt, Calls.copyFolderPair, Calls.copyFolderWithin_succ]
    refine Lockstep.TrySame.same (.bind (ending_ensureDir hb (hplace names hfound)) fun _ _ ↦
      .bind (ending_list hb (hbelow names)) fun entries hentries ↦
        .bind (.forIn fun entry hentry ↦ ?_) fun _ _ ↦ .pure trivial)
    have hchild := hentries entry hentry
    rw [← Path.under_snoc] at hchild
    have hlength : (source.under (names ++ [entry.name])).parts.length =
        (source.under names).parts.length + 1 := by
      rw [Path.under_snoc, Path.parts_child, List.length_append, List.length_singleton]
    dsimp only
    rw [← Path.under_snoc, ← Path.under_snoc]
    cases entry.kind with
    | directory =>
      have hagain := ih more (by omega) _ (by omega) (by omega) fun _ ↦ hchild
      exact .bind (Lockstep.TrySame.of_same hagain) fun _ _ ↦ .pure trivial
    | file => exact .bind (ending_copyFile hb (hplace _ fun _ ↦ hchild)) fun _ _ ↦ .pure trivial

/-- **Copying a folder** is copying it with the depth of the store as a bound, when the target does
not lie in it. -/
theorem runFrom_copyFolder (houtside : target.startsWith source = false) (s : σ) :
    runFrom s (b.copyFolder source target).run =
      runFrom s (b.copyFolderWithin ((view s).depth + 1) source target).run := by
  rw [hb.byCalls.copyFolder_eq]
  exact runFrom_follow_of_ending b.sameStep_copyFolder _
    (fun more hmore ↦ ending_attempt_copyFolder hb houtside ((view s).depth + 1) more hmore []
      (Nat.succ_pos _) (Nat.lt_of_lt_of_le (Nat.lt_succ_self _) (Nat.le_add_left _ _)) (absurd rfl))
    (shallowAt_depth source (view s))

/-- **Copying a folder ends** when the target does not lie in it. -/
theorem copyFolder_ends (houtside : target.startsWith source = false) (s : σ) :
    (b.ended.copyFolder source target).run.run s =
      some (runFrom s (b.copyFolder source target).run) := by
  have hends := ending_attempt_copyFolder hb houtside ((view s).depth + 1) _
    (le_max_right usualDepth _) [] (Nat.succ_pos _)
    (Nat.lt_of_lt_of_le (Nat.lt_succ_self _) (Nat.le_add_left _ _)) (absurd rfl) s
    (shallowAt_depth source (view s))
  rw [hb.byCalls.copyFolder_eq]
  refine returning_follow (Calls.Matches.of_map returning_ended b.toCalls).attempt_copyFolder
    (le_max_left usualDepth ((view s).depth + 1)) ?_
  rw [← Path.under_nil source, ← Path.under_nil target, hends.1]
  rfl

/-- **Moving a folder ends**, too. -/
theorem moveFolder_ends (houtside : target.startsWith source = false) (s : σ) :
    (b.ended.moveFolder source target).run.run s =
      some (runFrom s (b.moveFolder source target).run) := by
  have hcopy : returning.TrySame (b.ended.copyFolder source target) (b.copyFolder source target) :=
    .of_same fun s ↦ ⟨copyFolder_ends hb houtside s, trivial⟩
  have hrm : returning.TrySame (b.ended.rm source true) (b.rm source true) :=
    .of_same (returning_ended _)
  rw [hb.byCalls.moveFolder_eq]
  exact ((hcopy.bind fun _ _ ↦ hrm) s).1

end Recursion

end MemoryStore

end Scaffold
