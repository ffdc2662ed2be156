import Scaffold.Proofs.Store.Calls

/-!
# What calls leave alone

A call that fails changes nothing, but what is composed of several calls may fail half way, and what
was done up to there stays. Even so it stays in its place: whatever comes of creating, writing or
copying, beyond the path that it is about only directories can have appeared, at that path or above
it (`Confined`).

This is a preorder on stores, so it is shown for the primitive calls and carried through sequences
and loops (`Leads`), without asking where they stop. The same goes for any other preorder on what is
seen of the state. A computation that removes something when it
succeeds is confined only where it fails (`LeadsFailing`); that is so when the removal comes last.
-/

namespace Scaffold

namespace MemoryStore

variable {place place' above above' : Path → Prop} {p p' : Path} {s s' : MemoryStore}

/-- Beyond the places that are named only directories have appeared, and only where `above` says. -/
def ConfinedTo (place above : Path → Prop) (s s' : MemoryStore) : Prop :=
  ∀ q, ¬place q → s'.node? q = s.node? q ∨
    s.node? q = none ∧ s'.node? q = some .dir ∧ above q

instance : Std.Refl (ConfinedTo place above) := ⟨fun _ _ _ ↦ .inl rfl⟩

instance : IsTrans MemoryStore (ConfinedTo place above) where
  trans s s' s'' h h' q hq := by
    rcases h q hq with hsame | ⟨hnone, hdir, habove⟩
    · rw [← hsame]
      exact h' q hq
    -- a directory that has appeared stays
    · rcases h' q hq with hsame' | ⟨hnone', -⟩
      · exact .inr ⟨hnone, hsame'.trans hdir, habove⟩
      · rw [hnone'] at hdir
        cases hdir

/-- Beyond the places that are named, only directories have appeared, at or above `p`. -/
abbrev Confined (place : Path → Prop) (p : Path) : MemoryStore → MemoryStore → Prop :=
  ConfinedTo place (·.parts <+: p.parts)

/-- Nothing has changed but at the path and below it, and the directories above it are there. -/
abbrev ConfinedBelow (p : Path) : MemoryStore → MemoryStore → Prop :=
  Confined (fun q ↦ q.startsWith p = true) p

theorem ConfinedTo.mono (h : ConfinedTo place above s s') (hplace : ∀ q, place q → place' q)
    (habove : ∀ q, above q → place' q ∨ above' q) : ConfinedTo place' above' s s' := by
  intro q hq
  refine (h q fun hq' ↦ hq (hplace q hq')).imp_right ?_
  exact And.imp_right (And.imp_right fun hq' ↦ (habove q hq').resolve_left hq)

theorem Confined.mono (h : Confined place p s s') (hplace : ∀ q, place q → place' q)
    (hp : ∀ q, q.parts <+: p.parts → place' q ∨ q.parts <+: p'.parts) :
    Confined place' p' s s' :=
  ConfinedTo.mono h hplace hp

/-- What is neither a place nor above one stays as it is. -/
theorem Confined.node?_eq (h : Confined place p s s') {q : Path} (hq : ¬place q)
    (habove : ¬q.parts <+: p.parts) : s'.node? q = s.node? q :=
  (h q hq).resolve_right fun hnew ↦ habove hnew.2.2

/-- What stays below one of two paths beside each other leaves alone what is below the other. -/
theorem Confined.node?_beside {source target : Path} (h : ConfinedBelow p s s')
    {names : List EntryName} (hp : p ≈ target.under names)
    (houtside : target.startsWith source = false) (hbeside : source.startsWith target = false)
    (more : List EntryName) : s'.node? (source.under more) = s.node? (source.under more) := by
  have hparts := Path.equiv_iff.mp hp
  refine h.node?_eq (fun hstart ↦ ?_) fun habove ↦ ?_
  · have hsource := Path.under_startsWith_of_beside hbeside houtside more
    rw [Path.startsWith_iff, hparts, Path.parts_under target] at hstart
    rw [Bool.eq_false_iff, Ne, Path.startsWith_iff] at hsource
    exact hsource ((List.prefix_append _ _).trans hstart)
  · have htarget := Path.under_startsWith_of_beside houtside hbeside names
    rw [hparts, Path.parts_under source] at habove
    rw [Bool.eq_false_iff, Ne, Path.startsWith_iff] at htarget
    exact htarget ((List.prefix_append _ _).trans habove)

theorem Grows.confined (h : Grows p s s') : Confined place p s s' := by
  intro q _
  rcases hnode : s'.node? q with - | n
  · rcases hold : s.node? q with - | n
    · exact .inl rfl
    · rw [h.keeps hold] at hnode
      cases hnode
  · rcases hold : s.node? q with - | n'
    · rcases h.adds hnode with hsame | ⟨rfl, habove⟩
      · rw [hold] at hsame
        cases hsame
      · exact .inr ⟨rfl, rfl, habove⟩
    · rw [← hnode, h.keeps hold]
      exact .inl rfl

/-- Storing something changes what is there, and nothing else. -/
theorem confined_insert (hplace : ∀ q, q ≈ p → place q) (n : StoredNode) :
    Confined place p s (s.insert p n) := by
  intro q hq
  rw [node?_insert, if_neg fun hpq ↦ hq (hplace q (Path.equiv_iff.mp hpq).symm)]
  exact .inl rfl

end MemoryStore

/-! ### Sequences and loops -/

/-- Where the property holds before, it holds afterwards. -/
def Preserved {ν : Type} (P : ν → Prop) (a a' : ν) : Prop := P a → P a'

instance {ν : Type} (P : ν → Prop) : Std.Refl (Preserved P) := ⟨fun _ ↦ id⟩

instance {ν : Type} (P : ν → Prop) : IsTrans ν (Preserved P) where
  trans _ _ _ h h' := h' ∘ h

section Runs

variable {σ ν α β : Type} {view : σ → ν} {R R' : ν → ν → Prop} {x : Attempt (StateM σ) α}
  {f : α → Attempt (StateM σ) β}

/-- Whatever comes of it, what is seen of the state afterwards is related to what was seen of it
before. -/
def Leads (view : σ → ν) (R : ν → ν → Prop) (x : Attempt (StateM σ) α) : Prop :=
  ∀ s, R (view s) (view (runFrom s x.run).2)

/-- Where it fails, what is seen of the state behind it is related to what was seen before. -/
def LeadsFailing (view : σ → ν) (R : ν → ν → Prop) (x : Attempt (StateM σ) α) : Prop :=
  ∀ s e s', runFrom s x.run = (.error e, s') → R (view s) (view s')

/-- A sequence does what its parts do: the second from where the first has succeeded. -/
theorem related_bind [IsTrans ν R] {s : σ} (hx : R (view s) (view (runFrom s x.run).2))
    (hf : ∀ a s', runFrom s x.run = (.ok a, s') → R (view s') (view (runFrom s' (f a).run).2)) :
    R (view s) (view (runFrom s (x >>= f).run).2) := by
  rw [runFrom_run_bind]
  rcases hrun : runFrom s x.run with ⟨e | a, s'⟩
  · rwa [hrun] at hx
  · rw [hrun] at hx
    exact IsTrans.trans _ _ _ hx (hf a s' hrun)

namespace Leads

theorem mono (h : Leads view R x) (hR : ∀ s s', R s s' → R' s s') : Leads view R' x :=
  fun s ↦ hR _ _ (h s)

theorem failing (h : Leads view R x) : LeadsFailing view R x := by
  intro s e s' hrun
  have hs := h s
  rwa [hrun] at hs

/-- A sequence does what its parts do, wherever it stops. -/
theorem bind [IsTrans ν R] (hx : Leads view R x) (hf : ∀ a, Leads view R (f a)) :
    Leads view R (x >>= f) :=
  fun s ↦ related_bind (hx s) fun a s' _ ↦ hf a s'

variable [Std.Refl R]

theorem pure (a : α) : Leads view R (Pure.pure a) := fun _ ↦ refl _

theorem throw (e : StorageError) : Leads view R (throw e : Attempt (StateM σ) α) := fun _ ↦ refl _

omit [Std.Refl R] in
theorem ask {x : StateM σ α} (h : ∀ s, R (view s) (view (runFrom s x).2)) :
    Leads view R (liftM x : Attempt (StateM σ) α) := by
  intro s
  rw [runFrom_run_lift]
  exact h s

/-- A question changes nothing. -/
theorem lift {x : StateM σ α} (h : ∀ s, view (runFrom s x).2 = view s) :
    Leads view R (liftM x : Attempt (StateM σ) α) := by
  refine ask fun s ↦ ?_
  rw [h]
  exact refl _

/-- What every round of a loop does, the loop does. -/
theorem forIn [IsTrans ν R] {l : List α}
    {f : α → PUnit → Attempt (StateM σ) (ForInStep PUnit)} (h : ∀ a ∈ l, Leads view R (f a ())) :
    Leads view R (forIn l () f) := by
  induction l with
  | nil => exact pure _
  | cons a l ih =>
    rw [List.forIn_cons]
    refine bind (h a List.mem_cons_self) fun step ↦ ?_
    split
    · exact pure _
    · exact ih fun a' ha' ↦ h a' (List.mem_cons_of_mem a ha')

end Leads

namespace LeadsFailing

/-- What comes last decides. -/
theorem bind [IsTrans ν R] (hx : Leads view R x) (hf : ∀ a, LeadsFailing view R (f a)) :
    LeadsFailing view R (x >>= f) := by
  intro s e s' hrun
  have hs := hx s
  rw [runFrom_run_bind] at hrun
  rcases hfirst : runFrom s x.run with ⟨e' | a, s₁⟩
  · rw [hfirst] at hrun hs
    obtain rfl := (Prod.mk.inj hrun).2
    exact hs
  · rw [hfirst] at hrun hs
    exact IsTrans.trans _ _ _ hs (hf a s₁ e s' hrun)

/-- What comes behind a failure does not matter. -/
theorem throw_bind [Std.Refl R] (e : StorageError) (f : α → Attempt (StateM σ) β) :
    LeadsFailing view R (throw e >>= f) := by
  intro s e' s' hrun
  rw [runFrom_run_bind, runFrom_run_throw] at hrun
  obtain rfl := (Prod.mk.inj hrun).2
  exact refl _

theorem bind_pure (hx : LeadsFailing view R x) (g : α → β) :
    LeadsFailing view R (x >>= fun a ↦ pure (g a)) := by
  intro s e s' hrun
  rw [runFrom_run_bind] at hrun
  rcases hfirst : runFrom s x.run with ⟨e' | a, s₁⟩
  · rw [hfirst] at hrun
    obtain rfl := (Prod.mk.inj hrun).2
    exact hx s e' s₁ hfirst
  · rw [hfirst] at hrun
    cases hrun

end LeadsFailing

section Stores

variable {view : σ → MemoryStore} {R : MemoryStore → MemoryStore → Prop}
  {call : Attempt (StateM σ) Unit} {update : MemoryStore → MemoryStore.Update}

theorem Reads.leads [Std.Refl R] {answer : MemoryStore → Except StorageError α}
    (h : Reads view x answer) : Leads view R x := by
  intro s
  rw [(h s).1]
  exact refl _

/-- A call that changes the store fails without having done so. -/
theorem Changes.leadsFailing [Std.Refl R] (h : Changes view call update) :
    LeadsFailing view R call := by
  intro s e s' hrun
  rw [(h s s').2 e hrun]
  exact refl _

theorem Changes.leads [Std.Refl R] (h : Changes view call update)
    (hR : ∀ store store', update store = .ok store' → R store store') : Leads view R call := by
  intro s
  rcases hrun : runFrom s call.run with ⟨e | ⟨⟩, s'⟩
  · exact h.leadsFailing s e s' hrun
  · exact hR _ _ ((h s s').1 hrun)

end Stores

end Runs

/-! ### The calls of a store -/

namespace Serves

open MemoryStore Execution

variable {σ : Type} {b : Backend (StateM σ)} {view : σ → MemoryStore} {place : Path → Prop}
  {p : Path}

theorem leads_ensureDir (hb : Serves b view) (p : Path) :
    Leads view (Confined place p) (b.ensureDir p) := by
  refine .bind (.lift fun s ↦ (hb.existsAs p .directory s).1) fun there ↦ ?_
  split
  · exact .pure _
  · exact (hb.mkdir p true).leads fun _ _ h ↦ (of_mkdir h).1.confined

theorem leads_ensureParent (hb : Serves b view) (p : Path) :
    Leads view (Confined place p) (ensureParent b p) := by
  unfold ensureParent
  split
  · rename_i parent hparent
    split
    · exact .pure _
    · refine (hb.leads_ensureDir parent).mono fun _ _ h ↦ h.mono (fun _ ↦ id) fun q hq ↦ .inr ?_
      rw [(Path.parent?_eq_some hparent).1] at hq
      exact hq.trans (List.dropLast_prefix _)
  · exact .pure _

theorem leads_write (hb : Serves b view) (hplace : ∀ q, q ≈ p → place q) (bytes : ByteArray) :
    Leads view (Confined place p) (b.write p bytes) := by
  refine (hb.write p bytes).leads fun store store' h ↦ ?_
  rw [(of_write h).2]
  exact confined_insert hplace _

theorem leads_copyFile (hb : Serves b view) (hplace : ∀ q, q ≈ p → place q) (source : Path) :
    Leads view (Confined place p) (b.copyFile source p) := by
  refine (hb.copyFile source p).leads fun store store' h ↦ ?_
  simp only [MemoryStore.copyFile] at h
  rcases hread : store.read source with e | bytes
  · rw [hread] at h
    cases h
  · rw [hread] at h
    rw [(of_write h).2]
    exact confined_insert hplace _

/-- Making an empty entry stays in its place. -/
theorem leads_makeEmpty (hb : Serves b view) {op : Operation}
    (hplace : ∀ q, q ≈ op.target → place q) :
    Leads view (Confined place op.target) (makeEmpty b op) := by
  unfold makeEmpty
  split
  · exact hb.leads_ensureDir _
  · exact .bind (hb.leads_ensureParent _) fun _ ↦ hb.leads_write hplace _

/-- Carrying an entry along stays in its place. -/
theorem leads_tryInclude (hb : Serves b view) {op : Operation}
    (hplace : ∀ q, q ≈ op.target → place q) (source : Path) :
    Leads view (Confined place op.target) (tryInclude b op source) := by
  refine .bind (.lift fun s ↦ (hb.exists_ source s).1) fun there ↦ ?_
  split
  · split
    · exact hb.leads_ensureDir _
    · exact .bind (hb.leads_ensureParent _) fun _ ↦ hb.leads_copyFile hplace _
  · exact .throw _

/-- **Copying a directory** changes nothing outside the target. -/
theorem leads_copyFolderWithin (hb : Serves b view) (depth : Nat) (source target : Path) :
    Leads view (ConfinedBelow target) (b.copyFolderWithin depth source target) := by
  induction depth generalizing source target with
  | zero => exact .throw _
  | succ depth ih =>
    -- what is confined to an entry of the target is confined to the target
    have hchild : ∀ {name : EntryName} {place : Path → Prop} {s s' : MemoryStore},
        (∀ q, place q → q.startsWith (target.child name) = true) →
        Confined place (target.child name) s s' → ConfinedBelow target s s' := by
      intro name place s s' hplace h
      refine h.mono (fun q hq ↦ ?_) fun q hq ↦ ?_
      · have hstart := Path.startsWith_iff.mp (hplace q hq)
        rw [Path.parts_child] at hstart
        exact Path.startsWith_iff.mpr ((List.prefix_append _ _).trans hstart)
      · rw [Path.parts_child, List.prefix_concat_iff] at hq
        refine hq.imp_left fun hq ↦ Path.startsWith_iff.mpr ?_
        rw [hq]
        exact List.prefix_append _ _
    rw [Calls.copyFolderWithin_succ, Calls.copyFolderStep]
    refine .bind (hb.leads_ensureDir target) fun _ ↦ .bind (hb.list source).leads fun listing ↦
      .bind (.forIn fun entry _ ↦ ?_) fun _ ↦ .pure _
    split
    · exact .bind ((ih _ _).mono fun _ _ ↦ hchild fun _ ↦ id) fun _ ↦ .pure _
    · have hfile : Leads view (Confined (· ≈ target.child entry.name) (target.child entry.name))
          (b.copyFile (source.child entry.name) (target.child entry.name)) :=
        hb.leads_copyFile (fun _ ↦ id) _
      refine .bind (hfile.mono fun _ _ ↦ hchild fun q hq ↦ ?_) fun _ ↦ .pure _
      exact Path.startsWith_of_equiv hq

theorem leads_copyFolder (hb : Serves b view) (source target : Path) :
    Leads view (ConfinedBelow target) (b.copyFolder source target) := by
  intro s
  obtain ⟨depth, hdepth⟩ := b.exists_copyFolderWithin source target s
  rw [hb.byCalls.copyFolder_eq, hdepth]
  exact hb.leads_copyFolderWithin depth source target s


end Serves

end Scaffold
