import Scaffold.Proofs.Execution.Effects

/-!
# What a run can change

A plan names the paths at which its operations work, and a run changes nothing else: neither what it
creates, copies and removes, nor what it leaves behind when calls fail half way
(`execution_touches`). This holds of every plan and of every store, so operations may stand in each
other's way, a source may lie in a target, and a plan need not come from a text.

Three things may happen to an entry. It may be written, at the target of an operation or, when a
directory is transferred, below that. It may be a directory that was missing above a target. And it
may be removed with the source of a move. The first two are where the calls of an operation work,
the third is asked of the removals alone, so the frame is an instance of what the calls of a run
keep.
-/

namespace Scaffold

namespace MemoryStore

variable {s s' : MemoryStore} {p q : Path}

/-- Removing an entry with what is below it changes nothing else. -/
theorem node?_of_rm (h : s.rm p true = .ok s') (hq : q.startsWith p = false) :
    s'.node? q = s.node? q := by
  rcases hkind : s.kindOf? p with - | - | -
  · simp [rm, hkind] at h
  · obtain rfl : s.erase p = s' := by simpa [rm, hkind] using h
    rw [node?_erase, if_neg fun hpq ↦ ?_]
    have hstart := Path.startsWith_of_equiv (Path.equiv_iff.mpr (Path.equiv_iff.mp hpq).symm)
    rw [hq] at hstart
    cases hstart
  · obtain ⟨s'', hrm, hview⟩ := rm_directory hkind
    obtain rfl := Except.ok.inj (hrm.symm.trans h)
    rw [hview, hq]
    rfl

/-- Removing a file changes nothing else. -/
theorem node?_of_unlink (h : s.unlink p = .ok s') (hq : ¬q ≈ p) : s'.node? q = s.node? q := by
  unfold unlink at h
  split at h
  · obtain rfl := Except.ok.inj h
    rw [node?_erase, if_neg fun hpq ↦ hq (Path.equiv_iff.mpr (Path.equiv_iff.mp hpq).symm)]
  · cases h
  · cases h

end MemoryStore

namespace Execution

open MemoryStore

/-! ### The paths of a plan -/

/-- The path is a place of an operation of the plan, or it is removed with the source of a move. -/
def Touched (plan : Plan) (q : Path) : Prop :=
  ∃ op ∈ plan.operations, Places op q ∨
    op.kind = .move ∧ ∃ source, op.source = some source ∧ q.startsWith source = true

/-- The path is at or above a target. -/
def AboveTarget (plan : Plan) (q : Path) : Prop :=
  ∃ op ∈ plan.operations, q.parts <+: op.target.parts

variable {plan : Plan} {op : Operation} {p q : Path}

/-- Two spellings of a path are places together. -/
theorem Places.congr (h : Places op p) (hq : q ≈ p) : Places op q := by
  have hparts := Path.equiv_iff.mp hq
  refine h.imp (fun h ↦ Path.equiv_iff.mpr (hparts.trans (Path.equiv_iff.mp h))) ?_
  rintro ⟨hkind, hstart⟩
  rw [Path.startsWith_iff] at hstart
  exact ⟨hkind, Path.startsWith_iff.mpr (hparts ▸ hstart)⟩

/-- What is above a place is a place itself, or it is above the target. -/
theorem Places.above (h : Places op p) (hq : q.parts <+: p.parts) :
    Places op q ∨ q.parts <+: op.target.parts := by
  rcases h with h | ⟨hkind, hstart⟩
  · exact .inr (Path.equiv_iff.mp h ▸ hq)
  · rcases List.prefix_or_prefix_of_prefix hq (Path.startsWith_iff.mp hstart) with hq | hq
    · exact .inr hq
    · exact .inl (.inr ⟨hkind, Path.startsWith_iff.mpr hq⟩)

/-! ### The calls -/

section Calls

variable {σ : Type} {b : Backend (StateM σ)} {view : σ → MemoryStore}

/-- What is confined to a place of an operation is confined to the places of the plan. -/
theorem confined_plan (hop : op ∈ plan.operations) {place : Path → Prop} {s s' : MemoryStore}
    (hplace : ∀ q, place q → Places op q)
    (hp : ∀ q : Path, q.parts <+: p.parts → Places op q ∨ q.parts <+: op.target.parts)
    (h : Confined place p s s') : ConfinedTo (Touched plan) (AboveTarget plan) s s' :=
  ConfinedTo.mono h (fun q hq ↦ ⟨op, hop, .inl (hplace q hq)⟩) fun q hq ↦
    (hp q hq).imp (fun hq ↦ ⟨op, hop, .inl hq⟩) fun hq ↦ ⟨op, hop, hq⟩

/-- **The calls of an operation stay at the paths of the plan.** -/
theorem keeps_confined (hb : Serves b view) (hop : op ∈ plan.operations) :
    Keeps b view (ConfinedTo (Touched plan) (AboveTarget plan)) op where
  exists_ p s := by
    rw [(hb.exists_ p s).1]
    exact refl _
  byCalls := hb.byCalls
  stat p := (hb.stat p).leads
  list p := (hb.list p).leads
  mkdir p hp := by
    refine (hb.mkdir p true).leads fun s s' h ↦ ?_
    have hgrows : Confined (fun _ ↦ False) p s s' := (of_mkdir h).1.confined
    refine confined_plan hop (fun _ ↦ False.elim) (fun q hq ↦ ?_) hgrows
    rcases hp with hp | hp
    · exact hp.above hq
    · exact .inr (hq.trans hp)
  write p bytes hp :=
    (hb.leads_write (fun _ ↦ id) bytes).mono fun _ _ ↦
      confined_plan hop (fun _ ↦ hp.congr) fun _ ↦ hp.above
  copyFile source p hp :=
    (hb.leads_copyFile (fun _ ↦ id) source).mono fun _ _ ↦
      confined_plan hop (fun _ ↦ hp.congr) fun _ ↦ hp.above

/-- **The removal of a source stays below it.** -/
theorem leads_rm_source (hb : Serves b view) (hop : op ∈ plan.operations) (hmove : op.kind = .move)
    {source : Path} (hsource : op.source = some source) :
    Leads view (ConfinedTo (Touched plan) (AboveTarget plan)) (b.rm source true) := by
  refine (hb.rm source true).leads fun s s' h q hq ↦ .inl (node?_of_rm h ?_)
  by_contra hstart
  exact hq ⟨op, hop, .inr ⟨hmove, source, hsource, by simpa using hstart⟩⟩

theorem leads_unlink_source (hb : Serves b view) (hop : op ∈ plan.operations)
    (hmove : op.kind = .move) {source : Path} (hsource : op.source = some source) :
    Leads view (ConfinedTo (Touched plan) (AboveTarget plan)) (b.unlink source) :=
  (hb.unlink source).leads fun _ _ h _ hq ↦ .inl (node?_of_unlink h fun hqs ↦
    hq ⟨op, hop, .inr ⟨hmove, source, hsource, Path.startsWith_of_equiv hqs⟩⟩)

/-- **A run stays at the paths of its plan.** -/
theorem confined_executePlan (hb : Serves b view) (plan : Plan) (s : σ) :
    ConfinedTo (Touched plan) (AboveTarget plan) (view s)
      (view (runFrom s (executePlan b plan)).2) := by
  refine related_executePlan _ (fun op hop ↦ keeps_confined hb hop) (fun i op hop ↦ ?_)
    fun i p s hremoves ↦ ?_
  · have hmem := List.mem_of_getElem? hop
    exact ⟨fun source s' hmove hsource _ ↦ leads_unlink_source hb hmem hmove hsource s',
      fun source s' hmove hsource _ ↦ leads_rm_source hb hmem hmove hsource s'⟩
  · obtain ⟨k, move, hmove, hkind, hsource, -⟩ := hremoves.carried
    exact leads_rm_source hb (List.mem_of_getElem? hmove) hkind hsource s

end Calls

/-- **A run touches only what its plan names.** Whatever plan is executed in whatever store, under
every schedule of failures: an entry that is not as it was is the target of an operation or lies
below the target of a transfer, or it is a directory that was missing above a target, or it has been
at or below the source of a move. -/
theorem execution_touches {τ : Type} (gate : Gate τ) (plan : Plan) (store : MemoryStore) (t : τ)
    (q : Path) :
    let final :=
      (runFrom (store, t) (executePlan (Backend.gated gate MemoryStore.backend) plan)).2.1
    final.node? q = store.node? q ∨
      (∃ op ∈ plan.operations, q ≈ op.target ∨
        (op.kind = .copy ∨ op.kind = .move) ∧ q.startsWith op.target = true) ∨
      (∃ op ∈ plan.operations, q.parts <+: op.target.parts ∧ ¬q ≈ op.target ∧
        store.node? q = none ∧ final.node? q = some .dir) ∨
      ∃ op ∈ plan.operations, op.kind = .move ∧
        ∃ source, op.source = some source ∧ q.startsWith source = true := by
  intro final
  have hconfined := confined_executePlan (serves_gated gate serves_backend) plan (store, t) q
  by_cases htouched : Touched plan q
  · obtain ⟨op, hop, hplaces | hremoved⟩ := htouched
    · exact .inr (.inl ⟨op, hop, hplaces⟩)
    · exact .inr (.inr (.inr ⟨op, hop, hremoved⟩))
  · rcases hconfined htouched with hsame | ⟨hnone, hdir, op, hop, habove⟩
    · exact .inl hsame
    · refine .inr (.inr (.inl ⟨op, hop, habove, fun hq ↦ ?_, hnone, hdir⟩))
      exact htouched ⟨op, hop, .inl (.inl hq)⟩

end Execution

end Scaffold
