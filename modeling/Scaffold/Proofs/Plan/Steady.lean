import Scaffold.Proofs.Plan.Forest

/-!
# Backends with unchanging answers

Planning asks a store whether something is there, of what kind it is and what it lists. A backend is
steady among some states when each of these questions has one answer there and
asking leads to no other state (`Steady`); the store in memory is, because asking leaves it alone
(`steady_backend`).

On such a backend what is found inside a source does not depend on the state from which the walk
starts, and it depends on the place of the transfer in the plan only by the positions of the parents
(`alike_included`, `alike_inspectSource`). Computations are compared from any two of the states
(`Alike`), and the comparison is carried through sequences, loops and recursions.
-/

namespace Scaffold

variable {σ α β γ δ : Type} {among : σ → Prop} {R : α → β → Prop} {Q : γ → δ → Prop}

/-! ### Computations with related answers -/

/-- Started in any of the states, the computations answer what is related, and end in such
states. -/
def Alike (among : σ → Prop) (R : α → β → Prop) (x : StateM σ α) (y : StateM σ β) : Prop :=
  ∀ s t, among s → among t →
    R (runFrom s x).1 (runFrom t y).1 ∧ among (runFrom s x).2 ∧ among (runFrom t y).2

namespace Alike

theorem pure {a : α} {b : β} (h : R a b) : Alike among R (Pure.pure a) (Pure.pure b) :=
  fun _ _ hs ht ↦ ⟨h, hs, ht⟩

/-- Sequences are related when their parts are. -/
theorem bind {x : StateM σ α} {y : StateM σ β} {f : α → StateM σ γ} {g : β → StateM σ δ}
    (hx : Alike among R x y) (hf : ∀ a b, R a b → Alike among Q (f a) (g b)) :
    Alike among Q (x >>= f) (y >>= g) := by
  intro s t hs ht
  obtain ⟨hanswer, hs', ht'⟩ := hx s t hs ht
  exact hf _ _ hanswer _ _ hs' ht'

/-- Rounds that keep results related make loops that do. -/
theorem foldlM {f : α → γ → StateM σ α} {g : β → γ → StateM σ β}
    (h : ∀ acc acc' c, R acc acc' → Alike among R (f acc c) (g acc' c)) (l : List γ) {init : α}
    {init' : β} (hinit : R init init') :
    Alike among R (l.foldlM f init) (l.foldlM g init') := by
  induction l generalizing init init' with
  | nil => exact pure hinit
  | cons c l ih => exact bind (h init init' c hinit) fun acc acc' ↦ ih

end Alike

/-- The same for computations that need not have an outcome: they have one together. -/
def AlikeOr (among : σ → Prop) (R : α → β → Prop) (x : OptionT (StateM σ) α)
    (y : OptionT (StateM σ) β) : Prop :=
  Alike among (Option.Rel R) x.run y.run

namespace AlikeOr

theorem pure {a : α} {b : β} (h : R a b) : AlikeOr among R (Pure.pure a) (Pure.pure b) :=
  Alike.pure (.some h)

theorem lift {x : StateM σ α} {y : StateM σ β} (h : Alike among R x y) :
    AlikeOr among R (OptionT.lift x) (OptionT.lift y) :=
  h.bind fun _ _ hab ↦ .pure (.some hab)

theorem bind {x : OptionT (StateM σ) α} {y : OptionT (StateM σ) β} {f : α → OptionT (StateM σ) γ}
    {g : β → OptionT (StateM σ) δ} (hx : AlikeOr among R x y)
    (hf : ∀ a b, R a b → AlikeOr among Q (f a) (g b)) : AlikeOr among Q (x >>= f) (y >>= g) := by
  rw [AlikeOr, OptionT.run_bind, OptionT.run_bind]
  refine Alike.bind hx fun _ _ h ↦ ?_
  cases h with
  | some hab => exact hf _ _ hab
  | none => exact .pure .none

/-- Rounds that keep results related make loops that do. -/
theorem foldlM {f : α → γ → OptionT (StateM σ) α} {g : β → γ → OptionT (StateM σ) β}
    (h : ∀ acc acc' c, R acc acc' → AlikeOr among R (f acc c) (g acc' c)) (l : List γ) {init : α}
    {init' : β} (hinit : R init init') :
    AlikeOr among R (l.foldlM f init) (l.foldlM g init') := by
  induction l generalizing init init' with
  | nil => exact pure hinit
  | cons c l ih =>
    rw [List.foldlM_cons, List.foldlM_cons]
    exact bind (h init init' c hinit) fun acc acc' ↦ ih

end AlikeOr

/-- **Recursions** have related answers when their attempts do. -/
theorem Alike.follow {ι : Type} {endless : ι → α}
    {step : (ι → OptionT (StateM σ) α) → ι → OptionT (StateM σ) α} {R : α → α → Prop} {i j : ι}
    (hendless : R (endless i) (endless j))
    (h : ∀ depth, AlikeOr among R (attempt step depth i) (attempt step depth j)) :
    Alike among R (Recursive.follow endless step i) (Recursive.follow endless step j) := by
  intro s t hs ht
  rw [runFrom_follow, runFrom_follow]
  have hnone : ∀ depth, settled (runFrom s (attempt step depth i).run) = none ↔
      settled (runFrom t (attempt step depth j).run) = none := by
    intro depth
    rw [settled_eq_none_iff, settled_eq_none_iff]
    obtain ⟨hrel, -, -⟩ := h depth s t hs ht
    revert hrel
    generalize (runFrom s (attempt step depth i).run).1 = a
    generalize (runFrom t (attempt step depth j).run).1 = b
    rintro (- | -) <;> simp
  rcases hfirst : firstOutcome fun depth ↦ settled (runFrom s (attempt step depth i).run) with
    - | ⟨a, s'⟩
  · have hfirst' : firstOutcome (fun depth ↦ settled (runFrom t (attempt step depth j).run)) =
        none := firstOutcome_eq_none_iff.mpr fun depth hdepth ↦
      (hnone depth).mp (firstOutcome_eq_none_iff.mp hfirst depth hdepth)
    rw [hfirst']
    exact ⟨hendless, hs, ht⟩
  · obtain ⟨depth, hdepth, houtcome, hbefore⟩ := firstOutcome_eq_some_iff.mp hfirst
    obtain ⟨⟨b, t'⟩, houtcome'⟩ := Option.ne_none_iff_exists'.mp
      (mt (hnone depth).mpr (by rw [houtcome]; nofun))
    rw [firstOutcome_of_first hdepth houtcome' fun k hk hlt ↦ (hnone k).mp (hbefore k hk hlt)]
    have hrel := h depth s t hs ht
    rw [settled_eq_some_iff.mp houtcome, settled_eq_some_iff.mp houtcome'] at hrel
    exact ⟨Option.rel_some_some.mp hrel.1, hrel.2⟩

/-- Among some states each question has one answer. -/
structure Steady (b : Backend (StateM σ)) (among : σ → Prop) : Prop where
  exists_ : ∀ p, Alike among Eq (b.exists_ p) (b.exists_ p)
  stat : ∀ p, Alike among Eq (b.stat p).run (b.stat p).run
  list : ∀ p, Alike among Eq (b.list p).run (b.list p).run

/-- **The store in memory is steady**: a question leaves it as it is. -/
theorem MemoryStore.steady_backend (store : MemoryStore) : Steady backend (· = store) where
  exists_ p := by rintro _ _ rfl rfl; exact ⟨rfl, rfl, rfl⟩
  stat p := by rintro _ _ rfl rfl; exact ⟨rfl, rfl, rfl⟩
  list p := by rintro _ _ rfl rfl; exact ⟨rfl, rfl, rfl⟩

/-! ### Moving operations -/

/-- The operation as it stands behind `k` others: its parent is so much further back. -/
def Operation.behind (k : Nat) (op : Operation) : Operation :=
  { op with parent := op.parent.map (· + k) }

@[simp]
theorem Operation.behind_zero (op : Operation) : op.behind 0 = op := by
  simp [Operation.behind]

@[simp]
theorem Operation.isDirectory_behind (k : Nat) (op : Operation) :
    (op.behind k).isDirectory = op.isDirectory := rfl

@[simp]
theorem Operation.target_behind (k : Nat) (op : Operation) : (op.behind k).target = op.target := rfl

@[simp]
theorem Operation.source_behind (k : Nat) (op : Operation) : (op.behind k).source = op.source := rfl

@[simp]
theorem Operation.depth_behind (k : Nat) (op : Operation) : (op.behind k).depth = op.depth := rfl

namespace Planner

/-- What is found inside a source, with the operations moved behind `k` others. -/
def foundBehind (k : Nat) (found : Option String × List Operation) :
    Option String × List Operation :=
  (found.1, found.2.map (·.behind k))

variable {b : Backend (StateM σ)}

/-- **The walk through a source** finds the same wherever its parent stands. -/
theorem alike_included (hb : Steady b among) (k : Nat) (rules : RenameRules) (parent : Nat)
    (source target : Path) (depth : Nat) :
    Alike among (fun found found' ↦ found = foundBehind k found')
      (included b rules ⟨parent + k, source, target, depth⟩)
      (included b rules ⟨parent, source, target, depth⟩) := by
  refine .follow rfl fun bound ↦ ?_
  induction bound generalizing parent source target depth with
  | zero => exact Alike.pure .none
  | succ bound ih =>
    rw [attempt, attempt, includedStep, includedStep]
    refine .bind (.lift (hb.list source)) ?_
    rintro answer _ rfl
    rcases answer with e | entries
    · exact .pure rfl
    · refine .bind (R := fun found found' ↦ found = found'.map (·.behind k)) ?_ ?_
      · refine .foldlM (fun found found' entry hfound ↦ ?_) entries rfl
        subst hfound
        have hop : includedOperation rules (parent + k) source target depth entry =
            (includedOperation rules parent source target depth entry).behind k := rfl
        dsimp only
        rw [hop]
        generalize includedOperation rules parent source target depth entry = op
        rw [Operation.isDirectory_behind, Operation.target_behind]
        split
        · rw [List.length_map, Nat.add_right_comm parent k 1, Nat.add_right_comm (parent + 1) k]
          refine .bind (ih _ _ _ _) ?_
          rintro _ ⟨warning, below⟩ rfl
          refine .pure ?_
          simp [foundBehind, Operation.behind]
        · refine .pure ?_
          simp
      · rintro _ found rfl
        exact .pure rfl

/-- **Looking up a source** answers the same wherever the transfer stands. -/
theorem alike_inspectSource (hb : Steady b among) (k : Nat) (options : PlanOptions) (index : Nat)
    (op : Operation) (source : Path) :
    Alike among (fun found found' ↦ found = foundBehind k found')
      (inspectSource b options (index + k) (op.behind k) source)
      (inspectSource b options index op source) := by
  unfold inspectSource
  refine .bind (hb.exists_ source) ?_
  rintro there _ rfl
  rw [Operation.isDirectory_behind, Operation.target_behind, Operation.depth_behind]
  split
  · exact .pure rfl
  · split
    · exact .pure rfl
    · refine .bind (hb.stat source) ?_
      rintro answer _ rfl
      rcases answer with e | found
      · exact .pure rfl
      · dsimp only
        split
        · exact .pure rfl
        · exact alike_included hb k _ _ _ _ _

end Planner

end Scaffold
