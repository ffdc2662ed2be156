import Scaffold.Storage.Backend

/-!
# Running stateful computations

A store held in a value of type `σ` is used by computations in `StateM σ`, and a computation that
can fail adds an error on top. `runFrom` runs either of them from a state, and answers the result
together with the state that is left.

The lemmas take a run apart along the program: a sequence succeeds when both of its parts do
(`run_bind_eq_ok_iff`), and a loop keeps what each of its rounds keeps (`foldlM_keeps`).
-/

namespace Scaffold

variable {σ ε α β : Type}

/-- What a computation answers when it starts in a state, and the state that it leaves. -/
def runFrom (s : σ) (x : StateM σ α) : α × σ := x s

/-! ### Single steps -/

@[simp]
theorem runFrom_pure (s : σ) (a : α) : runFrom s (pure a) = (a, s) := rfl

@[simp]
theorem runFrom_bind (s : σ) (x : StateM σ α) (f : α → StateM σ β) :
    runFrom s (x >>= f) = runFrom (runFrom s x).2 (f (runFrom s x).1) := rfl

@[simp]
theorem runFrom_run_pure (s : σ) (a : α) :
    runFrom s (pure a : ExceptT ε (StateM σ) α).run = (.ok a, s) := rfl

@[simp]
theorem runFrom_run_throw (s : σ) (e : ε) :
    runFrom s (throw e : ExceptT ε (StateM σ) α).run = (.error e, s) := rfl

@[simp]
theorem runFrom_run_lift (s : σ) (x : StateM σ α) :
    runFrom s (liftM x : ExceptT ε (StateM σ) α).run = (.ok (runFrom s x).1, (runFrom s x).2) :=
  rfl

@[simp]
theorem runFrom_lift (s : σ) (x : StateM σ α) :
    runFrom s (ExceptT.lift x : ExceptT ε (StateM σ) α).run =
      (.ok (runFrom s x).1, (runFrom s x).2) :=
  rfl

/-- A sequence stops at the first failure. -/
theorem runFrom_run_bind (s : σ) (x : ExceptT ε (StateM σ) α)
    (f : α → ExceptT ε (StateM σ) β) :
    runFrom s (x >>= f).run =
      match runFrom s x.run with
      | (.ok a, s') => runFrom s' (f a).run
      | (.error e, s') => (.error e, s') := by
  have hunfold : runFrom s (x >>= f).run =
      runFrom (runFrom s x.run).2 (ExceptT.bindCont f (runFrom s x.run).1) := rfl
  rw [hunfold]
  rcases runFrom s x.run with ⟨e | a, s'⟩ <;> rfl

/-- **A sequence succeeds when both of its parts do.** -/
theorem run_bind_eq_ok_iff {s s' : σ} {x : ExceptT ε (StateM σ) α}
    {f : α → ExceptT ε (StateM σ) β} {b : β} :
    runFrom s (x >>= f).run = (.ok b, s') ↔
      ∃ a s₁, runFrom s x.run = (.ok a, s₁) ∧ runFrom s₁ (f a).run = (.ok b, s') := by
  rw [runFrom_run_bind]
  constructor
  · rcases runFrom s x.run with ⟨e | a, s₁⟩
    · intro h
      cases h
    · intro h
      exact ⟨a, s₁, rfl, h⟩
  · rintro ⟨a, s₁, hx, hf⟩
    rw [hx]
    exact hf

/-- The same without a state. -/
theorem bind_eq_ok_iff {x : Except ε α} {f : α → Except ε β} {b : β} :
    x >>= f = .ok b ↔ ∃ a, x = .ok a ∧ f a = .ok b := by
  rcases x with e | a <;> simp [bind, Except.bind]

theorem eq_ok_get {r : Except ε α} (h : r.toOption.isSome = true) :
    r = .ok (r.toOption.get h) := by
  rcases r with e | a
  · cases h
  · rfl

/-- A run that succeeds, by its result. -/
theorem runFrom_eq_ok {s : σ} {x : ExceptT ε (StateM σ) α}
    (h : (runFrom s x.run).1.toOption.isSome = true) :
    runFrom s x.run = (.ok ((runFrom s x.run).1.toOption.get h), (runFrom s x.run).2) :=
  Prod.ext (eq_ok_get h) rfl

/-- A run that succeeds, by what is known of its result and of the state it leaves. -/
theorem exists_runFrom_eq_ok {s : σ} {x : ExceptT ε (StateM σ) α} {P : α → σ → Prop}
    (h : ∃ a ∈ (runFrom s x.run).1.toOption, P a (runFrom s x.run).2) :
    ∃ a s', runFrom s x.run = (.ok a, s') ∧ P a s' := by
  obtain ⟨a, ha, hP⟩ := h
  refine ⟨a, _, Prod.ext ?_ rfl, hP⟩
  rcases hresult : (runFrom s x.run).1 with e | a'
  · rw [hresult] at ha
    cases ha
  · rw [hresult] at ha
    exact congrArg _ (Option.mem_some_iff.mp ha)

/-! ### Loops -/

/-- A loop that cannot fail, with what holds when it has come by a part of the list. -/
theorem foldlM_induction {f : β → α → StateM σ β} (P : List α → β → σ → Prop) (l : List α)
    (hround : ∀ done a rest acc s, l = done ++ a :: rest → P done acc s →
      P (done ++ [a]) (runFrom s (f acc a)).1 (runFrom s (f acc a)).2)
    {init : β} (s : σ) (h : P [] init s) :
    P l (runFrom s (l.foldlM f init)).1 (runFrom s (l.foldlM f init)).2 := by
  have hfrom : ∀ (rest done : List α) (acc : β) (s : σ), l = done ++ rest → P done acc s →
      P l (runFrom s (rest.foldlM f acc)).1 (runFrom s (rest.foldlM f acc)).2 := by
    intro rest
    induction rest with
    | nil =>
      intro done acc s hl hdone
      obtain rfl : l = done := by simpa using hl
      exact hdone
    | cons a rest ih =>
      intro done acc s hl hdone
      rw [List.foldlM_cons, runFrom_bind]
      exact ih (done ++ [a]) _ _ (by simp [hl]) (hround done a rest acc s hl hdone)
  exact hfrom l [] init s rfl h

/-- A loop that cannot fail keeps what each of its rounds keeps. -/
theorem foldlM_keeps {f : β → α → StateM σ β} (P : β → Prop)
    (hround : ∀ acc a s, P acc → P (runFrom s (f acc a)).1) (l : List α) {init : β} (s : σ)
    (h : P init) : P (runFrom s (l.foldlM f init)).1 :=
  foldlM_induction (fun _ acc _ ↦ P acc) l (fun _ a _ acc s _ ↦ hround acc a s) s h

/-- A loop that succeeds, with what holds of its result when it has come by a part of the list. -/
theorem run_foldlM_induction {f : β → α → ExceptT ε (StateM σ) β} (P : List α → β → σ → Prop)
    (l : List α)
    (hround : ∀ done a rest acc acc' s s', l = done ++ a :: rest → P done acc s →
      runFrom s (f acc a).run = (.ok acc', s') → P (done ++ [a]) acc' s')
    {init acc : β} {s s' : σ} (h : P [] init s)
    (hrun : runFrom s (l.foldlM f init).run = (.ok acc, s')) : P l acc s' := by
  have hfrom : ∀ (rest done : List α) (acc₀ : β) (s : σ), l = done ++ rest → P done acc₀ s →
      runFrom s (rest.foldlM f acc₀).run = (.ok acc, s') → P l acc s' := by
    intro rest
    induction rest with
    | nil =>
      intro done acc₀ s hl hdone hrest
      obtain rfl : l = done := by simpa using hl
      obtain ⟨rfl, rfl⟩ : acc₀ = acc ∧ s = s' := by simpa using hrest
      exact hdone
    | cons a rest ih =>
      intro done acc₀ s hl hdone hrest
      rw [List.foldlM_cons] at hrest
      obtain ⟨acc₁, s₁, ha, hrest⟩ := run_bind_eq_ok_iff.mp hrest
      exact ih (done ++ [a]) acc₁ s₁ (by simp [hl]) (hround done a rest acc₀ acc₁ s s₁ hl hdone ha)
        hrest
  exact hfrom l [] init s rfl h hrun

/-- A loop does without the state when each of its rounds does. -/
theorem run_foldlM_blind {f : β → α → ExceptT ε (StateM σ) β} {l : List α}
    (h : ∀ a ∈ l, ∀ acc, ∃ r, ∀ s : σ, runFrom s (f acc a).run = (r, s)) (init : β) :
    ∃ r, ∀ s : σ, runFrom s (l.foldlM f init).run = (r, s) := by
  induction l generalizing init with
  | nil => exact ⟨.ok init, fun _ ↦ rfl⟩
  | cons a l ih =>
    obtain ⟨ha, hl⟩ := List.forall_mem_cons.mp h
    obtain ⟨e | acc, hfirst⟩ := ha init
    · exact ⟨.error e, fun s ↦ by rw [List.foldlM_cons, runFrom_run_bind, hfirst]⟩
    · obtain ⟨r, hrest⟩ := ih hl acc
      exact ⟨r, fun s ↦ by rw [List.foldlM_cons, runFrom_run_bind, hfirst]; exact hrest s⟩

/-- A loop that succeeds, with what holds when it has come by a part of the list. -/
theorem run_forIn_induction {f : α → PUnit → ExceptT ε (StateM σ) (ForInStep PUnit)}
    (P : List α → σ → Prop) (l : List α)
    (hround : ∀ done a rest s s' step, l = done ++ a :: rest → P done s →
      runFrom s (f a ()).run = (.ok step, s') → step = .yield () ∧ P (done ++ [a]) s')
    {s s' : σ} (h : P [] s) (hrun : runFrom s (forIn l () f).run = (.ok (), s')) : P l s' := by
  have hfrom : ∀ (rest done : List α) (s : σ), l = done ++ rest → P done s →
      runFrom s (forIn rest () f).run = (.ok (), s') → P l s' := by
    intro rest
    induction rest with
    | nil =>
      intro done s hl hdone hrest
      obtain rfl : l = done := by simpa using hl
      obtain rfl : s = s' := (Prod.mk.inj hrest).2
      exact hdone
    | cons a rest ih =>
      intro done s hl hdone hrest
      rw [List.forIn_cons] at hrest
      obtain ⟨step, s₁, ha, hrest⟩ := run_bind_eq_ok_iff.mp hrest
      obtain ⟨rfl, hdone'⟩ := hround done a rest s s₁ step hl hdone ha
      exact ih (done ++ [a]) _ (by simp [hl]) hdone' hrest
  exact hfrom l [] s rfl h hrun

/-- **A loop does the same as a fold** that succeeds or fails as its rounds do, where `P` holds. -/
theorem run_forIn_eq_ok_iff {f : α → PUnit → ExceptT ε (StateM σ) (ForInStep PUnit)}
    {g : σ → α → Except ε σ} (P : σ → Prop) (l : List α)
    (hround : ∀ a ∈ l, ∀ s s' step, P s →
      (runFrom s (f a ()).run = (.ok step, s') ↔ step = .yield () ∧ g s a = .ok s'))
    (hkeeps : ∀ a ∈ l, ∀ s s', P s → g s a = .ok s' → P s') {s s' : σ} (hs : P s) :
    runFrom s (forIn l () f).run = (.ok (), s') ↔ l.foldlM g s = .ok s' := by
  induction l generalizing s with
  | nil =>
    show ((.ok (), s) : Except ε PUnit × σ) = (.ok (), s') ↔ (.ok s : Except ε σ) = .ok s'
    simp
  | cons a l ih =>
    obtain ⟨ha, hl⟩ := List.forall_mem_cons.mp hround
    obtain ⟨hkeepsA, hkeepsL⟩ := List.forall_mem_cons.mp hkeeps
    rw [List.forIn_cons, List.foldlM_cons, run_bind_eq_ok_iff, bind_eq_ok_iff]
    constructor
    · rintro ⟨step, s₁, hfirst, hrest⟩
      obtain ⟨rfl, hg⟩ := (ha s s₁ step hs).mp hfirst
      exact ⟨s₁, hg, (ih hl hkeepsL (hkeepsA s s₁ hs hg)).mp hrest⟩
    · rintro ⟨s₁, hg, hrest⟩
      exact ⟨_, s₁, (ha s s₁ _ hs).mpr ⟨rfl, hg⟩, (ih hl hkeepsL (hkeepsA s s₁ hs hg)).mpr hrest⟩

end Scaffold
