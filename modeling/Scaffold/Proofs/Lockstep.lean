import Scaffold.Storage.Backend

/-!
# Computations in lockstep

A program that is written for every monad does the same in two of them, as far as a relation between
the two can tell that is kept by sequences (`Lockstep`): it only chooses which calls are made, and
it chooses by their answers. So if the calls of two backends are related, what is composed of these
calls is related too. What the calls are known to answer may be used on the way (`Together`).
-/

namespace Scaffold

variable {m n : Type → Type} [Monad m] [Monad n] {α β ε : Type}

/-- A relation between computations of two monads that answer the same, of which `answers` holds.
Sequences of related computations are related. -/
structure Lockstep (m n : Type → Type) [Monad m] [Monad n] where
  rel : {α : Type} → (answers : α → Prop) → m α → n α → Prop
  pure : ∀ {α : Type} {answers : α → Prop} {a : α}, answers a →
    rel answers (Pure.pure a) (Pure.pure a)
  bind : ∀ {α β : Type} {answers : α → Prop} {answers' : β → Prop} {x : m α} {y : n α}
    {f : α → m β} {g : α → n β}, rel answers x y → (∀ a, answers a → rel answers' (f a) (g a)) →
    rel answers' (x >>= f) (y >>= g)

namespace Lockstep

variable {r : Lockstep m n} {answers : α → Prop} {answers' : β → Prop}

/-- The two computations are related, and `answers` holds of what they answer. -/
def Together (r : Lockstep m n) (answers : α → Prop) (x : m α) (y : n α) : Prop :=
  r.rel answers x y

/-- The two computations are related, whatever they answer. -/
abbrev Same (r : Lockstep m n) (x : m α) (y : n α) : Prop := r.Together (fun _ ↦ True) x y

/-- The same for computations that can fail; `answers` is about those that succeed. -/
def TryTogether (r : Lockstep m n) (answers : α → Prop) (x : ExceptT ε m α) (y : ExceptT ε n α) :
    Prop :=
  r.Together (fun result ↦ ∀ a, result = .ok a → answers a) x.run y.run

/-- The two computations, which can fail, are related, whatever they answer. -/
abbrev TrySame (r : Lockstep m n) (x : ExceptT ε m α) (y : ExceptT ε n α) : Prop :=
  r.TryTogether (fun _ ↦ True) x y

namespace Together

variable {x : m α} {y : n α} {f : α → m β} {g : α → n β}

theorem pure {a : α} (h : answers a) : r.Together answers (Pure.pure a) (Pure.pure a) := r.pure h

theorem bind (hx : r.Together answers x y) (hf : ∀ a, answers a → r.Together answers' (f a) (g a)) :
    r.Together answers' (x >>= f) (y >>= g) :=
  r.bind hx hf

theorem mono [LawfulMonad m] [LawfulMonad n] {weaker : α → Prop} (h : r.Together answers x y)
    (himp : ∀ a, answers a → weaker a) : r.Together weaker x y := by
  have hbound := h.bind fun a ha ↦ pure (himp a ha)
  rwa [bind_pure, bind_pure] at hbound

/-- Rounds that run together make loops that do; what every round keeps, the loop keeps. -/
theorem foldlM {f : β → α → m β} {g : β → α → n β} {l : List α}
    (h : ∀ a ∈ l, ∀ acc, answers' acc → r.Together answers' (f acc a) (g acc a)) {init : β}
    (hinit : answers' init) : r.Together answers' (l.foldlM f init) (l.foldlM g init) := by
  induction l generalizing init with
  | nil => exact pure hinit
  | cons a l ih =>
    obtain ⟨ha, hl⟩ := List.forall_mem_cons.mp h
    rw [List.foldlM_cons, List.foldlM_cons]
    exact bind (ha init hinit) fun acc hacc ↦ ih hl hacc

end Together

theorem Same.foldlM {f : β → α → m β} {g : β → α → n β} {l : List α}
    (h : ∀ a ∈ l, ∀ acc, r.Same (f acc a) (g acc a)) (init : β) :
    r.Same (l.foldlM f init) (l.foldlM g init) :=
  Together.foldlM (fun a ha acc _ ↦ h a ha acc) trivial

namespace TryTogether

variable {x : ExceptT ε m α} {y : ExceptT ε n α} {f : α → ExceptT ε m β} {g : α → ExceptT ε n β}

theorem pure {a : α} (h : answers a) :
    r.TryTogether (ε := ε) answers (Pure.pure a) (Pure.pure a) := by
  refine Together.pure fun a' ha' ↦ ?_
  obtain rfl := Except.ok.inj ha'
  exact h

theorem throw (e : ε) : r.TryTogether answers (MonadExcept.throw e : ExceptT ε m α)
    (MonadExcept.throw e : ExceptT ε n α) := Together.pure nofun

/-- Sequences stop at the same failure. -/
theorem bind (hx : r.TryTogether answers x y)
    (hf : ∀ a, answers a → r.TryTogether answers' (f a) (g a)) :
    r.TryTogether answers' (x >>= f) (y >>= g) := by
  refine Together.bind hx fun result hresult ↦ ?_
  cases result with
  | ok a => exact hf a (hresult a rfl)
  | error e => exact Together.pure nofun

/-- What comes behind a failure does not matter. -/
theorem throw_bind (e : ε) : r.TryTogether answers' (MonadExcept.throw e >>= f)
    (MonadExcept.throw e >>= g) := by
  have hthrow : r.TryTogether (fun _ : α ↦ False) (MonadExcept.throw e) (MonadExcept.throw e) :=
    throw e
  exact bind hthrow fun _ ↦ False.elim

/-- A computation that cannot fail, as one that can. -/
theorem lift [LawfulMonad m] [LawfulMonad n] {x : m α} {y : n α} (h : r.Together answers x y) :
    r.TryTogether (ε := ε) answers (liftM x) (liftM y) := by
  show r.Together _ (Except.ok <$> x) (Except.ok <$> y)
  rw [map_eq_pure_bind, map_eq_pure_bind]
  refine Together.bind h fun a ha ↦ Together.pure fun a' ha' ↦ ?_
  obtain rfl := Except.ok.inj ha'
  exact ha

theorem foldlM {f : β → α → ExceptT ε m β} {g : β → α → ExceptT ε n β} {l : List α}
    (h : ∀ a ∈ l, ∀ acc, r.TrySame (f acc a) (g acc a)) (init : β) :
    r.TrySame (l.foldlM f init) (l.foldlM g init) := by
  induction l generalizing init with
  | nil => exact pure trivial
  | cons a l ih =>
    obtain ⟨ha, hl⟩ := List.forall_mem_cons.mp h
    rw [List.foldlM_cons, List.foldlM_cons]
    exact bind (ha init) fun acc _ ↦ ih hl acc

theorem forIn {f : α → PUnit → ExceptT ε m (ForInStep PUnit)}
    {g : α → PUnit → ExceptT ε n (ForInStep PUnit)} {l : List α}
    (h : ∀ a ∈ l, r.TrySame (f a ()) (g a ())) :
    r.TrySame (forIn l () f) (forIn l () g) := by
  induction l with
  | nil => exact pure trivial
  | cons a l ih =>
    obtain ⟨ha, hl⟩ := List.forall_mem_cons.mp h
    rw [List.forIn_cons, List.forIn_cons]
    refine bind ha fun step _ ↦ ?_
    cases step with
    | done => exact pure trivial
    | yield => exact ih hl

end TryTogether

/-! ### Recursions -/

/-- Computations that may have no outcome are related when the ones that say so are. -/
def partly (r : Lockstep m n) : Lockstep (OptionT m) (OptionT n) where
  rel answers x y := r.Together (fun outcome ↦ ∀ a, outcome = some a → answers a) x.run y.run
  pure h := Together.pure fun _ ha ↦ Option.some.inj ha ▸ h
  bind hx hf := Together.bind hx fun outcome houtcome ↦ by
    cases outcome with
    | none => exact Together.pure nofun
    | some a => exact hf a (houtcome a rfl)

theorem partly_lift {x : m α} {y : n α} (h : r.Same x y) :
    r.partly.Same (OptionT.lift x) (OptionT.lift y) :=
  Together.bind h fun _ _ ↦ Together.pure fun _ _ ↦ trivial

/-- **Attempts are related** when the steps make related computations of related ones. -/
theorem attempt {ι : Type} {step' : (ι → OptionT m α) → ι → OptionT m α}
    {step : (ι → OptionT n α) → ι → OptionT n α}
    (h : ∀ again' again, (∀ i, r.partly.Same (again' i) (again i)) →
      ∀ i, r.partly.Same (step' again' i) (step again i)) (depth : Nat) (i : ι) :
    r.partly.Same (Scaffold.attempt step' depth i) (Scaffold.attempt step depth i) := by
  induction depth generalizing i with
  | zero => exact Together.pure (r := r) nofun
  | succ depth ih => exact h _ _ ih i

/-- Recursions are related when their attempts are. -/
def Recurses (r : Lockstep m n) [Recursive m] [Recursive n] : Prop :=
  ∀ {ι α : Type} (endless : ι → α) {step' : (ι → OptionT m α) → ι → OptionT m α}
    {step : (ι → OptionT n α) → ι → OptionT n α},
    (∀ depth i, r.partly.Same (Scaffold.attempt step' depth i) (Scaffold.attempt step depth i)) →
      ∀ i, r.Same (Recursive.follow endless step' i) (Recursive.follow endless step i)

end Lockstep

/-! ### Backends -/

section Calls

variable {r : Lockstep m n} {c' : Calls m} {c : Calls n}

/-- The calls on one store are related to those on another. -/
structure Calls.Matches (r : Lockstep m n) (c' : Calls m) (c : Calls n) : Prop where
  exists_ : ∀ p, r.Same (c'.exists_ p) (c.exists_ p)
  mkdir : ∀ p recursive, r.TrySame (c'.mkdir p recursive) (c.mkdir p recursive)
  write : ∀ p bytes, r.TrySame (c'.write p bytes) (c.write p bytes)
  stat : ∀ p, r.TrySame (c'.stat p) (c.stat p)
  list : ∀ p, r.TrySame (c'.list p) (c.list p)
  rm : ∀ p recursive, r.TrySame (c'.rm p recursive) (c.rm p recursive)
  unlink : ∀ p, r.TrySame (c'.unlink p) (c.unlink p)
  copyFile : ∀ source target, r.TrySame (c'.copyFile source target) (c.copyFile source target)

namespace Lockstep

theorem existsAs {p : Path} (hstat : r.TrySame (c'.stat p) (c.stat p)) (kind : EntryKind) :
    r.Same (c'.existsAs p kind) (c.existsAs p kind) := by
  refine .bind hstat fun found _ ↦ ?_
  cases found <;> exact .pure trivial

variable [LawfulMonad m] [LawfulMonad n]

theorem ensureDir {p : Path} (hstat : r.TrySame (c'.stat p) (c.stat p))
    (hmkdir : r.TrySame (c'.mkdir p true) (c.mkdir p true)) :
    r.TrySame (c'.ensureDir p) (c.ensureDir p) := by
  refine .bind (.lift (existsAs hstat .directory)) fun there _ ↦ ?_
  cases there with
  | true => exact .pure trivial
  | false => exact hmkdir

/-- A computation that can fail, as another one that is related as a whole. -/
theorem TrySame.of_same {x : ExceptT ε m α} {y : ExceptT ε n α} (h : r.Same x.run y.run) :
    r.TrySame x y :=
  h.mono fun _ _ _ _ ↦ trivial

theorem TrySame.same {x : ExceptT ε m α} {y : ExceptT ε n α} (h : r.TrySame x y) :
    r.Same x.run y.run :=
  h.mono fun _ _ ↦ trivial

end Lockstep

namespace Calls.Matches

variable [LawfulMonad m] [LawfulMonad n]

/-- Where every call is related to itself in the other monad, all calls are. -/
theorem of_map {r : Lockstep m n} {lift : {α : Type} → n α → m α}
    (hlift : ∀ {α : Type} (x : n α), r.Same (lift x) x) (c : Calls n) :
    (c.map lift).Matches r c where
  exists_ _ := hlift _
  mkdir _ _ := .of_same (hlift _)
  write _ _ := .of_same (hlift _)
  stat _ := .of_same (hlift _)
  list _ := .of_same (hlift _)
  rm _ _ := .of_same (hlift _)
  unlink _ := .of_same (hlift _)
  copyFile _ _ := .of_same (hlift _)

variable {m' n' : Type → Type} [Monad m'] [Monad n'] [LawfulMonad m'] [LawfulMonad n']

/-- Related calls are related in other monads, too. -/
theorem map {r' : Lockstep m' n'} {lift' : {α : Type} → m α → m' α}
    {lift : {α : Type} → n α → n' α}
    (hlift : ∀ {α : Type} {x : m α} {y : n α}, r.Same x y → r'.Same (lift' x) (lift y))
    (h : c'.Matches r c) : (c'.map lift').Matches r' (c.map lift) where
  exists_ p := hlift (h.exists_ p)
  mkdir p recursive := .of_same (hlift (h.mkdir p recursive).same)
  write p bytes := .of_same (hlift (h.write p bytes).same)
  stat p := .of_same (hlift (h.stat p).same)
  list p := .of_same (hlift (h.list p).same)
  rm p recursive := .of_same (hlift (h.rm p recursive).same)
  unlink p := .of_same (hlift (h.unlink p).same)
  copyFile source target := .of_same (hlift (h.copyFile source target).same)

variable (h : c'.Matches r c)
include h

theorem ensureDir (p : Path) : r.TrySame (c'.ensureDir p) (c.ensureDir p) :=
  Lockstep.ensureDir (h.stat p) (h.mkdir p true)

theorem copyFolderStep {again' : Path → Path → Attempt m Unit}
    {again : Path → Path → Attempt n Unit}
    (hagain : ∀ source target, r.TrySame (again' source target) (again source target))
    (source target : Path) :
    r.TrySame (c'.copyFolderStep again' source target) (c.copyFolderStep again source target) := by
  refine .bind (h.ensureDir target) fun _ _ ↦ .bind (h.list source) fun listing _ ↦
    .bind (.forIn fun entry _ ↦ ?_) fun _ _ ↦ .pure trivial
  cases entry.kind with
  | directory => exact .bind (hagain _ _) fun _ _ ↦ .pure trivial
  | file => exact .bind (h.copyFile _ _) fun _ _ ↦ .pure trivial

/-- Attempts to copy a folder are related. -/
theorem attempt_copyFolder (depth : Nat) (paths : Path × Path) :
    r.partly.Same (attempt c'.copyFolderPair depth paths) (attempt c.copyFolderPair depth paths) :=
  Lockstep.attempt (fun _ _ hagain (source, target) ↦
    ((h.map Lockstep.partly_lift).copyFolderStep
      (fun source target ↦ .of_same (hagain (source, target))) source target).same) depth paths

theorem copyFolder [Recursive m] [Recursive n] (hr : r.Recurses) (source target : Path) :
    r.TrySame (c'.copyFolder source target) (c.copyFolder source target) :=
  .of_same (hr _ h.attempt_copyFolder (source, target))

end Calls.Matches

/-- The calls of one backend are related to those of another; those that transfer whole folders,
where the target does not lie in the source. -/
structure Backend.Matches (r : Lockstep m n) (b' : Backend m) (b : Backend n) : Prop
    extends b'.toCalls.Matches r b.toCalls where
  copyFolder : ∀ source target : Path, target.startsWith source = false →
    r.TrySame (b'.copyFolder source target) (b.copyFolder source target)
  moveFolder : ∀ source target : Path, target.startsWith source = false →
    r.TrySame (b'.moveFolder source target) (b.moveFolder source target)

/-- Stores that transfer folders by related calls are related. -/
theorem Calls.Matches.backend [LawfulMonad m] [LawfulMonad n] [Recursive m] [Recursive n]
    (h : c'.Matches r c) (hr : r.Recurses) : c'.backend.Matches r c.backend where
  toMatches := h
  copyFolder source target _ := h.copyFolder hr source target
  moveFolder source target _ := .bind (h.copyFolder hr source target) fun _ _ ↦ h.rm source true

end Calls

end Scaffold
