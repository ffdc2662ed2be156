import Scaffold.Proofs.Execution.Run
import Scaffold.Proofs.Plan.Listing
import Scaffold.Proofs.Transfer.Carry

/-!
# Included operations

A directory is transferred entry by entry when the operation for it makes an empty directory and the
included operations behind it fill that (`Includes`). Each operation that succeeds carries what is
at its source to its target (`Includes.step`). So when there is no warning all is carried along, one
after the other, and the source of a move is removed behind that
(`Includes.carriedAlong_executePlan`).

Where the targets lie makes no difference to this. What is at the target of a file in the end is
what one of the files that were carried there had (`CarriedAlong.file_target`), and when each entry
keeps its place, the entries are carried over from one directory to the other
(`CarriedAlong.carriedOver`).
-/

namespace Scaffold

variable {σ : Type} {b : Backend (StateM σ)} {view : σ → MemoryStore}

namespace Execution

open Planner Transfer

variable {plan : Plan} {op o : Operation} {source target q : Path} {store : MemoryStore}
  {items : List (List EntryName × Operation)} {done : List Operation}

/-! ### The move that is pending -/

/-- **A directory with included operations** is opened for them. -/
theorem Transfers.opened (hb : Serves b view) {last : Nat} {pending : Option PendingMove} {s s' : σ}
    (hdir : (view s).kindOf? source = some .directory)
    (h : Transfers b (some last) op source s pending s') :
    pending = (if op.kind = .move then some ⟨last, source, true⟩ else none) ∧
      ∃ s₁, view s₁ = view s ∧ runFrom s₁ (b.ensureDir op.target).run = (.ok (), s') := by
  cases h with
  | file hstat hfile =>
    have hfound := (hb.stat_ok hstat).2
    rw [hdir, hfile] at hfound
    cases hfound
  | whole _ _ _ hlast => cases hlast
  | opens hstat _ _ hlast hensure =>
    obtain rfl := Option.some.inj hlast
    exact ⟨rfl, _, (hb.stat_ok hstat).1, hensure⟩

/-- In front of position `n` nothing is skipped, and a move is pending until the last operation. -/
structure Underway (op : Operation) (source : Path) (last n : Nat) (run : Run) : Prop where
  skipThrough : run.skipThrough = none
  pending : run.pending = if op.kind = .move ∧ 0 < n then [⟨last, source, true⟩] else []

section Underway

variable {last n i : Nat} {run run' : Run} {s s' : σ}

/-- **A transfer that succeeds** has made the directory. -/
theorem Underway.opens (hb : Serves b view) (h : Underway op source last 0 run)
    (hkind : op.kind = .copy ∨ op.kind = .move) (hsource : op.source = some source)
    (hlast : plan.includedEnd? i = some last) (hdir : (view s).kindOf? source = some .directory)
    (hstep : Steps b plan i op run s run' s')
    (hlog : run'.log = run.log.push (op.logged .succeeded)) :
    Underway op source last 1 run' ∧
      ∃ s₁, view s₁ = view s ∧ runFrom s₁ (b.ensureDir op.target).run = (.ok (), s') := by
  obtain ⟨pending, s₁, hexists, htransfers, rfl⟩ := hstep.of_succeeded hlog hkind hsource
  have hview : view s₁ = view s := hb.exists_ok hexists
  rw [hlast] at htransfers
  obtain ⟨hpending, s₂, hview₂, hensure⟩ := htransfers.opened hb (hview ▸ hdir)
  refine ⟨⟨h.skipThrough, ?_⟩, s₂, hview₂.trans hview, hensure⟩
  have hnil : run.pending = [] := by simpa using h.pending
  simp only [Run.record, hnil, hpending]
  split <;> simp [*]

/-- **An included operation that succeeds** changes nothing about the move. -/
theorem Underway.includes (h : Underway op source last (n + 1) run) (hkind : o.kind = .included)
    {p : Path} (hsource : o.source = some p) (hstep : Steps b plan i o run s run' s')
    (hlog : run'.log = run.log.push (o.logged .succeeded)) :
    Underway op source last (n + 2) run' ∧ runFrom s (tryInclude b o p).run = (.ok (), s') := by
  obtain ⟨hok, rfl⟩ := hstep.of_included hlog hkind hsource
  exact ⟨⟨h.skipThrough, by simpa [Run.record] using h.pending⟩, hok⟩

/-- The move ends behind the last operation only. -/
theorem Underway.ahead (h : Underway op source last n run) (hn : n ≤ last) :
    ∀ p ∈ run.pending, n ≤ p.last := by
  intro p hp
  rw [h.pending] at hp
  split at hp
  · obtain rfl := List.mem_singleton.mp hp
    exact hn
  · cases hp

end Underway

/-! ### What is carried along -/

/-- An included operation carries its entry over. -/
theorem carry_of_tryInclude (hb : Serves b view) {names : List EntryName} {s s' : σ}
    (htarget : op.target ≈ target.under names)
    (hok : runFrom s (tryInclude b op (source.under names)).run = (.ok (), s')) :
    Carry source target (names, .ofIsDirectory op.isDirectory) (view s) (view s') := by
  obtain ⟨there, s₁, hthere, hok⟩ := run_bind_eq_ok_iff.mp hok
  have hview : view s₁ = view s := by
    rw [runFrom_run_lift] at hthere
    rw [← (Prod.mk.inj hthere).2]
    exact (hb.exists_ _ s).1
  rw [← hview]
  split at hok
  · split at hok
    · rename_i hdir
      rw [hdir]
      exact carry_of_ensureDir hb htarget hok
    · rename_i hfile
      rw [Bool.not_eq_true] at hfile
      rw [hfile]
      obtain ⟨⟨⟩, s₂, hparent, hcopy⟩ := run_bind_eq_ok_iff.mp hok
      exact carry_of_copyFile hb rfl htarget (hb.ensureParent_ok hparent) hcopy
  · cases hok

/-- What is at the source of each operation is carried to its target, one after the other. -/
inductive CarriedAlong (store : MemoryStore) : List Operation → MemoryStore → Prop where
  | start : CarriedAlong store [] store
  | next {done : List Operation} {o : Operation} {p : Path} {s s' : MemoryStore}
    (h : CarriedAlong store done s) (hsource : o.source = some p)
    (hcarry : Carry p o.target ([], .ofIsDirectory o.isDirectory) s s') :
    CarriedAlong store (done ++ [o]) s'

theorem ofIsDirectory_eq_file_iff {isDirectory : Bool} :
    EntryKind.ofIsDirectory isDirectory = .file ↔ isDirectory = false := by
  cases isDirectory <;> simp [EntryKind.ofIsDirectory]

namespace CarriedAlong

variable {s : MemoryStore}

theorem kindOf?_keeps (h : CarriedAlong store done s) {kind : EntryKind}
    (hq : store.kindOf? q = some kind) : s.kindOf? q = some kind := by
  induction h with
  | start => exact hq
  | next _ _ hcarry ih => exact hcarry.kindOf?_keeps ih

/-- A file that is not carried to keeps its bytes. -/
theorem file_elsewhere (h : CarriedAlong store done s)
    (hq : ∀ o ∈ done, o.isDirectory = false → ¬o.target ≈ q) (bytes : ByteArray) :
    s.node? q = some (.file bytes) ↔ store.node? q = some (.file bytes) := by
  induction h with
  | start => exact Iff.rfl
  | @next done o p s s' _ _ hcarry ih =>
    have hlast : EntryKind.ofIsDirectory o.isDirectory = .file → ¬o.target ≈ q := fun hkind ↦
      hq o (by simp) (ofIsDirectory_eq_file_iff.mp hkind)
    rw [hcarry.file_elsewhere hlast, ih fun o ho ↦ hq o (List.mem_append_left _ ho)]

/-- **What is at the target of a file** is what one of the files that were carried there had at
first, if no source is the target of a file. -/
theorem file_target (h : CarriedAlong store done s)
    (hapart : ∀ o ∈ done, o.isDirectory = false → ∀ o' ∈ done, ∀ p, o'.source = some p →
      ¬o.target ≈ p) (ho : o ∈ done) (hfile : o.isDirectory = false) :
    ∃ o' ∈ done, o'.isDirectory = false ∧ o'.target ≈ o.target ∧
      ∃ p bytes, o'.source = some p ∧ store.node? p = some (.file bytes) ∧
        s.node? o.target = some (.file bytes) := by
  induction h with
  | start => cases ho
  | @next done last p s s' h hsource hcarry ih =>
    by_cases hlast : last.isDirectory = false ∧ last.target ≈ o.target
    -- the file that was carried last is the one
    · obtain ⟨hkind, hplace⟩ := hlast
      rw [hkind] at hcarry
      obtain ⟨bytes, hread⟩ := hcarry.exists_file
      refine ⟨last, by simp, hkind, hplace, p, bytes, hsource, ?_, ?_⟩
      · refine (h.file_elsewhere (fun o' ho' hkind' ↦ ?_) bytes).mp hread
        exact hapart o' (List.mem_append_left _ ho') hkind' last (by simp) p hsource
      · rw [← s'.node?_congr hplace]
        exact (hcarry.file_target bytes).mpr hread
    · have hmem : o ∈ done := by
        rcases List.mem_append.mp ho with hmem | hmem
        · exact hmem
        · obtain rfl := List.mem_singleton.mp hmem
          exact absurd ⟨hfile, rfl⟩ hlast
      obtain ⟨o', ho', hkind, hplace, p', bytes, hsource', hstored, hthere⟩ :=
        ih (fun o₁ h₁ hkind o₂ h₂ ↦ hapart o₁ (List.mem_append_left _ h₁) hkind o₂
          (List.mem_append_left _ h₂)) hmem
      refine ⟨o', List.mem_append_left _ ho', hkind, hplace, p', bytes, hsource', hstored, ?_⟩
      refine (hcarry.file_elsewhere (fun hkind' hplace' ↦ hlast ⟨?_, hplace'⟩) bytes).mpr hthere
      exact ofIsDirectory_eq_file_iff.mp hkind'

/-- What is carried along without being renamed is carried over. -/
theorem carriedOver (h : CarriedAlong store done s) (hdone : items.map Prod.snd = done)
    (hplaced : ∀ x ∈ items, x.2.source = some (source.under x.1) ∧ x.2.target ≈ target.under x.1) :
    CarriedOver source target store
      (items.map fun x ↦ (x.1, .ofIsDirectory x.2.isDirectory)) s := by
  induction h generalizing items with
  | start =>
    rw [List.map_eq_nil_iff.mp hdone]
    exact .start
  | next _ hsource hcarry ih =>
    obtain ⟨earlier, last, rfl, hearlier, hlast⟩ := List.map_eq_append_iff.mp hdone
    obtain ⟨x, rfl, rfl⟩ := List.map_eq_singleton_iff.mp hlast
    obtain ⟨hfrom, hto⟩ := hplaced x (by simp)
    rw [List.map_append]
    refine (ih hearlier fun y hy ↦ hplaced y (List.mem_append_left _ hy)).next ?_
    exact hcarry.below (Option.some.inj (hsource.symm.trans hfrom)) hto

end CarriedAlong

/-! ### The run -/

/-- The plan transfers the directory `source` by the operation `op`, which makes a directory, and
the included operations `inside`, which fill it. -/
structure Includes (plan : Plan) (op : Operation) (source : Path) (inside : List Operation) :
    Prop where
  operations : plan.operations = op :: inside
  last : plan.includedEnd? 0 = some inside.length
  kind : op.kind = .copy ∨ op.kind = .move
  isDirectory : op.isDirectory = true
  source_eq : op.source = some source
  included : ∀ o ∈ inside, o.kind = .included ∧ ∃ p, o.source = some p

section Runs

variable {inside : List Operation}

/-- The operations for what is in a directory are included behind the one for the directory. -/
theorem includes_of_walk {rules : RenameRules}
    (hoperations : plan.operations = op :: items.map Prod.snd)
    (hlast : plan.includedEnd? 0 = some items.length) (hkind : op.kind = .copy ∨ op.kind = .move)
    (hname : op.isDirectory = true) (hsource : op.source = some source)
    (hwalk : Walk store rules source op.target (fun _ ↦ True) items) :
    Includes plan op source (items.map Prod.snd) := by
  refine ⟨hoperations, by simpa using hlast, hkind, hname, hsource, fun o ho ↦ ?_⟩
  obtain ⟨x, hx, rfl⟩ := List.mem_map.mp ho
  exact ⟨(hwalk.carries x hx).kind_eq, _, (hwalk.carries x hx).source_eq⟩

theorem Includes.length_eq (h : Includes plan op source inside) :
    plan.operations.length = inside.length + 1 := by simp [h.operations]

/-- **One operation carries one entry along**, if it succeeds. -/
theorem Includes.step (hb : Serves b view) (hplan : Includes plan op source inside)
    (hdir : store.node? source = some .dir) {n : Nat} {run run' : Run} {s s' : σ}
    (ho : plan.operations[n]? = some o)
    (hcarried : CarriedAlong store (plan.operations.take n) (view s))
    (h : Underway op source inside.length n run) (hstep : Steps b plan n o run s run' s')
    (hlog : run'.log = run.log.push (o.logged .succeeded)) :
    CarriedAlong store (plan.operations.take (n + 1)) (view s') ∧
      Underway op source inside.length (n + 1) run' := by
  rw [List.take_add_one, ho]
  rcases n with - | n
  · obtain rfl : op = o := by simpa [hplan.operations] using ho
    have hthere : (view s).kindOf? source = some .directory :=
      hcarried.kindOf?_keeps (MemoryStore.kindOf?_eq_directory_iff.mpr (.inr hdir))
    obtain ⟨hunderway, s₁, hview, hensure⟩ :=
      h.opens hb hplan.kind hplan.source_eq hplan.last hthere hstep hlog
    refine ⟨hcarried.next hplan.source_eq ?_, hunderway⟩
    rw [hplan.isDirectory, ← hview]
    exact carry_of_ensureDir hb rfl hensure
  · have hmem : o ∈ inside := List.mem_of_getElem? (by simpa [hplan.operations] using ho)
    obtain ⟨hkind, p, hp⟩ := hplan.included o hmem
    obtain ⟨hunderway, hok⟩ := h.includes hkind hp hstep hlog
    exact ⟨hcarried.next hp (carry_of_tryInclude hb rfl hok), hunderway⟩

/-- **What has been carried along in front of an operation**, unless there is a warning. -/
theorem Includes.carriedAlong_runBefore (hb : Serves b view) {s : σ}
    (hplan : Includes plan op source inside) (hdir : (view s).node? source = some .dir)
    (hquiet : (runFrom s (executePlan b plan)).1.warnings = []) {n : Nat} (hn : n ≤ inside.length) :
    let before := runFrom s (runBefore b plan n)
    CarriedAlong (view s) (plan.operations.take n) (view before.2) ∧
      Underway op source inside.length n before.1 := by
  have hlength := hplan.length_eq
  induction n with
  | zero =>
    rw [runBefore_zero, runFrom_pure, start_eq]
    exact ⟨.start, rfl, by simp⟩
  | succ n ih =>
    obtain ⟨hcarried, hunderway⟩ := ih (Nat.le_of_succ_le hn)
    obtain ⟨o, ho⟩ : ∃ o, plan.operations[n]? = some o :=
      ⟨_, List.getElem?_eq_getElem (by omega)⟩
    have hquiet' := quiet_runBefore hquiet (n := n + 1) (by omega)
    rw [runBefore_succ b plan ho, runFrom_bind] at hquiet' ⊢
    simp only [advance, runFrom_bind] at hquiet' ⊢
    have hstep := step_cases b plan n o (runFrom s (runBefore b plan n)).1
      (runFrom s (runBefore b plan n)).2
    have hlog := hstep.succeeded_of_quiet (by simp [Run.skips, hunderway.skipThrough])
      ((continues_settleMoves n _ _).quiet hquiet')
    obtain ⟨hnext, hunderway'⟩ := hplan.step hb hdir ho hcarried hunderway hstep hlog
    rw [settleMoves_of_ahead n fun p hp ↦ Nat.ne_of_gt (hunderway'.ahead hn p hp)]
    exact ⟨hnext, hunderway'⟩

/-- **All is carried along, and then the source of a move is removed**, unless there is a
warning. -/
theorem Includes.carriedAlong_executePlan (hb : Serves b view) {s : σ}
    (hplan : Includes plan op source inside) (hdir : (view s).node? source = some .dir)
    (hquiet : (runFrom s (executePlan b plan)).1.warnings = []) :
    let final := view (runFrom s (executePlan b plan)).2
    ∃ s₁, CarriedAlong (view s) plan.operations s₁ ∧
      if op.kind = .move then s₁.rm source true = .ok final else s₁ = final := by
  have hlength := hplan.length_eq
  obtain ⟨o, ho⟩ : ∃ o, plan.operations[inside.length]? = some o :=
    ⟨_, List.getElem?_eq_getElem (by omega)⟩
  obtain ⟨hcarried, hunderway⟩ := hplan.carriedAlong_runBefore hb hdir hquiet le_rfl
  simp only [runFrom_executePlan hlength ho s, Run.report] at hquiet ⊢
  have hsettled : _ = #[] := Array.toList_eq_nil_iff.mp hquiet
  have hstep := step_cases b plan inside.length o (runFrom s (runBefore b plan inside.length)).1
    (runFrom s (runBefore b plan inside.length)).2
  have hlog := hstep.succeeded_of_quiet (by simp [Run.skips, hunderway.skipThrough])
    ((continues_settleMoves inside.length _ _).quiet hsettled)
  obtain ⟨hall, hdone⟩ := hplan.step hb hdir ho hcarried hunderway hstep hlog
  rw [List.take_of_length_le (by omega)] at hall
  refine ⟨_, hall, ?_⟩
  have hpending := hdone.pending
  split
  · rename_i hmove
    rw [if_pos ⟨hmove, Nat.succ_pos _⟩] at hpending
    rw [settleMoves_of_single hpending rfl] at hsettled ⊢
    rw [settle_of_intact rfl]
    exact (hb.rm source true _ _).1 (Prod.ext (settle_of_quiet rfl hsettled) rfl)
  · rename_i hcopy
    rw [if_neg fun h ↦ hcopy h.1] at hpending
    rw [settleMoves_of_ahead _ (by simp [hpending])]

end Runs

end Execution

end Scaffold
