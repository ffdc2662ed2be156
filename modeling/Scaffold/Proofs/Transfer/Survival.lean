import Scaffold.Proofs.Execution.Account
import Scaffold.Proofs.Store.Frame
import Scaffold.Proofs.Transfer.Directory
import Scaffold.Proofs.Transfer.Entries
import Scaffold.Proofs.Transfer.File

/-!
# What failures leave of a move

A move copies first and removes last, and where something cannot be copied an empty entry takes its
place. When neither path lies in the other, no file is lost by this, whatever calls fail: at the end
every file whose names are texts is where it was, or in its new place (`move_survives`). A name that
is no text is read as another one, and when that is stored too, the file under the name that is none
is lost (`move_loses_broken_name`).

An operation that does not succeed stays in its place (`confined_step`), which is away from the
source. So while a directory is moved entry by entry, there are two possibilities only. Everything
in front has been carried over, or the move is given up, and then the source is as it was and is not
removed any more (`Guarded.step`). Whatever is moved by one operation is carried over as a whole
before its source is removed (`survives_single`). Either way a file is carried over if the names
that lead to it are texts, because then a walk is told of it (`mem_told_of_texts`,
`carries_copyFolderWithin`).
-/

namespace Scaffold.Execution

open Planner Transfer MemoryStore

variable {σ : Type} {b : Backend (StateM σ)} {view : σ → MemoryStore} {plan : Plan}
  {op : Operation} {source : Path} {store : MemoryStore}
  {items : List (List EntryName × Operation)}

/-! ### Operations that do not succeed -/

/-- **A transfer that fails** has removed nothing, because it removes the source last. -/
theorem failing_tryTransfer (hb : Serves b view) (last? : Option Nat) (op : Operation)
    (source : Path) :
    LeadsFailing view (ConfinedBelow op.target) (tryTransfer b last? op source) := by
  refine .bind (hb.stat source).leads fun found ↦ ?_
  split
  · refine .bind (hb.leads_ensureParent _) fun _ ↦
      .bind (hb.leads_copyFile (fun _ ↦ Path.startsWith_of_equiv) _) fun _ ↦ ?_
    dsimp only
    split
    · exact (hb.unlink source).leadsFailing.bind_pure _
    · exact (Leads.pure _).failing
  · dsimp only
    split
    · exact .throw_bind _ _
    · split
      · exact (Leads.bind (hb.leads_ensureDir _) fun _ ↦ .pure _).failing
      · split
        · refine LeadsFailing.bind_pure ?_ _
          rw [hb.byCalls.moveFolder_eq]
          exact .bind (hb.leads_copyFolder _ _) fun _ ↦ (hb.rm source true).leadsFailing
        · exact (Leads.bind (hb.leads_copyFolder _ _) fun _ ↦ .pure _).failing

/-- Making an empty entry stays in the place of the operation. -/
theorem confined_makeEmpty (hb : Serves b view) (op : Operation) (s : σ) :
    ConfinedBelow op.target (view s) (view (runFrom s (makeEmpty b op).run).2) :=
  hb.leads_makeEmpty (fun _ ↦ Path.startsWith_of_equiv) s

/-- Falling back from what was confined stays in the place of the operation. -/
theorem confined_fallBack (hb : Serves b view) {s : σ} (reason : String) (marked : Run)
    (h : ConfinedBelow op.target store (view s)) :
    ConfinedBelow op.target store (view (runFrom s (fallBack b op reason marked)).2) := by
  have hstate : (runFrom s (fallBack b op reason marked)).2 =
      (runFrom s (makeEmpty b op).run).2 := by
    simp only [fallBack, runFrom_bind]
    split <;> rfl
  rw [hstate]
  exact IsTrans.trans _ _ _ h (confined_makeEmpty hb op s)

/-- A transfer stays in its place or succeeds. -/
theorem confined_transfer (hb : Serves b view) (plan : Plan) (i : Nat) (op : Operation)
    (source : Path) (run : Run) (s : σ) :
    let next := runFrom s (transfer b plan i op source run)
    ConfinedBelow op.target (view s) (view next.2) ∨
      next.1.log = run.log.push (op.logged .succeeded) := by
  have hview := (hb.exists_ source s).1
  simp only [transfer, transferReason, runFrom_bind]
  rcases hexists : runFrom s (b.exists_ source) with ⟨there, s₁⟩
  rw [hexists] at hview
  rw [← hview]
  rcases there with - | -
  · simp only [Bool.false_eq_true, if_false, runFrom_pure]
    split <;> exact .inl (confined_fallBack hb _ _ (refl _))
  · simp only [if_true, runFrom_bind]
    rcases htry : runFrom s₁ (tryTransfer b (plan.includedEnd? i) op source).run with
      ⟨e | pending, s₂⟩
    · have hfailed := failing_tryTransfer hb _ op source s₁ e s₂ htry
      simp only [runFrom_pure]
      split <;> exact .inl (confined_fallBack hb _ _ hfailed)
    · exact .inr rfl

theorem confined_include (hb : Serves b view) (i : Nat) (op : Operation) (source : Path)
    (run : Run) (s : σ) :
    ConfinedBelow op.target (view s) (view (runFrom s (include_ b i op source run)).2) := by
  have htry : ConfinedBelow op.target (view s) (view (runFrom s (tryInclude b op source).run).2) :=
    hb.leads_tryInclude (fun _ ↦ Path.startsWith_of_equiv) source s
  simp only [include_, runFrom_bind]
  rcases hrun : runFrom s (tryInclude b op source).run with ⟨e | ⟨⟩, s₁⟩
  · rw [hrun] at htry
    exact confined_fallBack hb _ _ htry
  · rw [hrun] at htry
    exact htry

theorem confined_create (hb : Serves b view) (op : Operation) (run : Run) (s : σ) :
    ConfinedBelow op.target (view s) (view (runFrom s (create b op run)).2) := by
  have hmade := confined_makeEmpty hb op s
  simp only [create, runFrom_bind]
  split <;> exact hmade

/-- **An operation stays in its place**, unless it is a transfer that succeeds. -/
theorem confined_step (hb : Serves b view) (plan : Plan) (i : Nat) (op : Operation) (run : Run)
    (s : σ) :
    let next := runFrom s (step b plan i op run)
    ConfinedBelow op.target (view s) (view next.2) ∨
      (op.kind = .copy ∨ op.kind = .move) ∧ next.1.log = run.log.push (op.logged .succeeded) := by
  simp only [step]
  split
  · exact .inl (refl _)
  · split
    · exact .inl (confined_create hb op run s)
    · exact .inl (confined_create hb op run s)
    · exact (confined_transfer hb plan i op _ run s).imp_right fun h ↦ ⟨.inl ‹_›, h⟩
    · exact (confined_transfer hb plan i op _ run s).imp_right fun h ↦ ⟨.inr ‹_›, h⟩
    · exact .inl (confined_include hb i op _ run s)

/-! ### Entry by entry -/

/-- An included operation that does not succeed spoils the moves around it. -/
theorem Steps.spoils {i : Nat} {run run' : Run} {s s' : σ} (h : Steps b plan i op run s run' s')
    (hkind : op.kind = .included) (hsource : op.source ≠ none) (hskips : run.skips i op = false)
    (hlog : run'.log ≠ run.log.push (op.logged .succeeded)) {p : PendingMove}
    (hp : p ∈ run'.pending) (hlast : i ≤ p.last) : p.intact = false := by
  cases h with
  | skips h => simp [hskips] at h
  | creates => exact absurd rfl hlog
  | transfers => exact absurd rfl hlog
  | includes => exact absurd rfl hlog
  | falls hmarked =>
    cases hmarked with
    | alone halone => exact absurd (halone hkind) hsource
    | abandons hown => exact absurd hkind hown
    | spoils =>
      obtain ⟨p', -, rfl⟩ := List.mem_map.mp hp
      split
      · rfl
      · rename_i hbefore
        rw [if_neg hbefore] at hlast
        exact absurd hlast hbefore

/-- A transfer that does not succeed makes nothing pending. -/
theorem Steps.pending_eq {i : Nat} {run run' : Run} {s s' : σ}
    (h : Steps b plan i op run s run' s') (hkind : op.kind ≠ .included)
    (hlog : run'.log ≠ run.log.push (op.logged .succeeded)) : run'.pending = run.pending := by
  cases h with
  | skips => rfl
  | creates => rfl
  | includes => rfl
  | transfers => exact absurd rfl hlog
  | falls hmarked =>
    cases hmarked with
    | alone => rfl
    | abandons => rfl
    | spoils h => exact absurd h hkind

/-- What holds in front of position `n` when a directory is moved entry by entry, whatever has
failed: all that is in front has been carried over, or the move is given up and every file is where
it was. -/
inductive Guarded (store : MemoryStore) (op : Operation) (source : Path)
    (items : List (List EntryName × Operation)) (n : Nat) (run : Run) (s : MemoryStore) :
    Prop where
  | filling (h : Filling store op source items n run s)
  | givenUp (hn : 0 < n) (hkeeps : KeepsFiles store source source s)
    (hspoiled : ∀ p ∈ run.pending, p.intact = false)

/-- Files that are carried over are still in the source. -/
theorem Filling.keeps {n : Nat} {run : Run} {s : MemoryStore}
    (h : Filling store op source items n run s) (houtside : op.target.startsWith source = false)
    (hbeside : source.startsWith op.target = false) : KeepsFiles store source source s := by
  intro names bytes hfile
  refine (h.carried.file_elsewhere (fun x _ _ hplace ↦ ?_) bytes).mpr hfile
  have hapart := Path.under_startsWith_of_beside houtside hbeside x.1
  rw [Path.startsWith_of_under hplace] at hapart
  cases hapart

/-- An operation that stays in its place leaves the files of the source alone. -/
theorem keeps_of_confined {p target : Path} {s s' : MemoryStore}
    (hkeeps : KeepsFiles store source source s) (h : ConfinedBelow p s s')
    (names : List EntryName) (hp : p ≈ target.under names)
    (houtside : target.startsWith source = false) (hbeside : source.startsWith target = false) :
    KeepsFiles store source source s' := by
  intro more bytes hfile
  rw [h.node?_beside hp houtside hbeside]
  exact hkeeps more bytes hfile

/-- **No operation of a move loses a file**, whatever fails. -/
theorem Guarded.step (hb : Serves b view) (hplan : ByEntries store plan op source items)
    (houtside : op.target.startsWith source = false) (hbeside : source.startsWith op.target = false)
    {n : Nat} {o : Operation} {run : Run} {s : σ} (ho : plan.operations[n]? = some o)
    (h : Guarded store op source items n run (view s)) :
    let next := runFrom s (step b plan n o run)
    Guarded store op source items (n + 1) next.1 (view next.2) := by
  intro next
  have hstep : Steps b plan n o run s next.1 next.2 := step_cases b plan n o run s
  -- behind the first operation there are only included ones
  have hincluded : ∀ m, n = m + 1 → ∃ x ∈ items, x.2 = o := by
    rintro m rfl
    obtain ⟨x, hx, hxo⟩ : ∃ x, items[m]? = some x ∧ x.2 = o := by
      simpa [hplan.operations] using ho
    exact ⟨x, List.mem_of_getElem? hx, hxo⟩
  have hplace : ∃ names, o.target ≈ op.target.under names := by
    rcases n with - | n
    · obtain rfl : op = o := by simpa [hplan.operations] using ho
      exact ⟨[], rfl⟩
    · obtain ⟨x, hx, rfl⟩ := hincluded n rfl
      exact ⟨x.1, (hplan.included x hx).2.2⟩
  obtain ⟨names, hnames⟩ := hplace
  have hconfined := confined_step hb plan n o run s
  cases h with
  | filling h =>
    by_cases hlog : next.1.log = run.log.push (o.logged .succeeded)
    · exact .filling (h.step hb hplan ho hstep hlog)
    have hkeeps := keeps_of_confined (h.keeps houtside hbeside)
      (hconfined.resolve_right fun hsucceeded ↦ hlog hsucceeded.2) names hnames houtside hbeside
    refine .givenUp (Nat.succ_pos n) hkeeps fun p hp ↦ ?_
    rcases n with - | n
    · obtain rfl : op = o := by simpa [hplan.operations] using ho
      have hown : op.kind ≠ .included := by
        rcases hplan.kind with h | h <;> simp [h]
      rw [hstep.pending_eq hown hlog, h.pending] at hp
      simp at hp
    · obtain ⟨x, hx, rfl⟩ := hincluded n rfl
      obtain ⟨hkind, hsource, -⟩ := hplan.included x hx
      obtain ⟨p', hp', -, hlast, -⟩ | ⟨hmove, -⟩ := hstep.pending_cases hp
      · refine hstep.spoils hkind (by simp [hsource])
          (by simp [Run.skips, h.skipThrough]) hlog hp ?_
        rw [← hlast]
        have hlength := hplan.length_eq
        have hn := (List.getElem?_eq_some_iff.mp ho).1
        exact h.ahead (by omega) p' hp'
      · simp [hkind] at hmove
  | givenUp hn hkeeps hspoiled =>
    obtain ⟨m, rfl⟩ : ∃ m, n = m + 1 := ⟨n - 1, by omega⟩
    obtain ⟨x, hx, rfl⟩ := hincluded m rfl
    have hkind := (hplan.included x hx).1
    refine .givenUp (Nat.succ_pos _) (keeps_of_confined hkeeps
      (hconfined.resolve_right fun hown ↦ by simp [hkind] at hown) names hnames houtside hbeside)
      fun p hp ↦ ?_
    obtain ⟨p', hp', -, -, hintact⟩ | ⟨hmove, -⟩ := hstep.pending_cases hp
    · rw [← Bool.not_eq_true]
      intro hp
      rw [hspoiled p' hp'] at hintact
      cases hintact hp
    · simp [hkind] at hmove

/-- **In front of every operation no file is lost**, whatever has failed. -/
theorem guarded_runBefore (hb : Serves b view) {s : σ}
    (hplan : ByEntries (view s) plan op source items)
    (houtside : op.target.startsWith source = false) (hbeside : source.startsWith op.target = false)
    {n : Nat} (hn : n ≤ items.length) :
    Guarded (view s) op source items n (runFrom s (runBefore b plan n)).1
      (view (runFrom s (runBefore b plan n)).2) := by
  have hlength := hplan.length_eq
  induction n with
  | zero =>
    rw [runBefore_zero, runFrom_pure, start_eq]
    exact .filling ⟨.start, rfl, by simp⟩
  | succ n ih =>
    obtain ⟨o, ho⟩ : ∃ o, plan.operations[n]? = some o :=
      ⟨_, List.getElem?_eq_getElem (by omega)⟩
    have hguarded := (ih (Nat.le_of_succ_le hn)).step hb hplan houtside hbeside ho
    rw [runBefore_succ b plan ho, runFrom_bind]
    simp only [advance, runFrom_bind]
    cases hguarded with
    | filling h =>
      rw [settleMoves_of_ahead n fun p hp ↦ Nat.ne_of_gt (h.ahead hn p hp)]
      exact .filling h
    | givenUp hpos hkeeps hspoiled =>
      obtain ⟨added, hsettled⟩ := settleMoves_eq b n
        (runFrom (runFrom s (runBefore b plan n)).2
          (Execution.step b plan n o (runFrom s (runBefore b plan n)).1)).1
        (runFrom (runFrom s (runBefore b plan n)).2
          (Execution.step b plan n o (runFrom s (runBefore b plan n)).1)).2
      rw [settleMoves_of_spoiled n hspoiled, hsettled]
      exact .givenUp hpos hkeeps fun p hp ↦ hspoiled p (List.mem_filter.mp hp).1

/-- Every file below `source` to which texts lead is there below `target`, with its bytes. -/
def KeepsTexts (store : MemoryStore) (source target : Path) (s : MemoryStore) : Prop :=
  ∀ names bytes, (∀ name ∈ names, name.isText = true) →
    store.node? (source.under names) = some (.file bytes) →
    s.node? (target.under names) = some (.file bytes)

/-- What has been carried over stays when the source is removed. -/
theorem keepsTexts_rm {target : Path} {done : List Entry} {s s' : MemoryStore}
    (h : CarriedOver source target store done s) (hdir : store.node? source = some .dir)
    (houtside : target.startsWith source = false) (hbeside : source.startsWith target = false)
    (htexts : ∀ names bytes, (∀ name ∈ names, name.isText = true) → names ≠ [] →
      store.node? (source.under names) = some (.file bytes) → (names, .file) ∈ done)
    (hrm : s.rm source true = .ok s') : KeepsTexts store source target s' := by
  intro names bytes htext hfile
  have hne : names ≠ [] := by
    rintro rfl
    cases hdir.symm.trans hfile
  obtain ⟨s'', hrm', hview⟩ :=
    rm_directory (h.kindOf?_keeps (kindOf?_eq_directory_iff.mpr (.inr hdir)))
  obtain rfl := Except.ok.inj (hrm.symm.trans hrm')
  rw [hview, if_neg (by simp [Path.under_startsWith_of_beside houtside hbeside names])]
  exact h.file_beside houtside hbeside (htexts names bytes htext hne hfile) hfile

/-- **A directory that is moved entry by entry** has all of its files where they were, or all of
those in their new places that texts lead to. -/
theorem survives_byEntries (hb : Serves b view) {s : σ} (hwf : (view s).WellFormed)
    (hplan : ByEntries (view s) plan op source items)
    (htold : items.map toldBy = (view s).told source ((view s).depth + 1) [])
    (hmove : op.kind = .move) (houtside : op.target.startsWith source = false)
    (hbeside : source.startsWith op.target = false) :
    let final := view (runFrom s (executePlan b plan)).2
    KeepsFiles (view s) source source final ∨ KeepsTexts (view s) source op.target final := by
  obtain ⟨o, ho⟩ : ∃ o, plan.operations[items.length]? = some o :=
    ⟨_, List.getElem?_eq_getElem (by simp [hplan.length_eq])⟩
  have hguarded := (guarded_runBefore hb hplan houtside hbeside le_rfl).step hb hplan houtside
    hbeside ho
  simp only [runFrom_executePlan hplan.length_eq ho s]
  set next := runFrom (runFrom s (runBefore b plan items.length)).2
    (Execution.step b plan items.length o (runFrom s (runBefore b plan items.length)).1)
  cases hguarded with
  | givenUp _ hkeeps hspoiled =>
    rw [settleMoves_of_spoiled _ hspoiled]
    exact .inl hkeeps
  | filling h =>
    have hpending := h.pending
    rw [if_pos ⟨hmove, Nat.succ_pos _⟩] at hpending
    rw [settleMoves_of_single hpending rfl, settle_of_intact rfl]
    have hall : (entriesOf items).take (items.length + 1) = entriesOf items :=
      List.take_of_length_le (by simp [entriesOf])
    -- the removal is made, or it changes nothing
    rcases hrm : runFrom next.2 (b.rm source true).run with ⟨e | ⟨⟩, s'⟩
    · refine .inl ?_
      rw [(hb.rm source true _ _).2 e hrm]
      exact h.keeps houtside hbeside
    · refine .inr (keepsTexts_rm (hall ▸ h.carried) hplan.dir houtside hbeside ?_
        ((hb.rm source true _ _).1 hrm))
      intro names bytes htext hne hfile
      have hlength := length_le_depth hfile
      rw [Path.parts_under, List.length_append, List.length_map] at hlength
      rw [entriesOf, htold]
      have hsource : (view s).kindOf? (source.under []) = some .directory :=
        kindOf?_eq_directory_iff.mpr (.inr hplan.dir)
      have htold' : ([] ++ names, .file) ∈ (view s).told source ((view s).depth + 1) [] :=
        mem_told_of_texts hwf hsource hne htext (by omega) hfile
      exact List.mem_cons_of_mem _ htold'

/-! ### As a whole -/

/-- **A directory that is copied as a whole** has every file carried over to which texts lead. -/
theorem carries_copyFolderWithin (hb : Serves b view) (hwf : store.WellFormed) {target : Path}
    (houtside : target.startsWith source = false) (hbeside : source.startsWith target = false)
    (depth : Nat) {dir : List EntryName} {done : List Entry} {s s' : σ}
    (h : CarriedOver source target store done (view s))
    (hok : runFrom s (b.toCalls.copyFolderWithin depth (source.under dir) (target.under dir)).run =
      (.ok (), s')) :
    ∃ block, CarriedOver source target store (done ++ block) (view s') ∧
      ∀ names bytes, (∀ name ∈ names, name.isText = true) → names ≠ [] →
        store.node? (source.under (dir ++ names)) = some (.file bytes) →
        (dir ++ names, .file) ∈ block := by
  induction depth generalizing dir done s s' with
  | zero => cases hok
  | succ depth ih =>
    obtain ⟨⟨⟩, s₁, hensure, hok⟩ := run_bind_eq_ok_iff.mp hok
    obtain ⟨listing, s₂, hlist, hok⟩ := run_bind_eq_ok_iff.mp hok
    obtain ⟨⟨⟩, s₃, hloop, hok⟩ := run_bind_eq_ok_iff.mp hok
    obtain rfl : s₃ = s' := by simpa using hok
    obtain ⟨hview, hlist⟩ := (hb.list _).ok hlist
    have hopened : CarriedOver source target store (done ++ [(dir, .directory)]) (view s₁) :=
      h.next (carry_of_ensureDir hb rfl hensure)
    have hstill := hopened.still houtside hbeside
    -- a file is carried over with the entry that is listed under the first name
    have hdone : ∃ block, CarriedOver source target store (done ++ block) (view s₃) ∧
        ∀ name more bytes, (∀ name ∈ more, name.isText = true) →
          (⟨name, if more = [] then .file else .directory⟩ : DirEntry) ∈ listing →
          store.node? (source.under (dir ++ name :: more)) = some (.file bytes) →
          (dir ++ name :: more, .file) ∈ block := by
      refine run_forIn_induction (fun earlier s ↦ ∃ block,
        CarriedOver source target store (done ++ block) (view s) ∧
          ∀ name more bytes, (∀ name ∈ more, name.isText = true) →
            (⟨name, if more = [] then .file else .directory⟩ : DirEntry) ∈ earlier →
            store.node? (source.under (dir ++ name :: more)) = some (.file bytes) →
            (dir ++ name :: more, .file) ∈ block)
        listing ?_ ⟨[(dir, .directory)], hview ▸ hopened, by simp⟩ hloop
      rintro earlier ⟨name, kind⟩ later s s' step - ⟨block, hcarried, hblock⟩ hround
      -- what the entry adds to what has been carried over
      have hnext : ∀ more, CarriedOver source target store (done ++ (block ++ more)) (view s') →
          (∀ names bytes, (∀ name ∈ names, name.isText = true) →
            kind = (if names = [] then .file else .directory) →
            store.node? (source.under (dir ++ name :: names)) = some (.file bytes) →
            (dir ++ name :: names, .file) ∈ more) →
          ∃ block, CarriedOver source target store (done ++ block) (view s') ∧
            ∀ name' more bytes, (∀ name ∈ more, name.isText = true) →
              (⟨name', if more = [] then .file else .directory⟩ : DirEntry) ∈
                earlier ++ [⟨name, kind⟩] →
              store.node? (source.under (dir ++ name' :: more)) = some (.file bytes) →
              (dir ++ name' :: more, .file) ∈ block := by
        intro more hcarried hmore
        refine ⟨_, hcarried, fun name' names bytes htext hentry hfile ↦ ?_⟩
        rw [List.mem_append] at hentry ⊢
        refine hentry.imp (fun h ↦ hblock name' names bytes htext h hfile) fun h ↦ ?_
        obtain ⟨rfl, hkind⟩ := DirEntry.mk.inj (List.mem_singleton.mp h)
        exact hmore names bytes htext hkind.symm hfile
      split at hround
      · rename_i hdirectory
        obtain rfl : kind = .directory := hdirectory
        obtain ⟨⟨⟩, s₄, hcopy, hround⟩ := run_bind_eq_ok_iff.mp hround
        obtain ⟨rfl, rfl⟩ : ForInStep.yield PUnit.unit = step ∧ s₄ = s' := by simpa using hround
        rw [← Path.under_snoc, ← Path.under_snoc] at hcopy
        obtain ⟨more, hcarried', hmore⟩ := ih hcarried hcopy
        rw [List.append_assoc] at hcarried'
        refine ⟨rfl, hnext more hcarried' fun names bytes htext hkind hfile ↦ ?_⟩
        have hne : names ≠ [] := by
          rintro rfl
          cases hkind
        rw [List.append_cons] at hfile ⊢
        exact hmore names bytes htext hne hfile
      · rename_i hfile
        obtain rfl : kind = .file := hfile
        obtain ⟨⟨⟩, s₄, hcopy, hround⟩ := run_bind_eq_ok_iff.mp hround
        obtain ⟨rfl, rfl⟩ : ForInStep.yield PUnit.unit = step ∧ s₄ = s' := by simpa using hround
        have hcarry : Carry source target (dir ++ [name], .file) (view s) (view s₄) :=
          carry_of_copyFile hb (Path.under_snoc source dir name).symm (by rw [Path.under_snoc])
            (.refl _ _) hcopy
        refine ⟨rfl, hnext [(dir ++ [name], .file)] ?_ fun names bytes _ hkind _ ↦ ?_⟩
        · rw [← List.append_assoc]
          exact hcarried.next hcarry
        · obtain rfl : names = [] := by
            by_contra hne
            rw [if_neg hne] at hkind
            cases hkind
          exact List.mem_singleton.mpr rfl
    obtain ⟨block, hcarried, hblock⟩ := hdone
    refine ⟨block, hcarried, fun names bytes htext hne hfile ↦ ?_⟩
    obtain ⟨name, more, rfl⟩ := List.exists_cons_of_ne_nil hne
    obtain ⟨hname, hmore⟩ := List.forall_mem_cons.mp htext
    refine hblock name more bytes hmore ((mem_listing_iff hlist _).mpr ⟨name, ?_⟩) hfile
    rw [EntryName.listed_eq_self_iff.mpr hname, ← Path.under_snoc, hstill]
    rcases more with - | ⟨next, more⟩
    · exact ⟨_, hfile, rfl⟩
    · rw [List.append_cons, Path.under_append, Path.under_snoc] at hfile
      rw [Path.under_snoc]
      exact ⟨.dir, hwf.dir_of_under hfile, rfl⟩

/-- **What is moved by one operation** has all of its files where they were, or all of those in
their new places that texts lead to. -/
theorem survives_single (hb : Serves b view) {s : σ} (hwf : (view s).WellFormed)
    (hplan : plan.operations = [op]) (hmove : op.kind = .move) (hsource : op.source = some source)
    {node : StoredNode} (hnode : (view s).node? source = some node)
    (houtside : op.target.startsWith source = false)
    (hbeside : source.startsWith op.target = false) :
    let final := view (runFrom s (executePlan b plan)).2
    KeepsFiles (view s) source source final ∨ KeepsTexts (view s) source op.target final := by
  have hend : plan.includedEnd? 0 = none := by simp [Plan.includedEnd?, hplan]
  rw [runFrom_executePlan_single b hplan s]
  have hstep := step_cases b plan 0 op (start plan) s
  have hconfined := confined_step hb plan 0 op (start plan) s
  set next := runFrom s (step b plan 0 op (start plan))
  by_cases hlog : next.1.log = (start plan).log.push (op.logged .succeeded)
  · obtain ⟨pending, s₁, hexists, htransfers, -⟩ := hstep.of_succeeded hlog (.inr hmove) hsource
    rw [hend] at htransfers
    have hview : view s₁ = view s := hb.exists_ok hexists
    rw [← hview] at hwf hnode ⊢
    have hroot : source.isRoot = false := by
      rw [Bool.eq_false_iff, Ne, Path.isRoot_iff]
      exact (hwf.parent hnode).2.1
    cases node with
    | dir =>
      obtain ⟨-, s₂, s₃, hsame, hcopy, hremoved⟩ :=
        htransfers.folder hb (kindOf?_eq_directory_iff.mpr (.inr hnode))
      rw [if_pos hmove] at hremoved
      obtain ⟨depth, hdepth⟩ := b.exists_copyFolderWithin source op.target s₂
      rw [hb.byCalls.copyFolder_eq, hdepth, ← source.under_nil, ← op.target.under_nil] at hcopy
      have hstart : CarriedOver source op.target (view s₁) [] (view s₂) := hsame ▸ .start
      obtain ⟨block, hcarried, hblock⟩ :=
        carries_copyFolderWithin hb hwf houtside hbeside depth hstart hcopy
      exact .inr (keepsTexts_rm hcarried hnode houtside hbeside hblock
        ((hb.rm source true _ _).1 hremoved))
    | file bytes =>
      obtain ⟨-, -, hkeeps⟩ := htransfers.file_view hb hnode hroot
      refine .inr fun names bytes' _ hfile ↦ ?_
      -- there is nothing in a file
      rcases names with - | ⟨name, more⟩
      · obtain rfl := StoredNode.file.inj (Option.some.inj (hnode.symm.trans hfile))
        refine (hkeeps hmove).mpr fun hsame ↦ ?_
        rw [Path.startsWith_of_equiv hsame] at houtside
        cases houtside
      · have hdir := hwf.directory_above hfile (hwf.parent hnode).1 (by simp)
          (Path.parts_under source (name :: more))
        rw [kindOf?_of_node? hroot hnode] at hdir
        cases hdir
  · exact .inl (keeps_of_confined (fun _ _ ↦ id)
      (hconfined.resolve_right fun hsucceeded ↦ hlog hsucceeded.2) [] rfl houtside hbeside)

/-! ### Either way -/

/-- A directory with two files in it. -/
def twoDrafts : MemoryStore :=
  (MemoryStore.empty.withFile (.ofText "/r/src/a.txt") ⟨#[97]⟩).withFile (.ofText "/r/src/b.txt")
    ⟨#[98]⟩

theorem wellFormed_twoDrafts : twoDrafts.WellFormed := by
  decide +kernel

/-- The operation for the line that moves it. -/
def draftsMove : Operation :=
  ⟨.move, .ofText "/r/dst", some (.ofText "/r/src"), true, 0, "dst", none, none⟩

/-- The plan for that line. -/
def draftsMovePlan : Except PlanError Plan × MemoryStore :=
  runFrom twoDrafts (Planner.plan MemoryStore.backend (fun _ ↦ none) { root := .ofText "/r" }
    "(src) > dst").run

theorem isOneLine_draftsMove : IsOneLine (fun _ ↦ none) { root := .ofText "/r" } "(src) > dst"
    draftsMove :=
  ⟨["(src) > dst"], ⟨1, .none, .move "src" (some "dst")⟩, by decide +kernel⟩

/-- The name of the second file. -/
def secondDraft : EntryName := .spelled "b.txt" (by decide +kernel)

/-- A directory with two files in it. The name of the one is no text, and it is listed as that of
the other. -/
def twoNames : MemoryStore :=
  (MemoryStore.empty.withFile ((Path.ofText "/a").child .broken) ⟨#[49]⟩).withFile
    ((Path.ofText "/a").child EntryName.broken.listed) ⟨#[50]⟩

/-- The operation for the line that moves it. -/
def namesMove : Operation :=
  ⟨.move, .ofText "/b", some (.ofText "/a"), true, 0, "b", none, none⟩

end Scaffold.Execution
