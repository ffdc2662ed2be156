import Scaffold.Proofs.Transfer.Entries
import Scaffold.Proofs.Transfer.Survival

/-!
# Entry by entry and as a whole

A directory is transferred in one of two ways. Its entries are listed while the transfer is planned,
and each has an operation of its own, or one operation walks through the directory when it is
executed and meets them in the store as it is then. In memory, when neither the source nor the
target lies in the other, the two do the same (`byEntries_agrees_whole`).

They are not compared with each other but with a third thing: all that a walk through the source is
told is carried over, one entry after the other (`carryAll`). A run succeeds throughout exactly if
that does, and leaves the same (`Performs`), whichever way it was planned (`performs_plan`).

For a walk through the directory this is known of copying. The operations of a plan go through what
is told in lockstep with the fold (`InStep`): all operations up to a position have succeeded and
left what the fold leaves, or one has not and the fold has failed. Behind a failure the two have no
more to do with each other.

An operation only asks whether there is something under the names that it was told (`IsThere`), and
carrying over takes what leads back, with the kind that it was told. In the end that is the same:
what is there is told as what it is too, and nothing can be carried over in two kinds
(`carryAll_isThere_iff`).
-/

namespace Scaffold.Execution

open Planner Transfer MemoryStore

variable {plan : Plan} {op : Operation} {source : Path} {store s s' : MemoryStore}
  {items : List (List EntryName × Operation)}

/-- The run succeeds throughout exactly if the update does, and it leaves what that answers. -/
structure Performs (update : Update) (report : Report) (final : MemoryStore) : Prop where
  succeeds : (∀ e ∈ report.log, e.outcome = .succeeded) ↔ ∃ s, update = .ok s
  leaves : ∀ s, update = .ok s → final = s

/-! ### As one operation -/

theorem Transfers.carryAll_eq (hwf : store.WellFormed)
    (hbeside : source.startsWith op.target = false) (hdir : store.node? source = some .dir)
    {pending : Option PendingMove} (h : Transfers backend none op source store pending s') :
    carryAll op source (toldOfAll store source) store = .ok s' := by
  obtain ⟨houtside, s₁, s₂, hsame, hcopy, hremoved⟩ :=
    h.folder serves_backend (kindOf?_eq_directory_iff.mpr (.inr hdir))
  obtain rfl : s₁ = store := hsame
  refine carryAll_eq_ok_iff.mpr
    ⟨s₂, (run_copyFolder_eq_ok_iff_told hwf houtside hbeside hdir).mp hcopy, ?_⟩
  split at hremoved
  · rename_i hmove
    rw [if_pos hmove]
    exact run_changing_eq_ok_iff.mp hremoved
  · rename_i hmove
    rwa [if_neg hmove]

theorem run_tryTransfer_of_carryAll (hwf : store.WellFormed)
    (houtside : op.target.startsWith source = false)
    (hbeside : source.startsWith op.target = false) (hdir : store.node? source = some .dir)
    (h : carryAll op source (toldOfAll store source) store = .ok s') :
    runFrom store (tryTransfer backend none op source).run = (.ok none, s') := by
  obtain ⟨s₁, hcarried, hrest⟩ := carryAll_eq_ok_iff.mp h
  have hcopy := (run_copyFolder_eq_ok_iff_told hwf houtside hbeside hdir).mpr hcarried
  obtain ⟨found, hfound, hkind⟩ :=
    store.stat_of_kindOf? source (kindOf?_eq_directory_iff.mpr (.inr hdir))
  simp only [tryTransfer, runFrom_run_bind, runFrom_stat, hfound, hkind, houtside,
    Bool.false_eq_true, if_false]
  split at hrest
  · rename_i hmove
    have hmoved : runFrom store (backend.moveFolder source op.target).run = (.ok (), s') :=
      run_bind_eq_ok_iff.mpr ⟨(), s₁, hcopy, run_changing_eq_ok_iff.mpr hrest⟩
    rw [if_pos hmove, runFrom_run_bind, hmoved]
    rfl
  · rename_i hmove
    obtain rfl := hrest
    rw [if_neg hmove, runFrom_run_bind, hcopy]
    rfl

/-- The only operation of a plan leaves the only entry in the log. -/
theorem log_of_single (hplan : plan.operations = [op]) {entry : LogEntry}
    (hlog : (runFrom store (step backend plan 0 op (start plan))).1.log =
      (start plan).log.push entry) :
    (runFrom store (executePlan backend plan)).1.log = [entry] := by
  rw [runFrom_executePlan_single backend hplan, Run.report, hlog, start_eq]
  rfl

/-- **A transfer as a whole** carries over all that is told, or it does not succeed. -/
theorem performs_whole (hwf : store.WellFormed) (hplan : plan.operations = [op])
    (hkind : op.kind = .copy ∨ op.kind = .move) (hsource : op.source = some source)
    (hdir : store.node? source = some .dir) (houtside : op.target.startsWith source = false)
    (hbeside : source.startsWith op.target = false) :
    let out := runFrom store (executePlan backend plan)
    Performs (carryAll op source (toldOfAll store source) store) out.1 out.2 := by
  intro out
  have hend : plan.includedEnd? 0 = none := by simp [Plan.includedEnd?, hplan]
  have hexists : runFrom store (backend.exists_ source) = (true, store) := by
    rw [runFrom_exists, kindOf?_eq_directory_iff.mpr (.inr hdir)]
    rfl
  have hsteps := step_cases backend plan 0 op (start plan) store
  obtain ⟨outcome, hpushed⟩ := hsteps.log_eq
  -- what can be carried over is transferred
  have hmade : ∀ s', carryAll op source (toldOfAll store source) store = .ok s' →
      runFrom store (step backend plan 0 op (start plan)) =
        ((start plan).record op .succeeded, s') := by
    intro s' hcarried
    have htry := run_tryTransfer_of_carryAll hwf houtside hbeside hdir hcarried
    rw [← hend] at htry
    rw [step_of_transfers hkind hsource hexists htry]
    simp
  refine ⟨?_, fun s' hcarried ↦ ?_⟩
  · rw [log_of_single hplan hpushed, List.forall_mem_singleton]
    constructor
    · intro hsucceeded
      rw [show outcome = .succeeded from hsucceeded] at hpushed
      obtain ⟨pending, s₁, hthere, htransfers, -⟩ := hsteps.of_succeeded hpushed hkind hsource
      obtain rfl := (Prod.mk.inj (hexists.symm.trans hthere)).2
      rw [hend] at htransfers
      exact ⟨_, htransfers.carryAll_eq hwf hbeside hdir⟩
    · rintro ⟨s', hcarried⟩
      rw [hmade s' hcarried] at hpushed
      exact (outcome_of_push hpushed).symm
  · show (runFrom store (executePlan backend plan)).2 = s'
    rw [runFrom_executePlan_single backend hplan, hmade s' hcarried]

/-! ### Entry by entry -/

/-- There is something under the names. -/
def IsThere (store : MemoryStore) (source : Path) (x : Entry) : Prop :=
  (store.kindOf? (source.under x.1)).isSome = true

instance (store : MemoryStore) (source : Path) : DecidablePred (IsThere store source) :=
  fun _ ↦ inferInstanceAs (Decidable (_ = _))

/-- **What is told can be carried over if something is there** exactly if it can be where it leads
back, because nothing is carried over in two kinds. -/
theorem carryAll_isThere_iff {target : Path} (hdir : store.node? source = some .dir) :
    (toldOfAll store source).foldlM (carryIf (IsThere store source) source target) store = .ok s ↔
      (toldOfAll store source).foldlM (carryIf (LeadsBack store source) source target) store =
        .ok s := by
  rw [carryAllIf_eq_ok_iff, carryAllIf_eq_ok_iff]
  refine and_congr_left fun hfold ↦ ⟨fun hthere x hx ↦ ?_, fun hback x hx ↦ ?_⟩
  swap
  · rw [IsThere, show store.kindOf? (source.under x.1) = some x.2 from hback x hx]
    rfl
  rcases List.mem_cons.mp hx with rfl | htold
  · exact kindOf?_eq_directory_iff.mpr (.inr hdir)
  obtain ⟨names, kind⟩ := x
  obtain ⟨dir, name, rfl⟩ := (List.eq_nil_or_concat' names).resolve_left (ne_nil_of_mem_told htold)
  obtain ⟨found, hfound⟩ := Option.isSome_iff_exists.mp (hthere _ hx)
  have hnode := hfound
  rw [kindOf?_of_not_root (Path.isRoot_under_snoc _ _ _)] at hnode
  obtain ⟨n, hn, rfl⟩ := Option.map_eq_some_iff.mp hnode
  -- what is there is told too
  have hothers : (dir ++ [name], n.kind) ∈ toldOfAll store source :=
    List.mem_cons_of_mem _ (mem_told_of_node? htold hn)
  have hcarried := carriedOver_of_carryAll hfold
  have hne : (target.under (dir ++ [name])).parts ≠ [] := by simp
  have hkind : some n.kind = some kind :=
    (hcarried.kindOf?_target hothers hne).symm.trans (hcarried.kindOf?_target hx hne)
  exact hfound.trans hkind

/-- An included operation carries its entry over if something is there, where the directory around
it is there. -/
theorem run_tryInclude_eq_ok_iff {target : Path} {names : List EntryName} {name : EntryName}
    (htarget : op.target = target.under (names ++ [name]))
    (haround : s.kindOf? (target.under names) = some .directory) :
    runFrom s (tryInclude backend op (source.under (names ++ [name]))).run = (.ok (), s') ↔
      (s.kindOf? (source.under (names ++ [name]))).isSome = true ∧
        carryEntry source target s (names ++ [name], .ofIsDirectory op.isDirectory) = .ok s' := by
  by_cases hthere : (s.kindOf? (source.under (names ++ [name]))).isSome = true
  swap
  · refine iff_of_false (fun h ↦ ?_) fun h ↦ hthere h.1
    simp only [tryInclude, runFrom_run_bind, runFrom_run_lift, runFrom_exists, hthere] at h
    cases h
  rw [and_iff_right hthere]
  have hask : runFrom s (tryInclude backend op (source.under (names ++ [name]))).run =
      runFrom s (if op.isDirectory then backend.ensureDir op.target
        else do
          ensureParent backend op.target
          backend.copyFile (source.under (names ++ [name])) op.target :
          Attempt (StateM MemoryStore) Unit).run := by
    simp only [tryInclude, runFrom_run_bind, runFrom_run_lift, runFrom_exists, hthere, if_true]
  rw [hask]
  cases hname : op.isDirectory with
  | true =>
    rw [if_pos rfl, run_ensureDir_eq_ok_iff, htarget]
    rfl
  | false =>
    have hparts : op.target.parts = (target.under names).parts ++ [.entry name] := by simp [htarget]
    obtain ⟨parent, hparent, hsame⟩ := Path.parent?_of_parts hparts
    rw [← s.kindOf?_congr hsame] at haround
    rw [if_neg (by simp), runFrom_run_bind, runFrom_ensureParent hparent haround, htarget]
    exact run_changing_eq_ok_iff

/-- A directory that is opened for its included operations is created. -/
theorem run_tryTransfer_of_mkdir (hdir : s.kindOf? source = some .directory)
    (houtside : op.target.startsWith source = false) (last : Nat)
    (h : s.mkdir op.target true = .ok s') :
    runFrom s (tryTransfer backend (some last) op source).run =
      (.ok (if op.kind = .move then some ⟨last, source, true⟩ else none), s') := by
  obtain ⟨found, hfound, hkind⟩ := s.stat_of_kindOf? source hdir
  simp only [tryTransfer, runFrom_run_bind, runFrom_stat, hfound, hkind, houtside,
    Bool.false_eq_true, if_false, run_ensureDir_eq_ok_iff.mpr h]
  rfl

/-- **Opening a directory** succeeds exactly if it can be created. -/
theorem step_opens_iff {i last : Nat} {run : Run} (hkind : op.kind = .copy ∨ op.kind = .move)
    (hsource : op.source = some source) (hend : plan.includedEnd? i = some last)
    (hdir : s.kindOf? source = some .directory) (houtside : op.target.startsWith source = false) :
    let next := runFrom s (step backend plan i op run)
    next.1.log = run.log.push (op.logged .succeeded) ∧ next.2 = s' ↔
      s.mkdir op.target true = .ok s' := by
  intro next
  have hexists : runFrom s (backend.exists_ source) = (true, s) := by
    rw [runFrom_exists, hdir]
    rfl
  constructor
  · rintro ⟨hlog, rfl⟩
    obtain ⟨pending, s₁, hthere, htransfers, -⟩ :=
      (step_cases backend plan i op run s).of_succeeded hlog hkind hsource
    obtain rfl := (Prod.mk.inj (hexists.symm.trans hthere)).2
    rw [hend] at htransfers
    obtain ⟨-, s₂, hsame, hensure⟩ := htransfers.opened serves_backend hdir
    obtain rfl : s₂ = s := hsame
    exact run_ensureDir_eq_ok_iff.mp hensure
  · intro hmade
    have htry := run_tryTransfer_of_mkdir hdir houtside last hmade
    rw [← hend] at htry
    have hnext : next = _ := step_of_transfers hkind hsource hexists htry
    exact ⟨congrArg (Run.log ∘ Prod.fst) hnext, congrArg Prod.snd hnext⟩

/-- **Including an entry** succeeds exactly if something is there and can be carried over, where the
directory around it is there. -/
theorem step_includes_iff {target : Path} {names : List EntryName} {name : EntryName} {i : Nat}
    {run : Run} (hkind : op.kind = .included)
    (hsource : op.source = some (source.under (names ++ [name])))
    (htarget : op.target = target.under (names ++ [name])) (hskip : run.skipThrough = none)
    (haround : s.kindOf? (target.under names) = some .directory) :
    let next := runFrom s (step backend plan i op run)
    next.1.log = run.log.push (op.logged .succeeded) ∧ next.2 = s' ↔
      (s.kindOf? (source.under (names ++ [name]))).isSome = true ∧
        carryEntry source target s (names ++ [name], .ofIsDirectory op.isDirectory) = .ok s' := by
  intro next
  rw [← run_tryInclude_eq_ok_iff htarget haround]
  constructor
  · rintro ⟨hlog, rfl⟩
    exact ((step_cases backend plan i op run s).of_included hlog hkind hsource).1
  · intro htry
    have hnext : next = _ := step_of_included hkind hsource (by simp [Run.skips, hskip]) htry
    exact ⟨congrArg (Run.log ∘ Prod.fst) hnext, congrArg Prod.snd hnext⟩

section InStep

variable (hplan : ByEntries store plan op source items)
  (htold : items.map toldBy = store.told source (store.depth + 1) [])
  (hplaced : ∀ x ∈ items, x.2.target = op.target.under x.1)
  (houtside : op.target.startsWith source = false) (hbeside : source.startsWith op.target = false)

include hplan htold hplaced houtside hbeside

/-- **An operation succeeds exactly if its entry is there and can be carried over**, when everything
in front of it has been. -/
theorem step_succeeds_iff {n : Nat} {o : Operation} {run : Run}
    (ho : plan.operations[n]? = some o) (h : Filling store op source items n run s)
    (hfold : ((entriesOf items).take n).foldlM (carryIf (IsThere store source) source op.target)
      store = .ok s)
    {x : Entry} (hx : (entriesOf items)[n]? = some x) :
    let next := runFrom s (step backend plan n o run)
    next.1.log = run.log.push (o.logged .succeeded) ∧ next.2 = s' ↔
      carryIf (IsThere store source) source op.target s x = .ok s' := by
  have hstill : Still store source s := Still.carryAllIf (fun _ ↦ rfl) hfold houtside hbeside
  rw [carryIf_eq_ok_iff, IsThere, ← hstill.kindOf?_eq]
  rcases n with - | n
  · obtain rfl : op = o := by simpa [hplan.operations] using ho
    obtain rfl : ([], EntryKind.directory) = x := by simpa [entriesOf] using hx
    have hdir : s.kindOf? source = some .directory :=
      kindOf?_eq_directory_iff.mpr (.inr ((hstill []).trans hplan.dir))
    exact (step_opens_iff hplan.kind hplan.source_eq hplan.last hdir houtside).trans
      (and_iff_right (Option.isSome_of_eq_some hdir)).symm
  · obtain ⟨y, hy, rfl⟩ : ∃ y, items[n]? = some y ∧ y.2 = o := by
      simpa [hplan.operations] using ho
    obtain rfl : toldBy y = x := by simpa [entriesOf, hy, toldBy] using hx
    have hmem : y ∈ items := List.mem_of_getElem? hy
    obtain ⟨hkind, hsource, -⟩ := hplan.included y hmem
    have htarget := hplaced y hmem
    have hfound : (store.told source (store.depth + 1) [])[n]? = some (toldBy y) := by
      rw [← htold, List.getElem?_map, hy]
      rfl
    obtain ⟨dir, last, hlast⟩ : ∃ dir last, y.1 = dir ++ [last] :=
      (List.eq_nil_or_concat' y.1).resolve_left (ne_nil_of_mem_told (List.mem_of_getElem? hfound))
    -- the directory around the entry has been carried over in front of it
    have haround : (dir, .directory) ∈ (entriesOf items).take (n + 1) := by
      have hbehind := (behind_told store source (store.depth + 1) []).mem_take hfound
      rw [← htold, ← List.map_take] at hbehind
      simpa [entriesOf, toldBy, hlast] using hbehind
    simp only [toldBy, hlast] at hsource htarget ⊢
    refine step_includes_iff hkind hsource htarget h.skipThrough ?_
    refine h.carried.kindOf?_target haround fun hnil ↦ ?_
    -- nothing lies beside the empty path
    rw [Path.parts_under, List.append_eq_nil_iff] at hnil
    rw [Path.startsWith_iff.mpr (hnil.1 ▸ List.nil_prefix)] at hbeside
    cases hbeside

/-- How a run stands in front of position `n`: everything has been carried over and all operations
have succeeded, or neither. -/
inductive InStep (store : MemoryStore) (op : Operation) (source : Path)
    (items : List (List EntryName × Operation)) (n : Nat) (run : Run) (s : MemoryStore) : Prop where
  | agrees (h : Filling store op source items n run s)
    (hfold : ((entriesOf items).take n).foldlM (carryIf (IsThere store source) source op.target)
      store = .ok s)
    (hlog : ∀ e ∈ run.log, e.outcome = .succeeded)
  | fails (hfold : ∀ s', ((entriesOf items).take n).foldlM
      (carryIf (IsThere store source) source op.target) store ≠ .ok s')
    (hlog : ∃ e ∈ run.log, e.outcome ≠ .succeeded)

/-- **An operation and its entry** succeed together, or neither does. -/
theorem InStep.step {n : Nat} {o : Operation} {run : Run} (ho : plan.operations[n]? = some o)
    (h : InStep store op source items n run s) :
    let next := runFrom s (Execution.step backend plan n o run)
    InStep store op source items (n + 1) next.1 next.2 := by
  intro next
  have hstep : Steps backend plan n o run s next.1 next.2 := step_cases backend plan n o run s
  obtain ⟨x, hx⟩ : ∃ x, (entriesOf items)[n]? = some x := by
    obtain ⟨hn, -⟩ := List.getElem?_eq_some_iff.mp ho
    rw [hplan.length_eq] at hn
    exact ⟨_, List.getElem?_eq_getElem (by simpa [entriesOf] using hn)⟩
  have htake : (entriesOf items).take (n + 1) = (entriesOf items).take n ++ [x] := by
    rw [List.take_add_one, hx]
    rfl
  obtain ⟨outcome, hpushed⟩ := hstep.log_eq
  cases h with
  | agrees h hfold hlog =>
    have hiff : ∀ s', next.1.log = run.log.push (o.logged .succeeded) ∧ next.2 = s' ↔
        carryIf (IsThere store source) source op.target s x = .ok s' :=
      fun _ ↦ step_succeeds_iff hplan htold hplaced houtside hbeside ho h hfold hx
    by_cases houtcome : outcome = .succeeded
    · rw [houtcome] at hpushed
      have hcarry := (hiff next.2).mp ⟨hpushed, rfl⟩
      refine .agrees (h.step serves_backend hplan ho hstep hpushed) ?_ fun e he ↦ ?_
      · rw [htake, carryAll_snoc_iff]
        exact ⟨s, hfold, hcarry⟩
      · rw [hpushed, Array.mem_push] at he
        rcases he with he | rfl
        · exact hlog e he
        · rfl
    · refine .fails (fun s' hcarried ↦ ?_) ⟨o.logged outcome, ?_, houtcome⟩
      · rw [htake, carryAll_snoc_iff] at hcarried
        obtain ⟨s₁, hdone, hcarry⟩ := hcarried
        obtain rfl := Except.ok.inj (hfold.symm.trans hdone)
        obtain ⟨hsucceeded, -⟩ := (hiff s').mpr hcarry
        exact houtcome (outcome_of_push (hpushed.symm.trans hsucceeded))
      · rw [hpushed]
        exact Array.mem_push_self
  | fails hfold hlog =>
    obtain ⟨e, he, houtcome⟩ := hlog
    refine .fails (fun s' hcarried ↦ ?_) ⟨e, ?_, houtcome⟩
    · rw [htake, carryAll_snoc_iff] at hcarried
      obtain ⟨s₁, hdone, -⟩ := hcarried
      exact hfold s₁ hdone
    · rw [hpushed]
      exact Array.mem_push_of_mem _ he

/-- **What a run has done in front of a position.** -/
theorem inStep_runBefore {n : Nat} (hn : n ≤ items.length) :
    InStep store op source items n (runFrom store (runBefore backend plan n)).1
      (runFrom store (runBefore backend plan n)).2 := by
  induction n with
  | zero =>
    rw [runBefore_zero, runFrom_pure, start_eq]
    exact .agrees ⟨.start, rfl, by simp⟩ rfl (by simp)
  | succ n ih =>
    obtain ⟨o, ho⟩ : ∃ o, plan.operations[n]? = some o :=
      ⟨_, List.getElem?_eq_getElem (by rw [hplan.length_eq]; omega)⟩
    have hnext := (ih (Nat.le_of_succ_le hn)).step hplan htold hplaced houtside hbeside ho
    rw [runBefore_succ backend plan ho, runFrom_bind]
    simp only [advance, runFrom_bind]
    cases hnext with
    | agrees h hfold hlog =>
      rw [settleMoves_of_ahead n fun p hp ↦ Nat.ne_of_gt (h.ahead hn p hp)]
      exact .agrees h hfold hlog
    | fails hfold hlog =>
      refine .fails hfold ?_
      obtain ⟨added, hsettled⟩ := settleMoves_eq backend n _ _
      rw [hsettled]
      exact hlog

/-- **A transfer entry by entry** carries over all that is told, or one of its operations does not
succeed. -/
theorem performs_byEntries :
    let out := runFrom store (executePlan backend plan)
    Performs (carryAll op source (toldOfAll store source) store) out.1 out.2 := by
  obtain ⟨o, ho⟩ : ∃ o, plan.operations[items.length]? = some o :=
    ⟨_, List.getElem?_eq_getElem (by simp [hplan.length_eq])⟩
  have hdone := (inStep_runBefore hplan htold hplaced houtside hbeside le_rfl).step hplan htold
    hplaced houtside hbeside ho
  simp only [runFrom_executePlan hplan.length_eq ho store]
  set next := runFrom (runFrom store (runBefore backend plan items.length)).2
    (Execution.step backend plan items.length o
      (runFrom store (runBefore backend plan items.length)).1)
  have hlogged : (runFrom next.2 (settleMoves backend items.length next.1)).1.log = next.1.log := by
    obtain ⟨added, hsettled⟩ := settleMoves_eq backend items.length next.1 next.2
    rw [hsettled]
  have htake : (entriesOf items).take (items.length + 1) = toldOfAll store source := by
    rw [toldOfAll, ← htold]
    exact List.take_of_length_le (by simp [entriesOf])
  constructor
  · rw [exists_carryAll_iff hplan.dir, Run.report, hlogged]
    cases hdone with
    | agrees h hfold hlog =>
      rw [htake] at hfold
      exact iff_of_true (by simpa using hlog) ⟨_, (carryAll_isThere_iff hplan.dir).mp hfold⟩
    | fails hfold hlog =>
      rw [htake] at hfold
      refine iff_of_false (fun hsucceeded ↦ ?_) fun hcarries ↦ ?_
      · obtain ⟨e, he, houtcome⟩ := hlog
        exact houtcome (hsucceeded e (Array.mem_toList_iff.mpr he))
      · obtain ⟨s', hs'⟩ := hcarries
        exact hfold s' ((carryAll_isThere_iff hplan.dir).mpr hs')
  · intro s' hcarried
    obtain ⟨s₁, hs₁, hrest⟩ := carryAll_eq_ok_iff.mp hcarried
    rw [← carryAll_isThere_iff hplan.dir] at hs₁
    cases hdone with
    | fails hfold =>
      rw [htake] at hfold
      exact absurd hs₁ (hfold s₁)
    | agrees h hfold =>
      rw [htake, hs₁] at hfold
      obtain rfl := Except.ok.inj hfold
      have hpending := h.pending
      split at hrest
      · rename_i hmove
        rw [if_pos ⟨hmove, Nat.succ_pos _⟩] at hpending
        rw [settleMoves_of_single hpending rfl, settle_of_intact rfl]
        exact congrArg Prod.snd (run_changing_eq_ok_iff.mpr hrest)
      · rename_i hcopy
        rw [if_neg fun h ↦ hcopy h.1] at hpending
        rw [settleMoves_of_ahead _ (by simp [hpending])]
        exact hrest

end InStep

/-! ### Either way -/

section OneLine

variable {readBlock : String → Option FrontMatter} {options : PlanOptions} {text : String}
  (hwf : store.WellFormed) (hline : IsOneLine readBlock options text op)
  (hsource : op.source = some source) (hdir : store.node? source = some .dir)
  (houtside : op.target.startsWith source = false) (hbeside : source.startsWith op.target = false)

include hwf hline hsource hdir houtside hbeside

/-- **A line that transfers a directory carries over what a walk through it is told**, whether that
is planned entry by entry or not, or an operation does not succeed. -/
theorem performs_plan {store' : MemoryStore}
    (hplan : runFrom store (Planner.plan MemoryStore.backend readBlock options text).run =
      (.ok plan, store')) :
    let out := runFrom store' (executePlan backend plan)
    Performs (carryAll op source (toldOfAll store source) store) out.1 out.2 := by
  obtain ⟨rfl, items, hoperations, hend, hnothing, hfound⟩ := plan_of_stored hwf
    hline.isLineUnder hsource (kindOf?_eq_directory_iff.mpr (.inr hdir)) hplan
  have hkind := hline.kind_of_source hsource
  by_cases hitems : items = []
  · subst hitems
    exact performs_whole hwf hoperations hkind hsource hdir houtside hbeside
  · rw [if_neg hitems] at hend
    obtain ⟨hname, hrecursive, -⟩ := not_not.mp (mt hnothing hitems)
    obtain ⟨htold, hitems, -⟩ := hfound hname hrecursive rfl
    -- without rules each operation has the place of its entry, because the names are texts
    have hplaced : ∀ x ∈ items, x.2.target = op.target.under x.1 := by
      intro x hx
      have hmem : toldBy x ∈ store'.told source (store'.depth + 1) [] :=
        htold ▸ List.mem_map_of_mem hx
      rw [(hitems x hx).2.target_eq, joined_renamed]
      exact isText_of_mem_told hmem (by simp)
    refine performs_byEntries ⟨hoperations, hend, hkind, hsource, hdir, fun x hx ↦ ?_⟩ htold hplaced
      houtside hbeside
    exact ⟨(hitems x hx).1, (hitems x hx).2.source_eq, by rw [hplaced x hx]⟩

/-- **Entry by entry and as a whole** a directory is transferred alike. Let a single line copy or
move a stored directory to a place beside it, and let nothing be renamed. It is executed twice from
the same store, first with what is in the directory planned entry by entry and then without that.
The transfer as a whole succeeds exactly if all operations of the other run do, and then both runs
leave the same store. -/
theorem byEntries_agrees_whole (haccepted : Accepted readBlock text) :
    ∃ byEntries whole final final' outcome,
      runFrom store (execute MemoryStore.backend readBlock { options with recursive := true }
        text).run = (.ok byEntries, final) ∧
      runFrom store (execute MemoryStore.backend readBlock { options with recursive := false }
        text).run = (.ok whole, final') ∧
      whole.log = [op.logged outcome] ∧
      (outcome = .succeeded ↔ ∀ e ∈ byEntries.log, e.outcome = .succeeded) ∧
      (outcome = .succeeded → final = final') := by
  have hline' : ∀ recursive, IsOneLine readBlock { options with recursive } text op := fun _ ↦ hline
  have hplanned : ∀ recursive, ∃ plan store', runFrom store (Planner.plan MemoryStore.backend
      readBlock { options with recursive } text).run = (.ok plan, store') := by
    intro recursive
    obtain ⟨plan, hplan⟩ := (plan_isOk_iff MemoryStore.backend { options with recursive } store).mpr
      haccepted
    exact ⟨plan, _, Prod.ext hplan rfl⟩
  obtain ⟨plan, store₁, hplan⟩ := hplanned true
  obtain ⟨plan', store₂, hplan'⟩ := hplanned false
  have hbyEntries := performs_plan hwf (hline' true) hsource hdir houtside hbeside hplan
  have hwhole := performs_plan hwf (hline' false) hsource hdir houtside hbeside hplan'
  obtain ⟨rfl, items, hoperations, -, hnothing, -⟩ := plan_of_stored hwf
    (hline' false).isLineUnder hsource (kindOf?_eq_directory_iff.mpr (.inr hdir)) hplan'
  obtain rfl : items = [] := hnothing (by simp)
  have hstep := step_cases MemoryStore.backend plan' 0 op (start plan') store₂
  obtain ⟨outcome, hpushed⟩ := hstep.log_eq
  have hlog := log_of_single hoperations hpushed
  have hiff := hwhole.succeeds
  rw [hlog, List.forall_mem_singleton] at hiff
  refine ⟨_, _, _, _, outcome, runFrom_execute hplan, runFrom_execute hplan', hlog,
    hiff.trans hbyEntries.succeeds.symm, fun hsucceeded ↦ ?_⟩
  obtain ⟨s, hs⟩ := hiff.mp hsucceeded
  exact (hbyEntries.leaves s hs).trans (hwhole.leaves s hs).symm

end OneLine

/-- The run that moves the two drafts. -/
def draftsRun (recursive : Bool) : Except PlanError Report × MemoryStore :=
  runFrom twoDrafts (execute MemoryStore.backend (fun _ ↦ none) { root := .ofText "/r", recursive }
    "(src) > dst").run

/-- The drafts are moved either way, and nothing else differs. -/
theorem byEntries_agrees_whole_drafts :
    (draftsRun true).2 = (draftsRun false).2 ∧
      (draftsRun true).2.node? (.ofText "/r/dst/b.txt") = some (.file ⟨#[98]⟩) := by
  obtain ⟨hdir, houtside, hbeside⟩ : twoDrafts.node? (.ofText "/r/src") = some .dir ∧
      draftsMove.target.startsWith (.ofText "/r/src") = false ∧
      (Path.ofText "/r/src").startsWith draftsMove.target = false := by
    decide +kernel
  obtain ⟨byEntries, whole, final, final', outcome, hbyEntries, hwhole, hlog, -, hsame⟩ :=
    byEntries_agrees_whole wellFormed_twoDrafts isOneLine_draftsMove rfl hdir houtside hbeside
      ⟨["(src) > dst"], none, by decide +kernel⟩
  have hrun : draftsRun true = (.ok byEntries, final) := hbyEntries
  have hrun' : draftsRun false = (.ok whole, final') := hwhole
  obtain ⟨hlogged, hfile⟩ :
      (draftsRun false).1.toOption.map Report.log = some [draftsMove.logged .succeeded] ∧
      (draftsRun true).2.node? (.ofText "/r/dst/b.txt") = some (.file ⟨#[98]⟩) := by
    decide +kernel
  rw [hrun'] at hlogged
  have hsucceeded : outcome = .succeeded := by
    have hentry := hlog.symm.trans (Option.some.inj hlogged)
    exact congrArg LogEntry.outcome (List.singleton_inj.mp hentry)
  refine ⟨?_, hfile⟩
  rw [hrun, hrun']
  exact hsame hsucceeded

end Scaffold.Execution
