import Scaffold.Execution
import Scaffold.Proofs.Store.Lookup
import Scaffold.Proofs.Walks
import Scaffold.Storage.Faults

/-!
# Calls that a store answers

A backend over states of type `σ` serves a store in memory when the store can be seen in every state
and each primitive call either acts on it as the store itself does, or is refused and leaves it
alone (`Serves`). The store in memory serves itself (`serves_backend`), and it is still served when
a gate stands in front of it (`serves_gated`), whatever the gate refuses: nothing is promised of a
call that fails except that it changes nothing.

So what is proved of a served store holds under every schedule of failures. The lemmas say what a
call has done when it succeeded, first for the primitive calls and then for those composed of them.
-/

namespace Scaffold

/-- The call leaves the store as it is, and what it answers is what the store answers. -/
def Reads {σ α : Type} (view : σ → MemoryStore) (call : Attempt (StateM σ) α)
    (answer : MemoryStore → Except StorageError α) : Prop :=
  ∀ s, view (runFrom s call.run).2 = view s ∧
    ∀ a, (runFrom s call.run).1 = .ok a → answer (view s) = .ok a

/-- The call changes the store as `update` does when it succeeds, and not at all when it fails. -/
def Changes {σ : Type} (view : σ → MemoryStore) (call : Attempt (StateM σ) Unit)
    (update : MemoryStore → MemoryStore.Update) : Prop :=
  ∀ s s', (runFrom s call.run = (.ok (), s') → update (view s) = .ok (view s')) ∧
    ∀ e, runFrom s call.run = (.error e, s') → view s' = view s

/-- The backend acts on the store that is seen in its states. -/
structure Serves {σ : Type} (b : Backend (StateM σ)) (view : σ → MemoryStore) : Prop where
  exists_ : ∀ p s, view (runFrom s (b.exists_ p)).2 = view s ∧
    ((runFrom s (b.exists_ p)).1 = true → ((view s).kindOf? p).isSome = true)
  mkdir : ∀ p recursive, Changes view (b.mkdir p recursive) (·.mkdir p recursive)
  write : ∀ p bytes, Changes view (b.write p bytes) (·.write p bytes)
  read : ∀ p, Reads view (b.read p) (·.read p)
  stat : ∀ p, Reads view (b.stat p) (·.stat p)
  list : ∀ p, Reads view (b.list p) (·.list p)
  rm : ∀ p recursive, Changes view (b.rm p recursive) (·.rm p recursive)
  unlink : ∀ p, Changes view (b.unlink p) (·.unlink p)
  rename : ∀ source target, Changes view (b.rename source target) (·.rename source target)
  copyFile : ∀ source target, Changes view (b.copyFile source target) (·.copyFile source target)
  byCalls : b.ByCalls

/-! ### The store and its gates -/

namespace MemoryStore

theorem reads_asking {α : Type} (f : MemoryStore → Except StorageError α) :
    Reads id (asking f) f :=
  fun _ ↦ ⟨rfl, fun _ h ↦ h⟩

theorem changes_changing (f : MemoryStore → Update) : Changes id (changing f) f := by
  intro s s'
  show (changing f s = (.ok (), s') → _) ∧ ∀ e, changing f s = (.error e, s') → _
  unfold changing
  rcases hf : f s with e | t
  · refine ⟨nofun, fun _ h ↦ ?_⟩
    exact (Prod.mk.inj h).2.symm
  · refine ⟨fun h ↦ ?_, nofun⟩
    obtain rfl := (Prod.mk.inj h).2
    exact hf

theorem runFrom_asking {α : Type} (s : MemoryStore) (f : MemoryStore → Except StorageError α) :
    runFrom s (asking f).run = (f s, s) := rfl

/-- A call in memory that succeeds leaves what its update answers. -/
theorem runFrom_changing_of_ok {s s' : MemoryStore} {f : MemoryStore → Update} (h : f s = .ok s') :
    runFrom s (changing f).run = (.ok (), s') := by
  show changing f s = (.ok (), s')
  simp only [changing, h]

theorem runFrom_changing_of_error {s : MemoryStore} {f : MemoryStore → Update} {e : StorageError}
    (h : f s = .error e) : runFrom s (changing f).run = (.error e, s) := by
  show changing f s = (.error e, s)
  simp only [changing, h]

/-- What is there can be removed with all that is in it. -/
theorem exists_rm {s : MemoryStore} {p : Path} (h : s.kindOf? p ≠ none) :
    ∃ s', s.rm p true = .ok s' := by
  rcases hkind : s.kindOf? p with - | - | -
  · exact absurd hkind h
  · simp [rm, hkind]
  · simp [rm, hkind]

theorem exists_clear (s : MemoryStore) (p : Path) : ∃ s', s.clear p = .ok s' := by
  unfold clear
  split
  · exact ⟨s, rfl⟩
  · exact exists_rm ‹_›

/-- **Moving an entry fails before it has changed anything**, or not at all: what is removed on the
way is there. -/
theorem renameInPlace_eq_changing (source target : Path) :
    renameInPlace source target = changing (·.rename source target) := by
  funext s
  show runFrom s (renameInPlace source target).run =
    runFrom s (changing (·.rename source target)).run
  rw [renameInPlace, runFrom_run_bind, runFrom_asking]
  rcases hmoved : s.takenAlong source target with e | moved
  · rw [runFrom_changing_of_error (e := e)]
    rw [rename, hmoved]
    rfl
  · have hthere : s.kindOf? source ≠ none := by
      intro hnone
      simp [takenAlong, hnone] at hmoved
    obtain ⟨s₁, hremoved⟩ := exists_rm hthere
    obtain ⟨s₂, hcleared⟩ := s₁.exists_clear target
    have hrename : s.rename source target = .ok (s₂.insertAll moved) := by
      simp only [rename, hmoved, hremoved, hcleared, bind, Except.bind]
      rfl
    have hsteps : runFrom s (changing (·.rm source true)).run = (.ok (), s₁) ∧
        runFrom s₁ (changing (·.clear target)).run = (.ok (), s₂) :=
      ⟨runFrom_changing_of_ok hremoved, runFrom_changing_of_ok hcleared⟩
    rw [runFrom_changing_of_ok hrename]
    simp only [runFrom_run_bind, hsteps]
    rfl

/-- **The store in memory serves itself.** -/
theorem serves_backend : Serves backend id where
  exists_ _ _ := ⟨rfl, id⟩
  mkdir _ _ := changes_changing _
  write _ _ := changes_changing _
  read _ := reads_asking _
  stat _ := reads_asking _
  list _ := reads_asking _
  rm _ _ := changes_changing _
  unlink _ := changes_changing _
  rename source target := by
    show Changes id (renameInPlace source target) _
    rw [renameInPlace_eq_changing]
    exact changes_changing _
  copyFile _ _ := changes_changing _
  byCalls := rfl

variable (s : MemoryStore) (p : Path)

@[simp]
theorem runFrom_exists : runFrom s (backend.exists_ p) = ((s.kindOf? p).isSome, s) := rfl

@[simp]
theorem runFrom_stat : runFrom s (backend.stat p).run = (s.stat p, s) := rfl

/-- What is there can be inspected. -/
theorem stat_of_kindOf? {kind : EntryKind} (h : s.kindOf? p = some kind) :
    ∃ found : Metadata, s.stat p = .ok found ∧ found.kind = kind := by
  rcases hroot : p.isRoot with - | -
  · rw [kindOf?_of_not_root hroot] at h
    obtain ⟨node, hnode, rfl⟩ := Option.map_eq_some_iff.mp h
    refine ⟨node.metadata, by simp [stat, hroot, hnode], ?_⟩
    cases node <;> rfl
  · rw [kindOf?_of_isRoot hroot] at h
    exact ⟨StoredNode.dir.metadata, by simp [stat, hroot], Option.some.inj h⟩

@[simp]
theorem runFrom_list : runFrom s (backend.list p).run = (s.list p, s) := rfl

theorem runFrom_existsAs (kind : EntryKind) :
    runFrom s (backend.existsAs p kind) = (s.kindOf? p == some kind, s) := by
  simp only [Calls.existsAs, runFrom_bind, runFrom_stat]
  rcases hkind : s.kindOf? p with - | found
  · have hstat : s.stat p = .error (.notFound p) := by
      have hroot : p.isRoot = false := s.isRoot_eq_false (by simp [hkind])
      rw [kindOf?_of_not_root hroot, Option.map_eq_none_iff] at hkind
      simp [stat, hroot, hkind]
    rw [hstat]
    rfl
  · obtain ⟨metadata, hstat, rfl⟩ := s.stat_of_kindOf? p hkind
    simp [hstat]

variable {s p} {s' : MemoryStore}

/-- A call in memory succeeds as its update does. -/
theorem run_changing_eq_ok_iff {f : MemoryStore → Update} :
    runFrom s (changing f).run = (.ok (), s') ↔ f s = .ok s' := by
  exact ⟨(changes_changing f s s').1, runFrom_changing_of_ok⟩

/-- Making sure of a directory in memory is creating it, with those above it. -/
theorem run_ensureDir_eq_ok_iff :
    runFrom s (backend.ensureDir p).run = (.ok (), s') ↔ s.mkdir p true = .ok s' := by
  rw [← run_changing_eq_ok_iff (f := (·.mkdir p true))]
  simp only [Calls.ensureDir, runFrom_run_bind, runFrom_run_lift, runFrom_existsAs]
  split
  · rename_i hdir
    have hmade : s.mkdir p true = .ok s := by
      simp [mkdir, (beq_iff_eq.mp hdir)]
    rw [run_changing_eq_ok_iff, hmade]
    simp
  · rfl

/-- Where the directory is there already nothing is made. -/
theorem runFrom_ensureParent {parent : Path} (hparent : p.parent? = some parent)
    (hdir : s.kindOf? parent = some .directory) :
    runFrom s (Execution.ensureParent backend p).run = (.ok (), s) := by
  unfold Execution.ensureParent
  rw [hparent]
  dsimp only
  split
  · rfl
  · rw [run_ensureDir_eq_ok_iff]
    simp [mkdir, hdir]

end MemoryStore

section Gates

variable {σ τ : Type} {b : Backend (StateM σ)} {view : σ → MemoryStore} (gate : Gate τ)

/-- A call behind a gate is refused, or it is the call. -/
theorem runFrom_passing {α : Type} (method : Method) (p : Path) (call : Attempt (StateM σ) α)
    (s : σ) (t : τ) :
    (∃ e t', runFrom (s, t) (Calls.passing gate method p call).run = (.error e, s, t')) ∨
      ∃ t', runFrom (s, t) (Calls.passing gate method p call).run =
        ((runFrom s call.run).1, (runFrom s call.run).2, t') := by
  show (∃ e t', Calls.passing gate method p call (s, t) = _) ∨
    ∃ t', Calls.passing gate method p call (s, t) = _
  simp only [Calls.passing]
  rcases gate method p t with ⟨- | e, t'⟩
  · exact .inr ⟨t', rfl⟩
  · exact .inl ⟨e, t', rfl⟩

theorem Reads.passing {α : Type} {call : Attempt (StateM σ) α}
    {answer : MemoryStore → Except StorageError α} (h : Reads view call answer) (method : Method)
    (p : Path) : Reads (view ∘ Prod.fst) (Calls.passing gate method p call) answer := by
  rintro ⟨s, t⟩
  rcases runFrom_passing gate method p call s t with ⟨e, t', hrun⟩ | ⟨t', hrun⟩
  · rw [hrun]
    exact ⟨rfl, nofun⟩
  · rw [hrun]
    exact h s

theorem Changes.passing {call : Attempt (StateM σ) Unit}
    {update : MemoryStore → MemoryStore.Update} (h : Changes view call update) (method : Method)
    (p : Path) : Changes (view ∘ Prod.fst) (Calls.passing gate method p call) update := by
  rintro ⟨s, t⟩ ⟨s', t''⟩
  rcases runFrom_passing gate method p call s t with ⟨e, t', hrun⟩ | ⟨t', hrun⟩
  · rw [hrun]
    refine ⟨nofun, fun e' herr ↦ ?_⟩
    obtain ⟨-, rfl, -⟩ : _ ∧ s = s' ∧ t' = t'' := by simpa using herr
    rfl
  · rw [hrun]
    simp only [Prod.mk.injEq]
    constructor
    · rintro ⟨hok, rfl, -⟩
      exact (h s _).1 (Prod.ext hok rfl)
    · rintro e ⟨herr, rfl, -⟩
      exact (h s _).2 e (Prod.ext herr rfl)

/-- **A store behind a gate is still served.** -/
theorem serves_gated (h : Serves b view) : Serves (Backend.gated gate b) (view ∘ Prod.fst) where
  exists_ p := by
    rintro ⟨s, t⟩
    show view ((b.toCalls.gated gate).exists_ p (s, t)).2.1 = view s ∧
      (((b.toCalls.gated gate).exists_ p (s, t)).1 = true → _)
    simp only [Calls.gated]
    rcases gate .exists_ p t with ⟨- | e, t'⟩
    · exact h.exists_ p s
    · exact ⟨rfl, nofun⟩
  mkdir p recursive := (h.mkdir p recursive).passing gate _ _
  write p bytes := (h.write p bytes).passing gate _ _
  read p := (h.read p).passing gate _ _
  stat p := (h.stat p).passing gate _ _
  list p := (h.list p).passing gate _ _
  rm p recursive := (h.rm p recursive).passing gate _ _
  unlink p := (h.unlink p).passing gate _ _
  rename source target := (h.rename source target).passing gate _ _
  copyFile source target := (h.copyFile source target).passing gate _ _
  byCalls := rfl

end Gates

/-! ### Calls that succeeded -/

section Calls

variable {σ α : Type} {b : Backend (StateM σ)} {view : σ → MemoryStore} {s s' : σ}
  {p source target : Path}

/-- A reading call that succeeded has answered what the store answers. -/
theorem Reads.ok {call : Attempt (StateM σ) α} {answer : MemoryStore → Except StorageError α}
    (h : Reads view call answer) {a : α} (hok : runFrom s call.run = (.ok a, s')) :
    view s' = view s ∧ answer (view s) = .ok a := by
  have hs := h s
  rw [hok] at hs
  exact ⟨hs.1, hs.2 a rfl⟩

namespace MemoryStore

/-- A file that can be read is stored. -/
theorem node?_of_read {store : MemoryStore} {bytes : ByteArray} (h : store.read p = .ok bytes) :
    store.node? p = some (.file bytes) := by
  unfold read at h
  split at h
  · rename_i found hfound
    rwa [Except.ok.inj h] at hfound
  · cases h
  · split at h <;> cases h

/-- A file that was written stands in no directory's place. -/
theorem of_write {store store' : MemoryStore} {bytes : ByteArray}
    (h : store.write p bytes = .ok store') :
    store.kindOf? p ≠ some .directory ∧ store' = store.insert p (.file bytes) := by
  unfold write at h
  split at h
  · cases h
  · rename_i hkind
    rcases hparent : store.requireParent p with e | ⟨⟩
    · rw [hparent] at h
      cases h
    · rw [hparent] at h
      exact ⟨hkind, (Except.ok.inj h).symm⟩

/-- Storing directories leaves one at the path, unless the path is empty. -/
theorem kindOf?_insertDirs (store : MemoryStore) (hempty : p.isEmpty = false)
    (hnone : store.kindOf? p = none) : (store.insertDirs p).kindOf? p = some .directory := by
  have hother : store.kindOf? p ≠ some .directory := by simp [hnone]
  have hroot : p.isRoot = false := isRoot_eq_false hother
  have hfirst : (store.insertDir p).node? p = some .dir := by
    have habsent : store.node? p = none := by simpa [kindOf?_of_not_root hroot] using hnone
    simp [insertDir, hroot, hempty, habsent, node?_insert]
  have hgrows : ∀ (l : List Path) (t : MemoryStore), (∀ q ∈ l, q.parts <+: p.parts) →
      t.node? p = some .dir → (l.foldl insertDir t).node? p = some .dir := by
    intro l
    induction l with
    | nil => exact fun _ _ ht ↦ ht
    | cons q l ih =>
      intro t hl ht
      exact ih _ (fun r hr ↦ hl r (List.mem_cons_of_mem q hr))
        ((grows_insertDir (hl q List.mem_cons_self)).keeps ht)
  exact kindOf?_of_node? hroot (hgrows _ _ (fun q hq ↦ Path.isPrefix_of_mem_ancestors hq) hfirst)

/-- **Making a directory** with those above it changes nothing that is there. -/
theorem of_mkdir {store store' : MemoryStore} (h : store.mkdir p true = .ok store') :
    Grows p store store' ∧ (p.isEmpty = false → store'.kindOf? p = some .directory) := by
  unfold mkdir at h
  split at h
  · rename_i hkind _
    obtain rfl := Except.ok.inj h
    exact ⟨.refl p _, fun _ ↦ hkind⟩
  · cases h
  · cases h
  · cases h
  · rename_i hkind _
    split at h
    · cases h
    · obtain rfl := Except.ok.inj h
      exact ⟨grows_insertDirs store p, fun hempty ↦ store.kindOf?_insertDirs hempty hkind⟩
  · rename_i hfalse
    cases hfalse

end MemoryStore

namespace Serves

open MemoryStore

/-- A copied file has been read and written. -/
theorem copyFile_ok (h : Serves b view)
    (hok : runFrom s (b.copyFile source target).run = (.ok (), s')) :
    ∃ bytes, (view s).node? source = some (.file bytes) ∧
      (view s).kindOf? target ≠ some .directory ∧
      view s' = (view s).insert target (.file bytes) := by
  have hcopy := (h.copyFile source target s s').1 hok
  simp only [MemoryStore.copyFile] at hcopy
  rcases hread : (view s).read source with e | bytes
  · rw [hread] at hcopy
    cases hcopy
  · rw [hread] at hcopy
    exact ⟨bytes, node?_of_read hread, of_write hcopy⟩

theorem unlink_ok (h : Serves b view) (hok : runFrom s (b.unlink p).run = (.ok (), s')) :
    view s' = (view s).erase p := by
  have hunlink := (h.unlink p s s').1 hok
  simp only [MemoryStore.unlink] at hunlink
  split at hunlink
  · exact (Except.ok.inj hunlink).symm
  · cases hunlink
  · cases hunlink

theorem exists_ok (h : Serves b view) {there : Bool}
    (hok : runFrom s (b.exists_ p) = (there, s')) : view s' = view s := by
  have hkept := (h.exists_ p s).1
  rwa [hok] at hkept

/-- What is known of an entry is its kind. -/
theorem stat_ok (h : Serves b view) {found : Metadata}
    (hok : runFrom s (b.stat p).run = (.ok found, s')) :
    view s' = view s ∧ (view s).kindOf? p = some found.kind := by
  obtain ⟨hview, hanswer⟩ := (h.stat p).ok hok
  refine ⟨hview, ?_⟩
  simp only [MemoryStore.stat] at hanswer
  split at hanswer
  · rename_i hroot
    rw [kindOf?_of_isRoot hroot, ← Except.ok.inj hanswer]
    rfl
  · rename_i hroot
    split at hanswer
    · rename_i node hnode
      rw [kindOf?_of_node? (by simpa using hroot) hnode, ← Except.ok.inj hanswer]
      cases node <;> rfl
    · cases hanswer

/-- Asking for an entry of a kind changes nothing, and a yes is true. -/
theorem existsAs (h : Serves b view) (p : Path) (kind : EntryKind) (s : σ) :
    view (runFrom s (b.existsAs p kind)).2 = view s ∧
      ((runFrom s (b.existsAs p kind)).1 = true → (view s).kindOf? p = some kind) := by
  have hstat := h.stat p s
  simp only [Calls.existsAs, runFrom_bind]
  rcases hrun : runFrom s (b.stat p).run with ⟨e | found, s₁⟩
  · rw [hrun] at hstat
    exact ⟨hstat.1, nofun⟩
  · obtain ⟨hview, hfound⟩ := h.stat_ok hrun
    refine ⟨hview, fun hkind ↦ ?_⟩
    have hkind : found.kind = kind := by simpa using hkind
    rw [hfound, hkind]

/-- **A directory that is made sure of** is there, and nothing that was there has changed. -/
theorem ensureDir_ok (h : Serves b view) (hok : runFrom s (b.ensureDir p).run = (.ok (), s')) :
    Grows p (view s) (view s') ∧
      (p.isEmpty = false → (view s').kindOf? p = some .directory) := by
  obtain ⟨hkeeps, hyes⟩ := h.existsAs p .directory s
  obtain ⟨there, s₁, hthere, hrest⟩ := run_bind_eq_ok_iff.mp hok
  rw [runFrom_run_lift] at hthere
  obtain ⟨rfl, rfl⟩ : (runFrom s (b.existsAs p .directory)).1 = there ∧
      (runFrom s (b.existsAs p .directory)).2 = s₁ := by simpa using hthere
  split at hrest
  · rename_i hdir
    obtain rfl := (Prod.mk.inj hrest).2
    rw [hkeeps]
    exact ⟨.refl p _, fun _ ↦ hyes hdir⟩
  · rw [← hkeeps]
    exact of_mkdir ((h.mkdir p true _ s').1 hrest)

/-- Making sure of the directory around a path changes nothing that is there. -/
theorem ensureParent_ok (h : Serves b view)
    (hok : runFrom s (Execution.ensureParent b p).run = (.ok (), s')) :
    Grows p (view s) (view s') := by
  unfold Execution.ensureParent at hok
  split at hok
  · rename_i parent hparent
    split at hok
    · obtain rfl := (Prod.mk.inj hok).2
      exact .refl p _
    · exact (h.ensureDir_ok hok).1.below hparent
  · obtain rfl := (Prod.mk.inj hok).2
    exact .refl p _

end Serves

end Calls

end Scaffold
