import Scaffold.Proofs.Disk.Removing
import Scaffold.Proofs.Store.Upkeep

/-!
# A disk and a store in memory agree

Calls other than renaming, on paths below a directory at which a disk mirrors a store, get the same
answers from both and leave both with the same tree, with one exception: the store does not mind how
a path is spelled. It overlooks a NUL, at which the operating system refuses a path, and a slash
behind the name of a file, which the operating system takes for a directory
(`MemoryStore.Overlooks`). So a session of calls runs in the same way on both exactly if the store
overlooks nothing in it (`backends_agree_iff`).

For each call it is shown that the disk follows the store where the call is spelled as it should be,
and that it fails, as it was before, where the store fails or overlooks something
(`agrees_answer`).
-/

namespace Scaffold

/-! ### Calls below a directory -/

/-- The path is that of an entry below the directory `W`, spelled without dots. -/
def Path.IsBelow (W p : Path) : Prop :=
  (∃ init name, p ≈ (W.under init).child name) ∧ '.' ∉ p.tail.toList

theorem Path.isBelow_iff {W p : Path} :
    W.IsBelow p ↔ (∃ names ∈ p.names? W, names ≠ []) ∧ '.' ∉ p.tail.toList := by
  refine and_congr_left fun _ ↦ ?_
  simp only [Option.mem_def, Path.names?_eq_some_iff]
  constructor
  · rintro ⟨init, name, hsame⟩
    exact ⟨init ++ [name], by rwa [Path.under_snoc], by simp⟩
  · rintro ⟨names, hsame, hne⟩
    obtain ⟨init, name, rfl⟩ := List.eq_nil_or_concat' names |>.resolve_left hne
    exact ⟨init, name, by rwa [← Path.under_snoc]⟩

instance (W p : Path) : Decidable (W.IsBelow p) := decidable_of_iff _ Path.isBelow_iff.symm

/-- The call renames nothing, and what it copies it copies to another entry. -/
def Call.isPlain : Call → Bool
  | .rename _ _ => false
  | .copyFile source target => decide (¬source ≈ target)
  | _ => true

/-- A plain call about entries below the directory `W`. -/
structure Call.IsBelow (W : Path) (call : Call) : Prop where
  paths : ∀ p ∈ call.paths, W.IsBelow p
  isPlain : call.isPlain = true

instance (W : Path) (call : Call) : Decidable (call.IsBelow W) :=
  decidable_of_iff ((∀ p ∈ call.paths, W.IsBelow p) ∧ call.isPlain = true)
    ⟨fun h ↦ ⟨h.1, h.2⟩, fun h ↦ ⟨h.1, h.2⟩⟩

/-- The path at which the call lists a directory. -/
def Call.listed? : Call → Option Path
  | .list p => some p
  | _ => none

/-- The path at which the call removes a directory with what is in it. -/
def Call.razed? : Call → Option Path
  | .rm p true => some p
  | _ => none

/-- No path or name that the call is about is longer than a disk allows, and when it removes a
directory with what is in it, nothing in it is. When it lists a directory, what is listed under one
name is of one kind, since an operating system has the entries in any order. -/
structure Call.FitsDisk (s : MemoryStore) (call : Call) : Prop where
  paths : ∀ p ∈ call.paths, p.size < Disk.maxPathBytes
  names : ∀ p ∈ call.paths, ∀ part ∈ p.parts, part.size ≤ Disk.maxNameBytes
  below : ∀ p ∈ call.razed?, s.FitsBelow p
  apart : ∀ p ∈ call.listed?, s.ListsApart p

instance (s : MemoryStore) (call : Call) : Decidable (call.FitsDisk s) :=
  decidable_of_iff
    ((∀ p ∈ call.paths, p.size < Disk.maxPathBytes) ∧
      (∀ p ∈ call.paths, ∀ part ∈ p.parts, part.size ≤ Disk.maxNameBytes) ∧
      (∀ p ∈ call.razed?, s.FitsBelow p) ∧ ∀ p ∈ call.listed?, s.ListsApart p)
    ⟨fun h ↦ ⟨h.1, h.2.1, h.2.2.1, h.2.2.2⟩, fun h ↦ ⟨h.1, h.2, h.3, h.4⟩⟩

theorem Call.exists_leads {W p : Path} {s : MemoryStore} {call : Call} (hcall : call.IsBelow W)
    (hfits : call.FitsDisk s) (hp : p ∈ call.paths) : ∃ init name, W.Leads p init name := by
  obtain ⟨⟨init, name, hsame⟩, hdot⟩ := hcall.paths p hp
  refine ⟨init, name, hsame, hdot, hfits.paths p hp, fun n hn ↦ hfits.names p hp (.entry n) ?_⟩
  rw [Path.equiv_iff.mp hsame, ← Path.under_snoc, Path.parts_under]
  exact List.mem_append_right _ (List.mem_map_of_mem hn)

/-- The store accepts what a disk refuses: it answers a call positively, and a path of the call has
a NUL in it or a slash behind the name of a file, before the call or after it. -/
def MemoryStore.Overlooks (s : MemoryStore) (call : Call) : Prop :=
  let result := runFrom s (backend.answer call).run
  result.1.toOption.any (· != .there false) = true ∧
    ∃ p ∈ call.paths, s.Misspells p ∨ result.2.Misspells p

instance (s : MemoryStore) (call : Call) : Decidable (s.Overlooks call) :=
  inferInstanceAs (Decidable (_ ∧ _))

namespace MemoryStore

variable {W p : Path} {s s' : MemoryStore} {init : List EntryName} {name : EntryName}

theorem kindOf?_of_mkdir {recursive : Bool} (hp : W.Leads p init name)
    (habs : p.isAbsolute = true) (h : s.mkdir p recursive = .ok s') :
    s.kindOf? p ≠ some .file ∧ s'.kindOf? p = some .directory := by
  have hnone : s.node? p = none → s.kindOf? p = none := fun hnone ↦ by
    rw [hp.kindOf?_eq, hnone]
    rfl
  rcases recursive with - | -
  · obtain ⟨⟨hfree, -⟩, rfl⟩ := (mkdir_false_eq_ok_iff hp).mp h
    rw [hnone hfree, hp.kindOf?_eq, node?_insert, if_pos rfl]
    exact ⟨nofun, rfl⟩
  · rcases (mkdir_true_eq_ok_iff hp habs).mp h with ⟨hdir, rfl⟩ | ⟨⟨hfree, -⟩, rfl⟩
    · exact ⟨by simp [hdir], hdir⟩
    · exact ⟨by simp [hnone hfree], kindOf?_insertDirs s
        (Path.isEmpty_eq_false hp.parts_ne_nil) (hnone hfree)⟩

/-- What is gone afterwards was misspelled before, if at all. -/
theorem misspells_of_gone (hgone : s'.kindOf? p = none)
    (h : s.Misspells p ∨ s'.Misspells p) : s.Misspells p := by
  rcases h with hbefore | hnul | ⟨-, hfile⟩
  · exact hbefore
  · exact .inl hnul
  · rw [hgone] at hfile
    cases hfile

end MemoryStore

namespace Disk

/-- A store and a disk make the same of a session: each call succeeds on one if it succeeds on the
other, then both answer the same, and behind each call both have the same tree. -/
def Agree (W : Path) (loc : Location) : List Call → MemoryStore → Disk → Prop
  | [], _, _ => True
  | call :: calls, s, d =>
    let inMemory := runFrom s (MemoryStore.backend.answer call).run
    let onDisk := runFrom d ((System.backend system).answer call).run
    (onDisk.1.toOption = inMemory.1.toOption ∧ SameTree W loc inMemory.2 onDisk.2) ∧
      Agree W loc calls inMemory.2 onDisk.2

/-! ### Single calls -/

section Calls

variable {α : Type} {W p : Path} {loc : Location} {s : MemoryStore} {d : Disk} {call : Call}

/-- A call that the store overlooks nothing in has the same result on the disk, and the disk mirrors
the store behind it; the disk answers otherwise when the store overlooks something. -/
def Agrees (W : Path) (loc : Location) (s : MemoryStore) (d : Disk) (call : Call) : Prop :=
  let inMemory := runFrom s (MemoryStore.backend.answer call).run
  let onDisk := runFrom d ((System.backend system).answer call).run
  if s.Overlooks call then onDisk.1.toOption ≠ inMemory.1.toOption
  else onDisk.1.toOption = inMemory.1.toOption ∧ Mirrors W loc inMemory.2 onDisk.2

/-- What is to be shown of a call that is made by `x` in memory and by `y` on the disk. -/
theorem Agrees.of_runs {x : Attempt (StateM MemoryStore) α} {y : Attempt (StateM Disk) α}
    {answer : α → Answer} (hanswer : ∀ a, answer a ≠ .there false) (h : Mirrors W loc s d)
    (hs : MemoryStore.backend.answer call = x >>= fun a ↦ pure (answer a))
    (hd : (System.backend system).answer call = y >>= fun a ↦ pure (answer a))
    (hok : ∀ a s', runFrom s x.run = (.ok a, s') →
      (∀ p ∈ call.paths, ¬s.Misspells p ∧ ¬s'.Misspells p) →
      ∃ d', runFrom d y.run = (.ok a, d') ∧ Mirrors W loc s' d')
    (hmisspelled : ∀ a s', runFrom s x.run = (.ok a, s') →
      (∃ p ∈ call.paths, s.Misspells p ∨ s'.Misspells p) → Fails d y)
    (herror : ∀ e s', runFrom s x.run = (.error e, s') → s' = s ∧ Fails d y) :
    Agrees W loc s d call := by
  have hfailed : Fails d y →
      ∃ e, runFrom d ((System.backend system).answer call).run = (.error e, d) := by
    intro hfails
    rw [hd]
    exact hfails.bind _
  rcases hx : runFrom s x.run with ⟨e | a, s'⟩
  · obtain ⟨rfl, hfails⟩ := herror e s' hx
    obtain ⟨e', he'⟩ := hfailed hfails
    have hr : runFrom s' (MemoryStore.backend.answer call).run = (.error e, s') := by
      rw [hs, runFrom_run_bind, hx]
    have hplain : ¬s'.Overlooks call := by
      rintro ⟨hpositive, -⟩
      rw [hr] at hpositive
      cases hpositive
    rw [Agrees, if_neg hplain, hr, he']
    exact ⟨rfl, h⟩
  · have hr : runFrom s (MemoryStore.backend.answer call).run = (.ok (answer a), s') := by
      rw [hs, runFrom_run_bind, hx]
      rfl
    have hoverlooks : s.Overlooks call ↔ ∃ p ∈ call.paths, s.Misspells p ∨ s'.Misspells p := by
      rw [MemoryStore.Overlooks, hr]
      simp [Except.toOption, hanswer a]
    by_cases hover : s.Overlooks call
    · obtain ⟨e', he'⟩ := hfailed (hmisspelled a s' hx (hoverlooks.mp hover))
      rw [Agrees, if_pos hover, hr, he']
      simp [Except.toOption]
    · rw [Agrees, if_neg hover, hr, hd, runFrom_run_bind]
      rw [hoverlooks] at hover
      push Not at hover
      obtain ⟨d', hy, h'⟩ := hok a s' hx hover
      rw [hy]
      exact ⟨rfl, h'⟩

/-- What is to be shown of a call that changes a store. -/
theorem Agrees.of_changing {f : MemoryStore → MemoryStore.Update}
    {y : Attempt (StateM Disk) Unit} (h : Mirrors W loc s d)
    (hs : MemoryStore.backend.answer call = MemoryStore.changing f >>= fun _ ↦ pure .done)
    (hd : (System.backend system).answer call = y >>= fun _ ↦ pure .done)
    (hfollows : ∀ s', f s = .ok s' → (∀ p ∈ call.paths, ¬s.Misspells p ∧ ¬s'.Misspells p) →
      Follows W loc s' d y)
    (hmisspelled : ∀ s', f s = .ok s' → (∃ p ∈ call.paths, s.Misspells p ∨ s'.Misspells p) →
      Fails d y)
    (herror : (∀ s', f s ≠ .ok s') → Fails d y) : Agrees W loc s d call := by
  refine .of_runs (fun _ ↦ by simp) h hs hd ?_ ?_ ?_
  · intro a s' hx hspelled
    exact hfollows s' (MemoryStore.run_changing_eq_ok_iff.mp hx) hspelled
  · intro a s' hx hpaths
    exact hmisspelled s' (MemoryStore.run_changing_eq_ok_iff.mp hx) hpaths
  · intro e s' hx
    rcases hf : f s with e' | t
    · rw [MemoryStore.runFrom_changing_of_error hf] at hx
      refine ⟨(Prod.mk.inj hx).2.symm, herror fun t ht ↦ ?_⟩
      rw [hf] at ht
      cases ht
    · rw [MemoryStore.runFrom_changing_of_ok hf] at hx
      cases hx

/-- What is to be shown of a call that reads at one path. -/
theorem Agrees.of_asking {f : MemoryStore → Except StorageError α}
    {y : Attempt (StateM Disk) α} {answer : α → Answer} (hanswer : ∀ a, answer a ≠ .there false)
    (h : Mirrors W loc s d) (hpaths : call.paths = [p])
    (hs : MemoryStore.backend.answer call = MemoryStore.asking f >>= fun a ↦ pure (answer a))
    (hd : (System.backend system).answer call = y >>= fun a ↦ pure (answer a))
    (hok : ∀ a, f s = .ok a → ¬s.Misspells p → runFrom d y.run = (.ok a, d))
    (hfails : (s.Misspells p ∨ ∀ a, f s ≠ .ok a) → Fails d y) : Agrees W loc s d call := by
  have hrun : ∀ r s', runFrom s (MemoryStore.asking f).run = (r, s') → f s = r ∧ s = s' :=
    fun r s' hx ↦ Prod.mk.inj hx
  refine .of_runs hanswer h hs hd ?_ ?_ ?_
  · intro a s' hx hspelled
    obtain ⟨hf, rfl⟩ := hrun _ _ hx
    exact ⟨d, hok a hf (hspelled p (by simp [hpaths])).1, h⟩
  · intro a s' hx hmisspelled
    obtain ⟨hf, rfl⟩ := hrun _ _ hx
    refine hfails (.inl ?_)
    simpa [hpaths] using hmisspelled
  · intro e s' hx
    obtain ⟨hf, rfl⟩ := hrun _ _ hx
    refine ⟨rfl, hfails (.inr fun a ha ↦ ?_)⟩
    rw [hf] at ha
    cases ha

end Calls

section Answers

variable {W p source : Path} {loc : Location} {s : MemoryStore} {d : Disk}
  {init sourceInit : List EntryName} {name sourceName : EntryName} (h : Mirrors W loc s d)
  (hp : W.Leads p init name)
include h hp

theorem agrees_exists : Agrees W loc s d (.exists_ p) := by
  have hr : runFrom s (MemoryStore.backend.answer (.exists_ p)).run =
      (.ok (.there (s.kindOf? p).isSome), s) := rfl
  have hr' : runFrom d ((System.backend system).answer (.exists_ p)).run =
      (.ok (.there (s.onDisk? p).isSome), d) := by
    show runFrom d (liftM ((System.backend system).exists_ p) >>= fun yes ↦
      pure (.there yes) : Attempt (StateM Disk) Answer).run = _
    rw [runFrom_run_bind, runFrom_run_lift, h.runFrom_exists hp]
    rfl
  have hoverlooks : s.Overlooks (.exists_ p) ↔ (s.node? p).isSome = true ∧ s.Misspells p := by
    rw [MemoryStore.Overlooks, hr, hp.kindOf?_eq, Option.isSome_map]
    simp [Except.toOption, Call.paths, Option.isSome_iff_ne_none]
  unfold Agrees
  rw [hr, hr', hp.kindOf?_eq, Option.isSome_map, MemoryStore.onDisk?]
  by_cases hmisspelled : s.Misspells p
  · rcases hthere : (s.node? p).isSome
    · rw [if_neg (by simp [hoverlooks, hthere]), if_pos hmisspelled]
      exact ⟨rfl, h⟩
    · rw [if_pos (hoverlooks.mpr ⟨hthere, hmisspelled⟩), if_pos hmisspelled]
      simp [Except.toOption]
  · rw [if_neg (by simp [hoverlooks, hmisspelled]), if_neg hmisspelled]
    exact ⟨rfl, h⟩

theorem agrees_read : Agrees W loc s d (.read p) := by
  refine .of_asking (fun _ ↦ by simp) h rfl rfl rfl (fun bytes hread hspelled ↦ ?_)
    fun hfails ↦ h.fails_read hp fun bytes hbytes ↦ ?_
  · refine h.runFrom_read hp ?_
    rw [MemoryStore.onDisk?, if_neg hspelled, MemoryStore.read_eq_ok_iff.mp hread]
  · rw [MemoryStore.onDisk?] at hbytes
    split at hbytes
    · cases hbytes
    · exact hfails.resolve_left ‹_› bytes (MemoryStore.read_eq_ok_iff.mpr hbytes)

theorem agrees_stat : Agrees W loc s d (.stat p) := by
  have hstat : s.stat p = (s.node? p).elim (.error (.notFound p)) fun n ↦ .ok n.metadata := by
    have hroot : ¬p.isRoot = true := by simp [hp.isRoot_eq_false]
    rw [MemoryStore.stat, if_neg hroot]
    rcases s.node? p with _ | n <;> rfl
  refine .of_asking (fun _ ↦ by simp) h rfl rfl rfl (fun found hfound hspelled ↦ ?_)
    fun hfails ↦ h.fails_stat hp ?_
  · rw [hstat] at hfound
    rcases hnode : s.node? p with _ | n
    all_goals rw [hnode] at hfound
    · cases hfound
    · obtain rfl := Except.ok.inj hfound
      refine h.runFrom_stat hp ?_
      rw [MemoryStore.onDisk?, if_neg hspelled, hnode]
  · rw [MemoryStore.onDisk?]
    split
    · rfl
    · have hnever := hfails.resolve_left ‹_›
      rcases hnode : s.node? p with _ | n
      · rfl
      · exact absurd (by rw [hstat, hnode, Option.elim_some]) (hnever n.metadata)

theorem agrees_list (hapart : s.ListsApart p) : Agrees W loc s d (.list p) := by
  have hlist : s.kindOf? p = some .directory ↔ ∃ listing, s.list p = .ok listing := by
    unfold MemoryStore.list
    rcases s.kindOf? p with _ | _ | _ <;> simp
  refine .of_asking (fun _ ↦ by simp) h rfl rfl rfl (fun listing hlisting hspelled ↦ ?_)
    fun hfails ↦ h.fails_list hp fun hdir ↦ ?_
  · exact h.runFrom_list hp (MemoryStore.not_hasNul_of_spelled hspelled) hlisting hapart
  · obtain ⟨hnul, hkind⟩ := (MemoryStore.onDisk?_eq_dir_iff hp.isRoot_eq_false).mp hdir
    obtain ⟨listing, hlisting⟩ := hlist.mp hkind
    refine hfails.elim ?_ fun hnever ↦ hnever listing hlisting
    rintro (hhas | ⟨-, hfile⟩)
    · exact hnul hhas
    · rw [hkind] at hfile
      cases hfile

theorem agrees_mkdir (recursive : Bool) : Agrees W loc s d (.mkdir p recursive) := by
  refine .of_changing h rfl rfl (fun s' hmkdir hspelled ↦ ?_) (fun s' hmkdir hpaths ↦ ?_)
    fun hnever ↦ h.fails_mkdir hp (.inr hnever)
  · have hnul := MemoryStore.not_hasNul_of_spelled (hspelled p (by simp [Call.paths])).1
    exact h.follows_mkdir hp hnul hmkdir
  · obtain ⟨hfile, hdir⟩ := MemoryStore.kindOf?_of_mkdir hp (h.isAbsolute_of_leads hp) hmkdir
    refine h.fails_mkdir hp (.inl ?_)
    simpa [Call.paths, MemoryStore.Misspells, hfile, hdir] using hpaths

theorem agrees_write (bytes : ByteArray) : Agrees W loc s d (.write p bytes) := by
  have hwritten : ∀ s', s.write p bytes = .ok s' → s'.kindOf? p = some .file := by
    intro s' hwrite
    obtain ⟨-, rfl⟩ := (MemoryStore.write_eq_ok_iff hp).mp hwrite
    rw [hp.kindOf?_eq, MemoryStore.node?_insert, if_pos rfl]
    rfl
  refine .of_changing h rfl rfl (fun s' hwrite hspelled ↦ ?_) (fun s' hwrite hpaths ↦ ?_)
    fun hnever ↦ h.fails_write hp (.inr (.inr hnever))
  · have hspelled' := (hspelled p (by simp [Call.paths])).2
    exact h.follows_write hp (MemoryStore.not_hasNul_of_spelled hspelled')
      (MemoryStore.tail_eq_empty_of_spelled hspelled' (hwritten s' hwrite)) hwrite
  · refine h.fails_write hp ?_
    have hmisspelled : s.Misspells p ∨ s'.Misspells p := by simpa [Call.paths] using hpaths
    unfold MemoryStore.Misspells at hmisspelled
    tauto

theorem agrees_rm {recursive : Bool} (hfits : recursive = true → s.FitsBelow p) :
    Agrees W loc s d (.rm p recursive) := by
  refine .of_changing h rfl rfl (fun s' hrm hspelled ↦ ?_) (fun s' hrm hpaths ↦ ?_)
    fun hnever ↦ h.fails_rm hp (.inr hnever)
  · exact h.follows_rm hp (hspelled p (by simp [Call.paths])).1 hfits hrm
  · have hgone : s'.kindOf? p = none := by
      rw [hp.kindOf?_eq, h.closed.node?_rm hp.parts_ne_nil (MemoryStore.rm_cases hrm).2,
        if_pos (Path.startsWith_of_equiv rfl)]
      rfl
    have hmisspelled : s.Misspells p ∨ s'.Misspells p := by simpa [Call.paths] using hpaths
    exact h.fails_rm hp (.inl (MemoryStore.misspells_of_gone hgone hmisspelled))

theorem agrees_unlink : Agrees W loc s d (.unlink p) := by
  refine .of_changing h rfl rfl (fun s' hunlink hspelled ↦ ?_) (fun s' hunlink hpaths ↦ ?_)
    fun hnever ↦ h.fails_unlink hp (.inr hnever)
  · exact h.follows_unlink hp (hspelled p (by simp [Call.paths])).1 hunlink
  · have hgone : s'.kindOf? p = none := by
      rw [hp.kindOf?_eq, (MemoryStore.unlink_cases hunlink).2, MemoryStore.node?_erase,
        if_pos rfl]
      rfl
    have hmisspelled : s.Misspells p ∨ s'.Misspells p := by simpa [Call.paths] using hpaths
    exact h.fails_unlink hp (.inl (MemoryStore.misspells_of_gone hgone hmisspelled))

theorem agrees_copyFile (hsource : W.Leads source sourceInit sourceName) (hne : ¬source ≈ p) :
    Agrees W loc s d (.copyFile source p) := by
  have hcopied : ∀ s', s.copyFile source p = .ok s' →
      s'.kindOf? p = some .file ∧ s'.kindOf? source = s.kindOf? source := by
    intro s' hcopy
    obtain ⟨bytes, -, hwrite⟩ := MemoryStore.copyFile_cases hcopy
    obtain ⟨-, rfl⟩ := (MemoryStore.write_eq_ok_iff hp).mp hwrite
    rw [hp.kindOf?_eq, hsource.kindOf?_eq, hsource.kindOf?_eq, MemoryStore.node?_insert,
      MemoryStore.node?_insert, if_pos rfl, if_neg fun hsame ↦ hne (Eq.symm hsame)]
    exact ⟨rfl, rfl⟩
  refine .of_changing h rfl rfl (fun s' hcopy hspelled ↦ ?_) (fun s' hcopy hpaths ↦ ?_)
    fun hnever ↦ h.fails_copyFile hsource hp (.inr (.inr (.inr hnever)))
  · have hspelled' := (hspelled p (by simp [Call.paths])).2
    exact h.follows_copyFile hsource hp hne (hspelled source (by simp [Call.paths])).1
      (MemoryStore.not_hasNul_of_spelled hspelled')
      (MemoryStore.tail_eq_empty_of_spelled hspelled' (hcopied s' hcopy).1) hcopy
  · refine h.fails_copyFile hsource hp ?_
    have hmisspelled : (s.Misspells source ∨ s'.Misspells source) ∨
        s.Misspells p ∨ s'.Misspells p := by
      simpa [Call.paths] using hpaths
    unfold MemoryStore.Misspells at hmisspelled ⊢
    rw [(hcopied s' hcopy).2] at hmisspelled
    tauto

end Answers

/-- **A call is answered alike**, unless the store overlooks how it is spelled. -/
theorem agrees_answer {W : Path} {loc : Location} {s : MemoryStore} {d : Disk} {call : Call}
    (h : Mirrors W loc s d) (hcall : call.IsBelow W) (hfits : call.FitsDisk s) :
    Agrees W loc s d call := by
  have hleads : ∀ p ∈ call.paths, ∃ init name, W.Leads p init name :=
    fun p hp ↦ Call.exists_leads hcall hfits hp
  cases call with
  | exists_ p =>
    obtain ⟨init, name, hp⟩ := hleads p List.mem_cons_self
    exact agrees_exists h hp
  | mkdir p recursive =>
    obtain ⟨init, name, hp⟩ := hleads p List.mem_cons_self
    exact agrees_mkdir h hp recursive
  | write p bytes =>
    obtain ⟨init, name, hp⟩ := hleads p List.mem_cons_self
    exact agrees_write h hp bytes
  | read p =>
    obtain ⟨init, name, hp⟩ := hleads p List.mem_cons_self
    exact agrees_read h hp
  | stat p =>
    obtain ⟨init, name, hp⟩ := hleads p List.mem_cons_self
    exact agrees_stat h hp
  | list p =>
    obtain ⟨init, name, hp⟩ := hleads p List.mem_cons_self
    exact agrees_list h hp (hfits.apart p rfl)
  | rm p recursive =>
    obtain ⟨init, name, hp⟩ := hleads p List.mem_cons_self
    refine agrees_rm h hp fun hrecursive ↦ hfits.below p ?_
    rw [hrecursive]
    exact rfl
  | unlink p =>
    obtain ⟨init, name, hp⟩ := hleads p List.mem_cons_self
    exact agrees_unlink h hp
  | rename source target => cases hcall.isPlain
  | copyFile source target =>
    obtain ⟨sourceInit, sourceName, hsource⟩ := hleads source (by simp [Call.paths])
    obtain ⟨init, name, hp⟩ := hleads target (by simp [Call.paths])
    exact agrees_copyFile h hp hsource (of_decide_eq_true hcall.isPlain)

/-! ### Sessions -/

/-- **A disk and a store in memory agree**, unless the store overlooks something. Let the disk have
the same tree below the directory `W` as the store, without links, and let calls that rename nothing
be about entries below `W` and stay within the limits of the disk. They all have the same results on
both, with the same tree behind each of them, exactly when the store never accepts a path with a NUL
in it or with a slash behind the name of a file. -/
theorem backends_agree_iff {W : Path} {loc : Location} {s : MemoryStore} {d : Disk}
    {calls : List Call} (h : Mirrors W loc s d) (hcalls : ∀ call ∈ calls, call.IsBelow W)
    (hfits : MemoryStore.backend.Along (fun s call ↦ call.FitsDisk s) s calls) :
    Agree W loc calls s d ↔ MemoryStore.backend.Along (fun s call ↦ ¬s.Overlooks call) s calls := by
  induction calls generalizing s d with
  | nil => exact Iff.rfl
  | cons call calls ih =>
    obtain ⟨hcall, hcalls⟩ := List.forall_mem_cons.mp hcalls
    obtain ⟨hfit, hfits⟩ := hfits
    have hagrees := agrees_answer h hcall hfit
    rw [Agree, Backend.Along]
    unfold Agrees at hagrees
    by_cases hover : s.Overlooks call
    · rw [if_pos hover] at hagrees
      exact iff_of_false (fun hagree ↦ hagrees hagree.1.1) fun halong ↦ halong.1 hover
    · rw [if_neg hover] at hagrees
      obtain ⟨hanswer, h'⟩ := hagrees
      exact and_congr (iff_of_true ⟨hanswer, h'.same⟩ hover) (ih h' hcalls hfits)

section EmptyDirectory

/-- The name of the only entry of a disk. -/
def onlyName : EntryName := .spelled "w" (by decide)

/-- A store with an empty directory. -/
def emptyStore : MemoryStore := MemoryStore.empty.withDir (.ofText "/w")

/-- A disk with an empty directory. -/
def emptyDisk : Disk where
  entries := [([onlyName], .dir)]
  current := []

theorem mirrors_emptyDisk : Mirrors (.ofText "/w") [onlyName] emptyStore emptyDisk := by
  have hclosed : emptyStore.Closed :=
    (MemoryStore.wellFormed_iff_closed.mp (by decide +kernel)).1
  have hreaches : emptyDisk.Reaches (.ofText "/w") [onlyName] := by
    refine reaches_of_dirs (by decide +kernel) (by decide +kernel) fun l hl ↦ ?_
    rcases List.prefix_cons_iff.mp hl with rfl | ⟨rest, rfl, hrest⟩
    · rfl
    · rw [List.prefix_nil.mp hrest]
      decide +kernel
  exact mirrors_of_bare (by decide +kernel) (by decide +kernel) hclosed (by decide +kernel)
    (by decide +kernel) rfl hreaches (by decide +kernel)

/-- In an empty directory a file is written and copied, and directories are made, listed and removed
again. Three of the calls fail: to write below a file, to remove a directory with something in it,
and to read what was removed. -/
theorem backends_agree_iff_working :
    let calls : List Call := [.mkdir (.ofText "/w/a/b") true,
      .write (.ofText "/w/a/f") "1".toUTF8, .write (.ofText "/w/a/f/x") "2".toUTF8,
      .copyFile (.ofText "/w/a/f") (.ofText "/w/g"), .list (.ofText "/w/a/"),
      .rm (.ofText "/w/a") false, .rm (.ofText "/w/a") true, .read (.ofText "/w/a/f"),
      .stat (.ofText "/w/g")]
    ((∀ call ∈ calls, call.IsBelow (.ofText "/w")) ∧
        MemoryStore.backend.Along (fun s call ↦ call.FitsDisk s) emptyStore calls) ∧
      Agree (.ofText "/w") [onlyName] calls emptyStore emptyDisk := by
  intro calls
  have hcalls : ∀ call ∈ calls, call.IsBelow (.ofText "/w") := by decide +kernel
  have hfits : MemoryStore.backend.Along (fun s call ↦ call.FitsDisk s) emptyStore calls := by
    decide +kernel
  have hspelled : MemoryStore.backend.Along (fun s call ↦ ¬s.Overlooks call) emptyStore calls := by
    decide +kernel
  exact ⟨⟨hcalls, hfits⟩, (backends_agree_iff mirrors_emptyDisk hcalls hfits).mpr hspelled⟩

/-- A file is written and asked for with a slash behind its name: it exists in the store and not on
the disk. -/
theorem slash_behind_file_divides :
    let calls : List Call := [.write (.ofText "/w/f") "x".toUTF8, .exists_ (.ofText "/w/f/")]
    (Mirrors (.ofText "/w") [onlyName] emptyStore emptyDisk ∧
        (∀ call ∈ calls, call.IsBelow (.ofText "/w")) ∧
        MemoryStore.backend.Along (fun s call ↦ call.FitsDisk s) emptyStore calls) ∧
      ¬Agree (.ofText "/w") [onlyName] calls emptyStore emptyDisk := by
  intro calls
  have hcalls : ∀ call ∈ calls, call.IsBelow (.ofText "/w") := by decide +kernel
  have hfits : MemoryStore.backend.Along (fun s call ↦ call.FitsDisk s) emptyStore calls := by
    decide +kernel
  refine ⟨⟨mirrors_emptyDisk, hcalls, hfits⟩, ?_⟩
  rintro ⟨-, ⟨hsame, -⟩, -⟩
  have hwritten := agrees_answer mirrors_emptyDisk (hcalls _ List.mem_cons_self) hfits.1
  rw [Agrees, if_neg (by decide +kernel)] at hwritten
  have hasked := agrees_answer hwritten.2 (hcalls _ (by simp [calls])) hfits.2.1
  rw [Agrees, if_pos (by decide +kernel)] at hasked
  exact hasked hsame

end EmptyDirectory

end Disk

end Scaffold
