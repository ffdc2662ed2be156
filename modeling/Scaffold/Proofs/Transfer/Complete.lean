import Scaffold.Proofs.Store.Tree
import Scaffold.Proofs.Transfer.Carry

/-!
# Complete transfers of a directory

Which entries a transfer of a directory carries over is known from the store in which it begins
(`Meets`): those that are stored in the directory, and if it is copied by walking through it, also
those that were carried to a place which the walk had yet to come to. When all of them have been
carried over in the order of their paths the transfer is `Complete`.

What a complete transfer leaves is then known as well. Files keep their bytes exactly if for each of
them its own bytes arrive (`Complete.keeps_iff`). When the directory is removed behind that, no file
may have been carried to a place in it, and there is nothing else that can go wrong
(`Complete.keeps_rm_iff`).
-/

namespace Scaffold.Transfer

open MemoryStore

/-- The entries that are carried over: those that are stored below `source`, and if the directory is
copied as a whole also those that were carried to a place in a directory which comes later. -/
inductive Meets (store : MemoryStore) (source target : Path) (whole : Prop) : Entry → Prop where
  | stored {names : List EntryName} {n : StoredNode}
    (h : store.node? (source.under names) = some n) :
    Meets store source target whole (names, n.kind)
  | placed {earlier dir : List EntryName} {name : EntryName} {kind : EntryKind} (hwhole : whole)
    (hmet : Meets store source target whole (earlier, kind))
    (hdir : Meets store source target whole (dir, .directory))
    (hbefore : (source.under earlier).order (source.under dir) = .lt)
    (hplace : target.under earlier ≈ source.under (dir ++ [name])) :
    Meets store source target whole (dir ++ [name], kind)

/-- All that is met has been carried over, in the order of the paths. -/
def Complete (store : MemoryStore) (source target : Path) (whole : Prop) (s : MemoryStore) : Prop :=
  ∃ done, CarriedOver source target store done s ∧ InOrder source done ∧
    ∀ x, x ∈ done ↔ Meets store source target whole x

/-- Every file that was stored below `source` is there below `target`, with its bytes. -/
def KeepsFiles (store : MemoryStore) (source target : Path) (s : MemoryStore) : Prop :=
  ∀ names bytes, store.node? (source.under names) = some (.file bytes) →
    s.node? (target.under names) = some (.file bytes)

variable {store s s' : MemoryStore} {source target : Path} {whole : Prop} {names : List EntryName}

/-! ### What is met -/

theorem Meets.root (hdir : store.node? source = some .dir) :
    Meets store source target whole ([], .directory) :=
  @Meets.stored store source target whole [] .dir hdir

/-- Entry by entry, what is met is what is stored. -/
theorem meets_iff_stored (x : Entry) : Meets store source target False x ↔
    ∃ n, store.node? (source.under x.1) = some n ∧ n.kind = x.2 := by
  constructor
  · intro h
    cases h with
    | stored hn => exact ⟨_, hn, rfl⟩
    | placed hwhole => exact hwhole.elim
  · rintro ⟨n, hn, hkind⟩
    obtain ⟨names, kind⟩ := x
    obtain rfl : n.kind = kind := hkind
    exact .stored hn

/-- In an empty directory there is nothing to meet. -/
theorem Meets.eq_root (hdir : store.node? source = some .dir)
    (houtside : target.startsWith source = false)
    (hempty : ∀ name more, store.node? (source.under (name :: more)) = none) {x : Entry}
    (h : Meets store source target whole x) : x = ([], .directory) := by
  induction h with
  | @stored names n hn =>
    rcases names with - | ⟨name, more⟩
    · obtain rfl := Option.some.inj (hdir.symm.trans hn)
      rfl
    · rw [hempty] at hn
      cases hn
  | placed _ _ _ _ hplace ih =>
    obtain ⟨rfl, rfl⟩ := Prod.mk.inj ih
    exact absurd (Path.startsWith_of_under hplace) (Bool.eq_false_iff.mp houtside)

/-- A file that is met is a stored one, if no stored file is carried to a place in the source. -/
theorem Meets.stored_of_apart (hapart : ∀ names bytes,
      store.node? (source.under names) = some (.file bytes) →
      (target.under names).startsWith source = false) {x : Entry}
    (h : Meets store source target whole x) (hfile : x.2 = .file) :
    ∃ bytes, store.node? (source.under x.1) = some (.file bytes) := by
  induction h with
  | @stored names n hn =>
    cases n with
    | dir => cases hfile
    | file bytes => exact ⟨bytes, hn⟩
  | placed _ _ _ _ hplace ih =>
    obtain ⟨bytes, hbytes⟩ := ih hfile
    exact absurd (Path.startsWith_of_under hplace) (Bool.eq_false_iff.mp (hapart _ _ hbytes))

/-! ### What is left -/

/-- **What a complete transfer leaves** for a file that was stored. -/
theorem Complete.file_iff (h : Complete store source target whole s) {stored : ByteArray}
    (hfile : store.node? (source.under names) = some (.file stored)) (bytes : ByteArray) :
    s.node? (target.under names) = some (.file bytes) ↔
      Yields store source target (Meets store source target whole) names bytes := by
  obtain ⟨done, hcarried, horder, hmem⟩ := h
  exact hcarried.file_iff (List.append_nil done).symm horder (fun x ↦ (hmem x).symm)
    ((hmem _).mpr (.stored hfile)) bytes

/-- **A complete transfer keeps files** exactly if for each of them its own bytes arrive. -/
theorem Complete.keeps_iff (h : Complete store source target whole s) :
    KeepsFiles store source target s ↔
      ∀ names bytes, store.node? (source.under names) = some (.file bytes) →
        Yields store source target (Meets store source target whole) names bytes :=
  forall₃_congr fun _ bytes hfile ↦ h.file_iff hfile bytes

/-- **Removing the source keeps files** exactly if none of them was carried to a place in it. -/
theorem Complete.keeps_rm_iff (h : Complete store source target whole s)
    (hdir : store.node? source = some .dir) (hrm : s.rm source true = .ok s') :
    KeepsFiles store source target s' ↔
      ∀ names bytes, store.node? (source.under names) = some (.file bytes) →
        (target.under names).startsWith source = false := by
  -- the directory is still there when it is removed
  have hthere : s.kindOf? source = some .directory := by
    obtain ⟨done, hcarried, -⟩ := h
    exact hcarried.kindOf?_keeps (kindOf?_eq_directory_iff.mpr (.inr hdir))
  obtain ⟨removed, hremoved, hview⟩ := rm_directory hthere
  obtain rfl := Except.ok.inj (hremoved.symm.trans hrm)
  constructor
  · intro hkeeps names bytes hfile
    have hkept := hkeeps names bytes hfile
    rw [hview] at hkept
    by_contra hin
    rw [if_pos (Bool.not_eq_false _ ▸ hin)] at hkept
    cases hkept
  · intro hapart names bytes hfile
    rw [hview, if_neg (by simp [hapart names bytes hfile]), h.file_iff hfile]
    refine .own hfile fun earlier hmet _ hplace ↦ ?_
    obtain ⟨bytes', hfile'⟩ := hmet.stored_of_apart hapart rfl
    exact absurd (Path.startsWith_of_under hplace)
      (Bool.eq_false_iff.mp (hapart earlier bytes' hfile'))

/-- An empty directory is carried over either way. -/
theorem Complete.of_empty (hdir : store.node? source = some .dir)
    (houtside : target.startsWith source = false)
    (hempty : ∀ name more, store.node? (source.under (name :: more)) = none) {whole' : Prop}
    (h : Complete store source target whole s) : Complete store source target whole' s := by
  obtain ⟨done, hcarried, horder, hmem⟩ := h
  refine ⟨done, hcarried, horder, fun x ↦ (hmem x).trans ⟨fun hx ↦ ?_, fun hx ↦ ?_⟩⟩
  · rw [hx.eq_root hdir houtside hempty]
    exact .root hdir
  · rw [hx.eq_root hdir houtside hempty]
    exact .root hdir

end Scaffold.Transfer
