import Mathlib.Data.List.Sort
import Scaffold.Proofs.Paths
import Scaffold.Storage.Backend

/-!
# Listings

A listing shows every name as a text and is sorted by name. Sorting is an insertion sort, so it is
stable (`sortByName_eq_insertionSort`), and what is sorted already stays as it is
(`sortByName_of_sorted`).

A name that is a text is listed as itself (`EntryName.listed_eq_self_iff`). Where all names of a
directory are texts its listing is therefore the directory, and sorting moves nothing
(`sortByName_listed`).
-/

namespace Scaffold

namespace DirEntry

/-- The order of listings: the name of `a` is not greater than that of `b`. -/
def NotAfter (a b : DirEntry) : Prop := (compare a.name.bytes b.name.bytes).isLE = true

instance : DecidableRel NotAfter := fun _ _ ↦ inferInstanceAs (Decidable (_ = _))

instance : Std.Total NotAfter where
  total a b := by
    have hswap : compare b.name.bytes a.name.bytes = (compare a.name.bytes b.name.bytes).swap :=
      Std.OrientedCmp.eq_swap
    unfold NotAfter
    rw [hswap]
    cases compare a.name.bytes b.name.bytes <;> simp

instance : IsTrans DirEntry NotAfter := ⟨fun _ _ _ h h' ↦ Std.TransCmp.isLE_trans h h'⟩

/-- **Listings are sorted by insertion.** -/
theorem sortByName_eq_insertionSort (entries : List DirEntry) :
    sortByName entries = entries.insertionSort NotAfter := by
  have hinsert : ∀ e entries, insertByName e entries = List.orderedInsert NotAfter e entries := by
    intro e entries
    induction entries with
    | nil => rfl
    | cons x entries ih => rw [insertByName, List.orderedInsert_cons, ih]; rfl
  induction entries with
  | nil => rfl
  | cons e entries ih =>
    rw [sortByName, List.foldr_cons, ← sortByName, ih, hinsert, List.insertionSort_cons]

@[simp] theorem mem_sortByName {e : DirEntry} {entries : List DirEntry} :
    e ∈ sortByName entries ↔ e ∈ entries := by
  rw [sortByName_eq_insertionSort, List.mem_insertionSort]

/-- **The order of what is sorted does not matter** where entries of one name are the same. -/
theorem sortByName_eq_of_perm {entries entries' : List DirEntry} (h : entries.Perm entries')
    (hname : ∀ a ∈ entries, ∀ b ∈ entries, a.name = b.name → a = b) :
    sortByName entries = sortByName entries' := by
  rw [sortByName_eq_insertionSort, sortByName_eq_insertionSort]
  have hperm : (entries.insertionSort NotAfter).Perm (entries'.insertionSort NotAfter) :=
    (List.perm_insertionSort _ _).trans (h.trans (List.perm_insertionSort _ _).symm)
  refine hperm.eq_of_pairwise (fun a b ha hb hab hba ↦ ?_) (List.pairwise_insertionSort _ _)
    (List.pairwise_insertionSort _ _)
  rw [List.mem_insertionSort] at ha hb
  refine hname a ha b (h.mem_iff.mpr hb) (EntryName.bytes_inj ?_)
  exact Std.LawfulEqOrd.eq_of_compare (Std.OrientedCmp.isLE_antisymm hab hba)

/-- What is sorted stays as it is. -/
theorem sortByName_of_sorted {entries : List DirEntry} (h : entries.Pairwise NotAfter) :
    sortByName entries = entries := by
  rw [sortByName_eq_insertionSort, h.insertionSort_eq]

/-- An entry whose name is a text is listed as it is. -/
theorem listed_eq_self {e : DirEntry} (h : e.name.isText = true) : e.listed = e := by
  rw [listed, EntryName.listed_eq_self_iff.mpr h]

/-- **Entries whose names are texts** are listed as they are, if they are sorted. -/
theorem sortByName_listed {entries : List DirEntry} (hsorted : entries.Pairwise NotAfter)
    (htext : ∀ e ∈ entries, e.name.isText = true) :
    sortByName (entries.map listed) = entries := by
  rw [List.map_congr_left fun e he ↦ listed_eq_self (htext e he), List.map_id',
    sortByName_of_sorted hsorted]

end DirEntry

end Scaffold
