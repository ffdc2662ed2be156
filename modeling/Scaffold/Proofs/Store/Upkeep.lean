import Scaffold.Proofs.Store.Closed
import Scaffold.Proofs.Store.Session

/-!
# Calls keep trees

What is renamed is removed where it was, and at the new place it shows what was seen at the old one
(`Moved`, `Closed.moved_of_rename`); since the directory around the new place is not moved along, a
closed store stays closed (`Closed.rename`). That holds of the other calls too, so on absolute paths
all calls keep stores well formed, and a call that fails changes nothing (`calls_keep_trees`). What
one call keeps a session of calls keeps (`session_keeps_trees`).

What is read from a text is a proper path: the root and the directory itself are parts of it only
where it starts (`isProper_ofText`). This is asked of what is renamed, because a path behind which
the root stood again would not be moved with the directory that it is behind.
-/

namespace Scaffold

/-! ### Proper paths -/

namespace Path

variable {p q r source target : Path}

/-- The root and the directory itself are parts of the path only where it starts. -/
def IsProper (p : Path) : Prop := ∀ part ∈ p.parts.tail, part ≠ .root ∧ part ≠ .here

instance (p : Path) : Decidable p.IsProper :=
  inferInstanceAs (Decidable (∀ part ∈ p.parts.tail, part ≠ .root ∧ part ≠ .here))

theorem of_readSegments {gap : String} {segs : List String} {piece : Piece}
    (h : piece ∈ (readSegments gap segs).1) : piece.part ≠ .root ∧ piece.part ≠ .here := by
  induction segs generalizing gap with
  | nil => cases h
  | cons seg segs ih =>
    rw [readSegments] at h
    split at h
    · rename_i part hpart
      rcases List.mem_cons.mp h with rfl | h
      · unfold Part.ofSegment? at hpart
        split at hpart
        · obtain rfl := Option.some.inj hpart
          simp
        · split at hpart
          · obtain rfl := Option.some.inj hpart
            simp
          · cases hpart
      · exact ih h
    · exact ih h

/-- **What is read from a text** is proper. -/
theorem isProper_ofText (s : String) : (ofText s).IsProper := by
  have hread : ∀ (gap : String) (segs : List String) (part : Part),
      part ∈ (readSegments gap segs).1.map Piece.part → part ≠ .root ∧ part ≠ .here := by
    intro gap segs part hpart
    obtain ⟨piece, hpiece, rfl⟩ := List.mem_map.mp hpart
    exact of_readSegments hpiece
  unfold ofText
  split
  · exact hread _ _
  · split
    · exact hread _ _
    · exact fun part hpart ↦ hread _ _ part (List.mem_of_mem_tail hpart)

/-- What is moved from one place to another keeps the parts behind the place. -/
theorem parts_relocate {rest : List Part} (hp : p.IsProper) (hsource : source.parts ≠ [])
    (hparts : p.parts = source.parts ++ rest) :
    (p.relocate source target).parts = target.parts ++ rest := by
  have hdrop : (p.pieces.drop source.parts.length).map Piece.part = rest := by
    rw [List.map_drop]
    show p.parts.drop _ = rest
    rw [hparts, List.drop_left]
  have hrest : ∀ part ∈ rest, part ≠ .root ∧ part ≠ .here := by
    intro part hpart
    refine hp part ?_
    rw [hparts, List.tail_append_of_ne_nil hsource]
    exact List.mem_append_right _ hpart
  have hremainder : (p.remainder source.parts.length).parts = rest := by
    unfold remainder
    split
    · rename_i hnil
      rw [← hdrop, hnil]
      rfl
    · rename_i piece pieces hcons
      rw [← hdrop, hcons]
      rfl
  unfold relocate
  dsimp only
  split
  · rename_i hempty
    rw [List.isEmpty_iff] at hempty
    rw [← hremainder, parts, parts, hempty, List.map_nil, List.append_nil]
  · rw [parts_join, hremainder]
    · rw [isAbsolute, hremainder, beq_eq_false_iff_ne]
      exact fun hroot ↦ (hrest _ (List.mem_of_mem_head? hroot)).1 rfl
    · rw [hremainder]
      exact fun hhere ↦ (hrest _ (List.mem_of_mem_head? hhere)).2 rfl

/-- An absolute path as it is read from a text. -/
structure IsOrdinary (p : Path) : Prop where
  isAbsolute : p.isAbsolute = true
  isProper : p.IsProper

instance (p : Path) : Decidable p.IsOrdinary :=
  decidable_of_iff (p.isAbsolute = true ∧ p.IsProper) ⟨fun h ↦ ⟨h.1, h.2⟩, fun h ↦ ⟨h.1, h.2⟩⟩

namespace IsOrdinary

theorem parts_ne_nil (h : p.IsOrdinary) : p.parts ≠ [] := parts_ne_nil_of_absolute h.isAbsolute

theorem congr (h : p.IsOrdinary) (hpq : p ≈ q) : q.IsOrdinary := by
  have hparts := equiv_iff.mp hpq
  refine ⟨?_, ?_⟩
  · rw [Path.isAbsolute, ← hparts]
    exact h.isAbsolute
  · rw [IsProper, ← hparts]
    exact h.isProper

/-- What is above an ordinary path is ordinary. -/
theorem of_prefix (h : p.IsOrdinary) (hq : q.parts <+: p.parts) (hne : q.parts ≠ []) :
    q.IsOrdinary := by
  refine ⟨isAbsolute_of_isPrefix h.isAbsolute hq hne, fun part hpart ↦ h.isProper part ?_⟩
  obtain ⟨rest, hrest⟩ := hq
  rw [← hrest, List.tail_append_of_ne_nil hne]
  exact List.mem_append_left _ hpart

/-- What is behind an ordinary path may be put behind another one. -/
theorem moved {rest : List Part} (htarget : target.IsOrdinary) (hr : r.IsOrdinary)
    (hne : source.parts ≠ []) (hrest : r.parts = source.parts ++ rest)
    (hq : q.parts = target.parts ++ rest) : q.IsOrdinary := by
  have habs : q.isAbsolute = true :=
    isAbsolute_of_prefix htarget.isAbsolute (hq ▸ List.prefix_append _ _)
  refine ⟨habs, fun part hpart ↦ ?_⟩
  rw [hq, List.tail_append_of_ne_nil htarget.parts_ne_nil] at hpart
  rcases List.mem_append.mp hpart with hpart | hpart
  · exact htarget.isProper part hpart
  · refine hr.isProper part ?_
    rw [hrest, List.tail_append_of_ne_nil hne]
    exact List.mem_append_right _ hpart

end IsOrdinary

end Path

namespace MemoryStore

variable {s s' : MemoryStore} {p q r source target : Path} {n : StoredNode}

/-! ### What moves -/

theorem node?_insertAll_of_not_mem {nodes : List (Path × StoredNode)}
    (hother : ∀ a ∈ nodes, ¬a.1 ≈ q) : (s.insertAll nodes).node? q = s.node? q := by
  induction nodes generalizing s with
  | nil => rfl
  | cons a nodes ih =>
    obtain ⟨ha, hnodes⟩ := List.forall_mem_cons.mp hother
    show ((s.insert a.1 a.2).insertAll nodes).node? q = s.node? q
    rw [ih hnodes, node?_insert, if_neg ha]

/-- What is stored under one path is there, if it is the same each time. -/
theorem node?_insertAll_of_mem {nodes : List (Path × StoredNode)}
    (hmem : ∃ a ∈ nodes, a.1 ≈ q) (hsame : ∀ a ∈ nodes, a.1 ≈ q → a.2 = n) :
    (s.insertAll nodes).node? q = some n := by
  induction nodes generalizing s with
  | nil => simp at hmem
  | cons a nodes ih =>
    obtain ⟨ha, hnodes⟩ := List.forall_mem_cons.mp hsame
    by_cases hlater : ∃ a ∈ nodes, a.1 ≈ q
    · exact ih hlater hnodes
    · obtain ⟨b, hb, hbq⟩ := hmem
      obtain rfl : b = a := (List.mem_cons.mp hb).resolve_right fun hb ↦ hlater ⟨b, hb, hbq⟩
      show ((s.insert b.1 b.2).insertAll nodes).node? q = some n
      rw [node?_insertAll_of_not_mem fun c hc hcq ↦ hlater ⟨c, hc, hcq⟩, node?_insert, if_pos hbq,
        ha hbq]

/-- What is taken along with an entry is stored at the entry or below it. -/
theorem of_mem_subtree {e : StoredEntry} (he : e ∈ s.subtree p) :
    s.node? e.path = some e.node ∧ e.path.startsWith p = true := by
  rcases List.mem_append.mp he with he | he
  · obtain ⟨node, hnode, rfl⟩ := List.mem_map.mp he
    exact ⟨Option.mem_toList.mp hnode, Path.startsWith_of_equiv rfl⟩
  · obtain ⟨hstored, hstart, -⟩ := mem_descendants.mp he
    exact ⟨node?_eq_some_iff.mpr ⟨e, hstored, rfl, rfl⟩, hstart⟩

theorem exists_mem_subtree (hq : s.node? q = some n) (hstart : q.startsWith p = true) :
    ∃ e ∈ s.subtree p, e.path ≈ q ∧ e.node = n := by
  by_cases hqp : q ≈ p
  · refine ⟨⟨p, n⟩, List.mem_append_left _ ?_, (Path.equiv_iff.mp hqp).symm, rfl⟩
    rw [← s.node?_congr hqp, hq]
    simp
  · obtain ⟨e, he, heq, hnode⟩ := node?_eq_some_iff.mp hq
    have hparts := Path.equiv_iff.mp heq
    refine ⟨e, List.mem_append_right _ (mem_descendants.mpr ⟨he, ?_, fun hep ↦ hqp ?_⟩), heq, hnode⟩
    · rwa [Path.startsWith, hparts]
    · exact Path.equiv_iff.mpr (hparts.symm.trans (Path.equiv_iff.mp hep))

/-- What renaming can do. -/
theorem rename_cases (h : s.rename source target = .ok s') :
    (target.startsWith source = true → target ≈ source) ∧ s.requireParent target = .ok () ∧
      ∃ s₁ s₂, s.rm source true = .ok s₁ ∧ s₁.clear target = .ok s₂ ∧
        s' = s₂.insertAll
          ((s.subtree source).map fun e ↦ (e.path.relocate source target, e.node)) := by
  obtain ⟨moved, hmoved, h⟩ := bind_eq_ok_iff.mp h
  obtain ⟨s₁, hrm, h⟩ := bind_eq_ok_iff.mp h
  obtain ⟨s₂, hclear, h⟩ := bind_eq_ok_iff.mp h
  obtain rfl := Except.ok.inj h
  unfold takenAlong at hmoved
  split at hmoved
  · cases hmoved
  · split at hmoved
    · cases hmoved
    · rename_i hinto
      obtain ⟨⟨⟩, hparent, hmoved⟩ := bind_eq_ok_iff.mp hmoved
      obtain rfl := Except.ok.inj hmoved
      exact ⟨fun hstart ↦ by simpa [hstart] using hinto, hparent, s₁, s₂, hrm, hclear, rfl⟩

/-- At and below the target there is now what was at and below the source, and nothing is left
there; everything else is as it was. -/
structure Moved (source target : Path) (s s' : MemoryStore) : Prop where
  at_target : ∀ {q r : Path} {rest : List Part}, q.parts = target.parts ++ rest →
    r.parts = source.parts ++ rest → s'.node? q = s.node? r
  elsewhere : ∀ q : Path, q.startsWith target = false →
    s'.node? q = if q.startsWith source then none else s.node? q

/-- Every stored path is proper. -/
def Proper (s : MemoryStore) : Prop := ∀ e ∈ s.entries, e.path.IsProper

instance (s : MemoryStore) : Decidable s.Proper :=
  inferInstanceAs (Decidable (∀ e ∈ s.entries, e.path.IsProper))

theorem proper_iff : s.Proper ↔ ∀ p n, s.node? p = some n → p.IsProper := by
  constructor
  · intro h p n hp
    obtain ⟨e, he, hep, -⟩ := node?_eq_some_iff.mp hp
    rw [Path.IsProper, ← Path.equiv_iff.mp hep]
    exact h e he
  · exact fun h e he ↦ h e.path e.node (node?_eq_some_iff.mpr ⟨e, he, rfl, rfl⟩)

/-- **Renaming moves** what is stored. -/
theorem Closed.moved_of_rename (h : s.Closed) (hproper : s.Proper) (hsource : source.parts ≠ [])
    (htarget : target.parts ≠ []) (hrename : s.rename source target = .ok s') :
    Moved source target s s' := by
  obtain ⟨-, -, s₁, s₂, hrm, hclear, rfl⟩ := rename_cases hrename
  have hview₁ := h.node?_rm hsource hrm
  have hview₂ := (h.rm hrm).node?_clear htarget hclear
  -- where an entry that is taken along goes
  have hgoes : ∀ e ∈ s.subtree source, ∃ rest, e.path.parts = source.parts ++ rest ∧
      (e.path.relocate source target).parts = target.parts ++ rest := by
    intro e he
    obtain ⟨hstored, hstart⟩ := of_mem_subtree he
    obtain ⟨rest, hrest⟩ := Path.startsWith_iff.mp hstart
    exact ⟨rest, hrest.symm, Path.parts_relocate (proper_iff.mp hproper _ _ hstored) hsource
      hrest.symm⟩
  constructor
  · intro q r rest hq hr
    have hcleared : s₂.node? q = none := by
      rw [hview₂, if_pos (Path.startsWith_iff.mpr (hq ▸ List.prefix_append _ _))]
    -- what goes to `q` comes from `r`
    have hfrom : ∀ e ∈ s.subtree source, e.path.relocate source target ≈ q ↔ e.path ≈ r := by
      intro e he
      obtain ⟨rest', hsplit, hrelocated⟩ := hgoes e he
      rw [Path.equiv_iff, Path.equiv_iff, hrelocated, hsplit, hq, hr, List.append_cancel_left_eq,
        List.append_cancel_left_eq]
    have hnode : ∀ e ∈ s.subtree source, e.path.relocate source target ≈ q →
        s.node? r = some e.node := by
      intro e he heq
      rw [← (of_mem_subtree he).1, s.node?_congr ((hfrom e he).mp heq)]
    rcases hthere : s.node? r with - | n
    · rw [node?_insertAll_of_not_mem, hcleared]
      intro a ha haq
      obtain ⟨e, he, rfl⟩ := List.mem_map.mp ha
      rw [hnode e he haq] at hthere
      cases hthere
    · refine node?_insertAll_of_mem ?_ fun a ha haq ↦ ?_
      · obtain ⟨e, he, heq, -⟩ := exists_mem_subtree hthere
          (Path.startsWith_iff.mpr (hr ▸ List.prefix_append source.parts rest))
        exact ⟨_, List.mem_map.mpr ⟨e, he, rfl⟩, (hfrom e he).mpr heq⟩
      · obtain ⟨e, he, rfl⟩ := List.mem_map.mp ha
        exact Option.some.inj ((hnode e he haq).symm.trans hthere)
  · intro q hq
    rw [node?_insertAll_of_not_mem, hview₂, hq, hview₁]
    · rfl
    · intro a ha haq
      obtain ⟨e, he, rfl⟩ := List.mem_map.mp ha
      obtain ⟨rest, -, hrelocated⟩ := hgoes e he
      rw [Bool.eq_false_iff, Ne, Path.startsWith_iff, ← Path.equiv_iff.mp haq, hrelocated] at hq
      exact hq (List.prefix_append _ _)

namespace Moved

variable (h : Moved source target s s')
include h

/-- What is neither at nor below one of the two is as it was. -/
theorem node?_beside (hqt : ¬target.parts <+: q.parts) (hqs : ¬source.parts <+: q.parts) :
    s'.node? q = s.node? q := by
  rw [← Path.startsWith_iff] at hqs
  rw [h.elsewhere q, if_neg hqs]
  rwa [Bool.eq_false_iff, Ne, Path.startsWith_iff]

/-- Only what is at or below the target is below the source. -/
theorem not_below_source (hq : s'.node? q = some n) (hqt : ¬target.parts <+: q.parts) :
    ¬source.parts <+: q.parts := by
  intro hqs
  rw [h.elsewhere q, if_pos (Path.startsWith_iff.mpr hqs)] at hq
  · cases hq
  · rwa [Bool.eq_false_iff, Ne, Path.startsWith_iff]

/-- Above what has been moved there are the directories that have been moved along. -/
theorem directory_along (hclosed : s.Closed) (hsource : source.parts ≠ [])
    (hsourceRoot : source.parts ≠ [.root]) (hp : s'.node? p = some n)
    (hqt : target.parts <+: q.parts) (hq : q.parts <+: p.parts) (hne : q.parts ≠ p.parts) :
    s'.kindOf? q = some .directory := by
  obtain ⟨rest, hrest⟩ := hqt.trans hq
  obtain ⟨rest', hrest'⟩ := hqt
  obtain ⟨r, hr⟩ := Path.exists_parts (source.parts ++ rest)
  obtain ⟨r', hr'⟩ := Path.exists_parts (source.parts ++ rest')
  rw [h.at_target hrest.symm hr] at hp
  rw [← hrest, ← hrest', List.prefix_append_right_inj] at hq
  rw [← hrest, ← hrest', Ne, List.append_cancel_left_eq] at hne
  have hdir : s.kindOf? r' = some .directory := by
    refine hclosed.above hp ?_ ?_ ?_
    · rwa [hr, hr', List.prefix_append_right_inj]
    · rwa [hr, hr', Ne, List.append_cancel_left_eq]
    · simp [hr', hsource]
  rw [kindOf?_eq_directory_iff, hr'] at hdir
  refine kindOf?_eq_directory_iff.mpr (.inr ?_)
  rw [h.at_target hrest'.symm hr']
  refine hdir.resolve_left fun hroot ↦ ?_
  rcases List.append_eq_singleton_iff.mp hroot with ⟨hnil, -⟩ | ⟨hroot, -⟩
  · exact hsource hnil
  · exact hsourceRoot hroot

/-- The directories above the target are still there: one that is moved would take the target with
it. -/
theorem directory_above (hclosed : s.Closed)
    (hinto : target.startsWith source = true → target ≈ source)
    (hparent : s.requireParent target = .ok ()) (hq : q.parts <+: target.parts)
    (hsame : q.parts ≠ target.parts) (hne : q.parts ≠ []) : s'.kindOf? q = some .directory := by
  have hqt : ¬target.parts <+: q.parts := fun ht ↦
    hsame (hq.eq_of_length (Nat.le_antisymm hq.length_le ht.length_le))
  have hqs : ¬source.parts <+: q.parts := by
    intro hqs
    have hts := Path.equiv_iff.mp (hinto (Path.startsWith_iff.mpr (hqs.trans hq)))
    exact hqt (hts ▸ hqs)
  refine kindOf?_directory_of (fun hdir ↦ ?_) (hclosed.above_parent hparent hq hsame hne)
  rw [h.node?_beside hqt hqs, hdir]

end Moved

/-- **Renaming** keeps a store closed, unless the root is renamed or something is renamed to it. -/
theorem Closed.rename (h : s.Closed) (hproper : s.Proper) (hsource : source.parts ≠ [])
    (hsourceRoot : source.parts ≠ [.root]) (htarget : target.parts ≠ [])
    (htargetRoot : target.parts ≠ [.root]) (hrename : s.rename source target = .ok s') :
    s'.Closed := by
  have hmoved := h.moved_of_rename hproper hsource htarget hrename
  obtain ⟨hinto, hparent, -⟩ := rename_cases hrename
  constructor
  · intro x q n hx hq hsame hne
    by_cases hqt : target.parts <+: q.parts
    · exact hmoved.directory_along h hsource hsourceRoot hx hqt hq hsame
    by_cases hxt : target.parts <+: x.parts
    · have hqx := (List.prefix_or_prefix_of_prefix hq hxt).resolve_right hqt
      exact hmoved.directory_above h hinto hparent hqx (fun heq ↦ hqt (heq ▸ List.prefix_rfl)) hne
    · have hxs := hmoved.not_below_source hx hxt
      rw [hmoved.node?_beside hxt hxs] at hx
      refine kindOf?_directory_of (fun hdir ↦ ?_) (h.above hx hq hsame hne)
      rw [hmoved.node?_beside hqt fun hs ↦ hxs (hs.trans hq), hdir]
  · intro x n hx hroot
    have hxt : ¬target.parts <+: x.parts := by
      rw [hroot]
      intro hprefix
      rcases List.prefix_cons_iff.mp hprefix with hnil | ⟨rest, hrest, hrestNil⟩
      · exact htarget hnil
      · rw [List.prefix_nil.mp hrestNil] at hrest
        exact htargetRoot hrest
    rw [hmoved.node?_beside hxt (hmoved.not_below_source hx hxt)] at hx
    exact h.not_root hx hroot

/-! ### Ordinary paths -/

/-- Every stored path is ordinary. -/
def Ordinary (s : MemoryStore) : Prop := ∀ p n, s.node? p = some n → p.IsOrdinary

theorem wellFormed_and_proper_iff : s.WellFormed ∧ s.Proper ↔ s.Closed ∧ s.Ordinary := by
  rw [wellFormed_iff_closed, proper_iff, and_assoc]
  refine and_congr_right fun _ ↦ ⟨fun h p n hp ↦ ⟨h.1 p n hp, h.2 p n hp⟩, fun h ↦ ?_⟩
  exact ⟨fun p n hp ↦ (h p n hp).isAbsolute, fun p n hp ↦ (h p n hp).isProper⟩

namespace Ordinary

variable (h : s.Ordinary)
include h

theorem insert (hp : p.IsOrdinary) : (s.insert p n).Ordinary := by
  intro q n' hq
  rw [node?_insert] at hq
  split at hq
  · exact hp.congr ‹_›
  · exact h q n' hq

theorem mkdir {recursive : Bool} (hp : p.IsOrdinary) (hmkdir : s.mkdir p recursive = .ok s') :
    s'.Ordinary := by
  rcases mkdir_cases hmkdir with rfl | ⟨-, ⟨rfl, -⟩ | ⟨rfl, -⟩⟩
  · exact h
  · intro q n hq
    rw [s.node?_insertDirs hp.isAbsolute] at hq
    split at hq
    · rename_i hnew
      exact hp.of_prefix hnew.2.1 hnew.2.2.1
    · exact h q n hq
  · exact h.insert hp

theorem write {bytes : ByteArray} (hp : p.IsOrdinary) (hwrite : s.write p bytes = .ok s') :
    s'.Ordinary := by
  obtain ⟨-, -, rfl⟩ := write_cases hwrite
  exact h.insert hp

theorem copyFile (htarget : target.IsOrdinary) (hcopy : s.copyFile source target = .ok s') :
    s'.Ordinary := by
  obtain ⟨bytes, -, hwrite⟩ := copyFile_cases hcopy
  exact h.write htarget hwrite

/-- What is taken away is not there to be looked at. -/
theorem of_removed {gone : Path → Prop} [DecidablePred gone]
    (hview : ∀ q, s'.node? q = if gone q then none else s.node? q) : s'.Ordinary := by
  intro q n hq
  rw [hview] at hq
  split at hq
  · cases hq
  · exact h q n hq

theorem rename (hclosed : s.Closed) (hsource : source.IsOrdinary) (htarget : target.IsOrdinary)
    (hrename : s.rename source target = .ok s') : s'.Ordinary := by
  have hproper := proper_iff.mpr fun p n hp ↦ (h p n hp).isProper
  have hmoved := hclosed.moved_of_rename hproper hsource.parts_ne_nil htarget.parts_ne_nil hrename
  intro q n hq
  rcases hstart : q.startsWith target with - | -
  · rw [hmoved.elsewhere q hstart] at hq
    split at hq
    · cases hq
    · exact h q n hq
  · obtain ⟨rest, hrest⟩ := Path.startsWith_iff.mp hstart
    obtain ⟨r, hr⟩ := Path.exists_parts (source.parts ++ rest)
    rw [hmoved.at_target hrest.symm hr] at hq
    exact htarget.moved (h r n hq) hsource.parts_ne_nil hr hrest.symm

end Ordinary

/-! ### Sessions -/

/-- What a call does to a store; a question does nothing. -/
def update (s : MemoryStore) : Call → Update
  | .mkdir p recursive => s.mkdir p recursive
  | .write p bytes => s.write p bytes
  | .rm p recursive => s.rm p recursive
  | .unlink p => s.unlink p
  | .rename source target => s.rename source target
  | .copyFile source target => s.copyFile source target
  | .exists_ _ | .read _ | .stat _ | .list _ => .ok s

/-- **A call does what its update does**, or it leaves the store as it is. -/
theorem runFrom_answer_cases (s : MemoryStore) (call : Call) :
    (runFrom s (backend.answer call).run).2 = s ∨
      ∃ s', s.update call = .ok s' ∧ runFrom s (backend.answer call).run = (.ok .done, s') := by
  have hchanging : ∀ f : MemoryStore → Update,
      (runFrom s (changing f >>= fun _ ↦ pure Answer.done).run).2 = s ∨
        ∃ s', f s = .ok s' ∧
          runFrom s (changing f >>= fun _ ↦ pure Answer.done).run = (.ok .done, s') := by
    intro f
    rcases hf : f s with e | s'
    · refine .inl ?_
      rw [runFrom_run_bind, runFrom_changing_of_error hf]
    · refine .inr ⟨s', rfl, ?_⟩
      rw [runFrom_run_bind, runFrom_changing_of_ok hf]
      rfl
  have hasking : ∀ {α : Type} (f : MemoryStore → Except StorageError α) (g : α → Answer),
      (runFrom s (asking f >>= fun a ↦ pure (g a)).run).2 = s := by
    intro α f g
    rw [runFrom_run_bind, runFrom_asking]
    rcases f s with e | a <;> rfl
  cases call with
  | exists_ p => exact .inl rfl
  | read p => exact .inl (hasking _ _)
  | stat p => exact .inl (hasking _ _)
  | list p => exact .inl (hasking _ _)
  | mkdir p recursive => exact hchanging _
  | write p bytes => exact hchanging _
  | rm p recursive => exact hchanging _
  | unlink p => exact hchanging _
  | copyFile source target => exact hchanging _
  | rename source target =>
    have hrename := hchanging (·.rename source target)
    rwa [← renameInPlace_eq_changing] at hrename

end MemoryStore

/-- Whether a call puts something in place of the root. -/
def Call.replacesRoot : Call → Bool
  | .rename _ target => target.isRoot
  | _ => false

/-- The call is about ordinary paths, and it puts nothing in place of the root. -/
structure Call.IsOrdinary (call : Call) : Prop where
  paths : ∀ p ∈ call.paths, p.IsOrdinary
  keepsRoot : call.replacesRoot = false

instance (call : Call) : Decidable call.IsOrdinary :=
  decidable_of_iff ((∀ p ∈ call.paths, p.IsOrdinary) ∧ call.replacesRoot = false)
    ⟨fun h ↦ ⟨h.1, h.2⟩, fun h ↦ ⟨h.1, h.2⟩⟩

namespace MemoryStore

variable {s s' : MemoryStore}

/-- **What a call does keeps a tree a tree.** -/
theorem of_update {call : Call} (hcall : call.IsOrdinary) (h : s.Closed ∧ s.Ordinary)
    (hupdate : s.update call = .ok s') : s'.Closed ∧ s'.Ordinary := by
  obtain ⟨hclosed, hordinary⟩ := h
  have hpaths := hcall.paths
  cases call with
  | exists_ p | read p | stat p | list p =>
    obtain rfl := Except.ok.inj hupdate
    exact ⟨hclosed, hordinary⟩
  | mkdir p recursive =>
    exact ⟨hclosed.mkdir hupdate, hordinary.mkdir (hpaths p List.mem_cons_self) hupdate⟩
  | write p bytes =>
    exact ⟨hclosed.write hupdate, hordinary.write (hpaths p List.mem_cons_self) hupdate⟩
  | rm p recursive =>
    have hne := (hpaths p List.mem_cons_self).parts_ne_nil
    exact ⟨hclosed.rm hupdate, hordinary.of_removed (hclosed.node?_rm hne (rm_cases hupdate).2)⟩
  | unlink p =>
    obtain ⟨-, herase⟩ := unlink_cases hupdate
    exact ⟨hclosed.unlink hupdate, herase ▸ hordinary.of_removed (s.node?_erase p)⟩
  | copyFile source target =>
    have htarget : target.IsOrdinary := hpaths target (by simp [Call.paths])
    exact ⟨hclosed.copyFile hupdate, hordinary.copyFile htarget hupdate⟩
  | rename source target =>
    have hsource : source.IsOrdinary := hpaths source (by simp [Call.paths])
    have htarget : target.IsOrdinary := hpaths target (by simp [Call.paths])
    have hroot : target.parts ≠ [.root] := by
      rw [Ne, ← Path.isRoot_iff]
      exact Bool.eq_false_iff.mp hcall.keepsRoot
    -- the root cannot be renamed, because everything is below it
    have hsourceRoot : source.parts ≠ [.root] := by
      intro hsourceRoot
      refine hroot ?_
      rw [← hsourceRoot]
      exact Path.equiv_iff.mp ((rename_cases hupdate).1
        (Path.startsWith_of_isRoot htarget.isAbsolute (Path.isRoot_iff.mpr hsourceRoot)))
    have hproper := proper_iff.mpr fun p n hp ↦ (hordinary p n hp).isProper
    exact ⟨hclosed.rename hproper hsource.parts_ne_nil hsourceRoot htarget.parts_ne_nil hroot
      hupdate, hordinary.rename hclosed hsource htarget hupdate⟩

/-- **A call leaves a tree a tree**, whether it fails or not. -/
theorem runFrom_answer_keeps {call : Call} (hcall : call.IsOrdinary) (h : s.WellFormed ∧ s.Proper) :
    let after := (runFrom s (backend.answer call).run).2
    after.WellFormed ∧ after.Proper := by
  intro after
  rw [wellFormed_and_proper_iff] at h ⊢
  rcases s.runFrom_answer_cases call with hsame | ⟨s', hupdate, hrun⟩
  · rwa [show after = s from hsame]
  · rw [show after = s' from congrArg Prod.snd hrun]
    exact of_update hcall h hupdate

/-- **Sessions keep trees.** Whatever ordinary calls are made of a store that is a tree, and
whichever of them fail, it is a tree in the end. -/
theorem session_keeps_trees {calls : List Call} (hcalls : ∀ call ∈ calls, call.IsOrdinary)
    (h : s.WellFormed ∧ s.Proper) :
    let final := (runFrom s (backend.session calls)).2
    final.WellFormed ∧ final.Proper :=
  runFrom_session_preserves (fun s : MemoryStore ↦ s.WellFormed ∧ s.Proper)
    (fun call hcall _ hs ↦ runFrom_answer_keeps (hcalls call hcall) hs) h

/-- **Calls keep trees, and failed calls leave no trace.** Let every entry of a store lie in the
root or in a stored directory, and let a call be about absolute paths; if it renames, then not to
the root. Then the store behind the call is such a store again, and if the call fails it is the
store in front of it. -/
theorem calls_keep_trees {call : Call} (hcall : call.IsOrdinary) (hwf : s.WellFormed)
    (hproper : s.Proper) :
    let result := runFrom s (backend.answer call).run
    (result.2.WellFormed ∧ result.2.Proper) ∧ ∀ e, result.1 = .error e → result.2 = s := by
  intro result
  refine ⟨runFrom_answer_keeps hcall ⟨hwf, hproper⟩, fun e hfailed ↦ ?_⟩
  rcases s.runFrom_answer_cases call with hsame | ⟨s', -, hrun⟩
  · exact hsame
  · have hdone : result.1 = .ok .done := congrArg Prod.fst hrun
    rw [hdone] at hfailed
    cases hfailed

/-- A directory is moved over the directory that it lies in, and then over a file that is now
missing: the first call leaves a tree, the second one what was there. -/
theorem calls_keep_trees_upwards :
    let store := empty.withFile (.ofText "/a/b/f") ByteArray.empty
    let upwards := Call.rename (.ofText "/a/b") (.ofText "/a")
    let missing := Call.rename (.ofText "/a/c") (.ofText "/a/b/f")
    (upwards.IsOrdinary ∧ missing.IsOrdinary ∧ store.WellFormed ∧ store.Proper) ∧
      ((runFrom store (backend.answer upwards).run).2.WellFormed ∧
        (runFrom store (backend.answer upwards).run).2.entries.map (·.path.text) =
          ["/a", "/a/f"]) ∧
      (runFrom store (backend.answer missing).run).2 = store := by
  intro store upwards missing
  have hupwards : upwards.IsOrdinary := by decide +kernel
  have hmissing : missing.IsOrdinary := by decide +kernel
  have hwf : store.WellFormed := by decide +kernel
  have hproper : store.Proper := by decide +kernel
  have hfails : ∃ e, (runFrom store (backend.answer missing).run).1 = .error e :=
    ⟨.notFound (.ofText "/a/c"), by decide +kernel⟩
  refine ⟨⟨hupwards, hmissing, hwf, hproper⟩, ⟨?_, by decide +kernel⟩, ?_⟩
  · exact (calls_keep_trees hupwards hwf hproper).1.1
  · obtain ⟨e, he⟩ := hfails
    exact (calls_keep_trees hmissing hwf hproper).2 e he

end MemoryStore

end Scaffold
