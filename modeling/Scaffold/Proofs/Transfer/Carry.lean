import Scaffold.Proofs.Store.Calls

/-!
# Carrying entries from one directory to another

The contents of a directory `source` are carried to a directory `target` one entry after the other,
each to the same place below (`Carry`). When the two overlap an entry may be carried to a place that
is itself still to be carried, so what arrives is not always what was stored.

What arrives can be said without following the store through the run. If entries are carried in the
order of their paths, the bytes that arrive for a file are those that were stored, unless a file met
earlier was carried to its place; then they are those that arrived for that one (`Yields`). This is
`CarriedOver.file_iff`. Kinds never change on the way (`CarriedOver.kindOf?_keeps`), and nothing
appears but what is carried and the directories above it (`CarriedOver.origin`).
-/

namespace Scaffold.Transfer

open MemoryStore

/-- An entry below a directory: the names that lead to it, and its kind. -/
abbrev Entry : Type := List EntryName × EntryKind

/-- One entry is carried over: a directory is created, or a file is copied. -/
inductive Carry (source target : Path) : Entry → MemoryStore → MemoryStore → Prop where
  | directory {names : List EntryName} {s s' : MemoryStore}
    (hgrows : Grows (target.under names) s s')
    (hmade : (target.under names).parts ≠ [] →
      s'.kindOf? (target.under names) = some .directory) :
    Carry source target (names, .directory) s s'
  | file {names : List EntryName} {bytes : ByteArray} {s s₁ s' : MemoryStore}
    (hgrows : Grows (target.under names) s s₁)
    (hread : s₁.node? (source.under names) = some (.file bytes))
    (hfree : s₁.kindOf? (target.under names) ≠ some .directory)
    (hview : ∀ q, s'.node? q = if target.under names ≈ q then some (.file bytes) else s₁.node? q) :
    Carry source target (names, .file) s s'

/-- Entries are carried over one after the other. -/
inductive CarriedOver (source target : Path) (store : MemoryStore) :
    List Entry → MemoryStore → Prop where
  | start : CarriedOver source target store [] store
  | next {done : List Entry} {x : Entry} {s s' : MemoryStore}
    (h : CarriedOver source target store done s) (hcarry : Carry source target x s s') :
    CarriedOver source target store (done ++ [x]) s'

variable {source target q : Path} {store s s' : MemoryStore} {x : Entry} {done : List Entry}

section Calls

variable {σ : Type} {b : Backend (StateM σ)} {view : σ → MemoryStore} {s s₁ s' : σ} {p p' : Path}
  {names : List EntryName}

/-- Making sure of a directory carries it over. -/
theorem carry_of_ensureDir (hb : Serves b view) (hp : p ≈ target.under names)
    (hok : runFrom s (b.ensureDir p).run = (.ok (), s')) :
    Carry source target (names, .directory) (view s) (view s') := by
  obtain ⟨hgrows, hmade⟩ := hb.ensureDir_ok hok
  refine .directory (hgrows.congr hp) fun hne ↦ ?_
  rw [← kindOf?_congr _ hp]
  refine hmade ?_
  rw [← Path.equiv_iff.mp hp] at hne
  simp only [Path.isEmpty, Bool.and_eq_false_imp, List.isEmpty_iff]
  intro hnil
  simp [Path.parts, hnil] at hne

/-- Copying a file carries it over. -/
theorem carry_of_copyFile (hb : Serves b view) (hp' : p' = source.under names)
    (hp : p ≈ target.under names) (hgrows : Grows p (view s) (view s₁))
    (hok : runFrom s₁ (b.copyFile p' p).run = (.ok (), s')) :
    Carry source target (names, .file) (view s) (view s') := by
  obtain ⟨bytes, hread, hfree, hview⟩ := hb.copyFile_ok hok
  rw [hp'] at hread
  rw [kindOf?_congr _ hp] at hfree
  refine .file (hgrows.congr hp) hread hfree fun q ↦ ?_
  rw [hview, node?_insert]
  simp only [Path.equiv_iff, Path.equiv_iff.mp hp]

end Calls

/-- What is carried from one place to another is carried below the directories that they lie in. -/
theorem Carry.below {p p' : Path} {names : List EntryName} {kind : EntryKind}
    (h : Carry p p' ([], kind) s s') (hp : p = source.under names) (hp' : p' ≈ target.under names) :
    Carry source target (names, kind) s s' := by
  have hparts := Path.equiv_iff.mp hp'
  cases h with
  | directory hgrows hmade =>
    refine .directory (Grows.congr hgrows hp') fun hne ↦ ?_
    rw [← kindOf?_congr _ hp']
    exact hmade (by rwa [Path.under_nil, hparts])
  | file hgrows hread hfree hview =>
    rw [Path.under_nil, hp] at hread
    rw [Path.under_nil, kindOf?_congr _ hp'] at hfree
    refine .file (Grows.congr hgrows hp') hread hfree fun q ↦ ?_
    simp only [hview, Path.under_nil, Path.equiv_iff, hparts]

/-! ### Kinds -/

/-- **Kinds are kept** where something is carried. -/
theorem Carry.kindOf?_keeps (h : Carry source target x s s') {kind : EntryKind}
    (hq : s.kindOf? q = some kind) : s'.kindOf? q = some kind := by
  cases h with
  | directory hgrows => exact hgrows.kindOf?_keeps hq
  | file hgrows hread hfree hview =>
    have hq₁ := hgrows.kindOf?_keeps hq
    rename_i names bytes s₁
    by_cases htarget : target.under names ≈ q
    · rw [kindOf?_congr _ htarget] at hfree
      rw [kindOf?_of_node? (isRoot_eq_false hfree) ((hview q).trans (if_pos htarget))]
      rw [hq₁] at hfree
      cases kind
      · rfl
      · exact absurd rfl hfree
    · rcases hroot : q.isRoot with - | -
      · rw [kindOf?_of_not_root hroot] at hq₁ ⊢
        rwa [hview q, if_neg htarget]
      · rw [kindOf?_of_isRoot hroot] at hq₁ ⊢
        exact hq₁

/-- What is carried is there, with its kind. -/
theorem Carry.kindOf?_target (h : Carry source target x s s')
    (hne : (target.under x.1).parts ≠ []) : s'.kindOf? (target.under x.1) = some x.2 := by
  cases h with
  | directory hgrows hmade => exact hmade hne
  | file hgrows hread hfree hview =>
    exact kindOf?_of_node? (isRoot_eq_false hfree) ((hview _).trans (if_pos rfl))

/-- What is there afterwards was there with the same kind, or was carried, or is a directory above
what was carried. -/
theorem Carry.origin (h : Carry source target x s s') {n : StoredNode} (hq : s'.node? q = some n) :
    (∃ n₀, s.node? q = some n₀ ∧ n₀.kind = n.kind) ∨ n.kind = x.2 ∧ target.under x.1 ≈ q ∨
      n = .dir ∧ q.parts <+: (target.under x.1).parts := by
  cases h with
  | directory hgrows =>
    rcases hgrows.adds hq with hold | hnew
    · exact .inl ⟨n, hold, rfl⟩
    · exact .inr (.inr hnew)
  | file hgrows hread hfree hview =>
    rw [hview] at hq
    split at hq
    · rename_i htarget
      obtain rfl := Option.some.inj hq
      exact .inr (.inl ⟨rfl, htarget⟩)
    · rcases hgrows.adds hq with hold | hnew
      · exact .inl ⟨n, hold, rfl⟩
      · exact .inr (.inr hnew)

/-- **Kinds are kept** while entries are carried over. -/
theorem CarriedOver.kindOf?_keeps (h : CarriedOver source target store done s) {kind : EntryKind}
    (hq : store.kindOf? q = some kind) : s.kindOf? q = some kind := by
  induction h with
  | start => exact hq
  | next _ hcarry ih => exact hcarry.kindOf?_keeps ih

theorem CarriedOver.kindOf?_target (h : CarriedOver source target store done s) (hx : x ∈ done)
    (hne : (target.under x.1).parts ≠ []) : s.kindOf? (target.under x.1) = some x.2 := by
  induction h with
  | start => cases hx
  | next _ hcarry ih =>
    rcases List.mem_append.mp hx with hx | hx
    · exact hcarry.kindOf?_keeps (ih hx)
    · obtain rfl := List.mem_singleton.mp hx
      exact hcarry.kindOf?_target hne

/-- **Nothing appears** but what is carried over and the directories above it. -/
theorem CarriedOver.origin (h : CarriedOver source target store done s) {n : StoredNode}
    (hq : s.node? q = some n) :
    (∃ n₀, store.node? q = some n₀ ∧ n₀.kind = n.kind) ∨
      (∃ x ∈ done, n.kind = x.2 ∧ target.under x.1 ≈ q) ∨
      n.kind = .directory ∧ ∃ x ∈ done, q.parts <+: (target.under x.1).parts := by
  induction h generalizing n with
  | start => exact .inl ⟨n, hq, rfl⟩
  | next _ hcarry ih =>
    rename_i done x s s' _
    have hx : x ∈ done ++ [x] := by simp
    rcases hcarry.origin hq with ⟨n₀, hn₀, hkind⟩ | hnew | ⟨rfl, habove⟩
    · rw [← hkind]
      rcases ih hn₀ with hold | ⟨y, hy, hnew⟩ | ⟨hdir, y, hy, habove⟩
      · exact .inl hold
      · exact .inr (.inl ⟨y, List.mem_append_left _ hy, hnew⟩)
      · exact .inr (.inr ⟨hdir, y, List.mem_append_left _ hy, habove⟩)
    · exact .inr (.inl ⟨x, hx, hnew⟩)
    · exact .inr (.inr ⟨rfl, x, hx, habove⟩)

/-! ### Bytes -/

/-- A file that is not carried to keeps its bytes. -/
theorem Carry.file_elsewhere (h : Carry source target x s s')
    (hq : x.2 = .file → ¬target.under x.1 ≈ q) (bytes : ByteArray) :
    s'.node? q = some (.file bytes) ↔ s.node? q = some (.file bytes) := by
  cases h with
  | directory hgrows => exact hgrows.file_iff
  | file hgrows hread hfree hview =>
    rw [hview, if_neg (hq rfl)]
    exact hgrows.file_iff

/-- A file that is carried arrives with the bytes that it has then. -/
theorem Carry.file_target {names : List EntryName} (h : Carry source target (names, .file) s s')
    (bytes : ByteArray) :
    s'.node? (target.under names) = some (.file bytes) ↔
      s.node? (source.under names) = some (.file bytes) := by
  cases h with
  | file hgrows hread hfree hview =>
    rw [hview, if_pos rfl, ← hgrows.file_iff, hread]

/-- A file that is carried was there. -/
theorem Carry.exists_file {names : List EntryName} (h : Carry source target (names, .file) s s') :
    ∃ bytes, s.node? (source.under names) = some (.file bytes) := by
  cases h with
  | file hgrows hread => exact ⟨_, hgrows.file_iff.mp hread⟩

theorem CarriedOver.file_elsewhere (h : CarriedOver source target store done s)
    (hq : ∀ x ∈ done, x.2 = .file → ¬target.under x.1 ≈ q) (bytes : ByteArray) :
    s.node? q = some (.file bytes) ↔ store.node? q = some (.file bytes) := by
  induction h with
  | start => exact Iff.rfl
  | next _ hcarry ih =>
    rw [hcarry.file_elsewhere (hq _ (by simp)), ih fun x hx ↦ hq x (List.mem_append_left _ hx)]

/-- A file that is carried to a place beside the source arrives with its bytes. -/
theorem CarriedOver.file_beside (h : CarriedOver source target store done s)
    (houtside : target.startsWith source = false) (hbeside : source.startsWith target = false)
    {names : List EntryName} (hnames : (names, .file) ∈ done) {bytes : ByteArray}
    (hfile : store.node? (source.under names) = some (.file bytes)) :
    s.node? (target.under names) = some (.file bytes) := by
  induction h with
  | start => cases hnames
  | next h hcarry ih =>
    rename_i done x s s'
    by_cases hx : (names, .file) = x
    · subst hx
      rw [hcarry.file_target, h.file_elsewhere fun x _ _ hplace ↦ ?_]
      · exact hfile
      · have hapart := Path.under_startsWith_of_beside houtside hbeside x.1
        rw [Path.startsWith_of_under hplace] at hapart
        cases hapart
    · rw [hcarry.file_elsewhere]
      · exact ih ((List.mem_append.mp hnames).resolve_right fun hlast ↦
          hx (List.mem_singleton.mp hlast))
      · intro hkind hsame
        exact hx (Prod.ext ((target.under_equiv_iff _ _).mp hsame).symm hkind.symm)

/-- The bytes that arrive for a file, when the entries that are `met` are carried in the order of
their paths. -/
inductive Yields (store : MemoryStore) (source target : Path) (met : Entry → Prop) :
    List EntryName → ByteArray → Prop where
  /-- What was stored, if no file met earlier is carried to its place. -/
  | own {names : List EntryName} {bytes : ByteArray}
    (hstored : store.node? (source.under names) = some (.file bytes))
    (hfirst : ∀ earlier, met (earlier, .file) →
      (source.under earlier).order (source.under names) = .lt →
      ¬target.under earlier ≈ source.under names) :
    Yields store source target met names bytes
  /-- What arrived for a file met earlier that was carried to its place. -/
  | passed {earlier names : List EntryName} {bytes : ByteArray} (hmet : met (earlier, .file))
    (hbefore : (source.under earlier).order (source.under names) = .lt)
    (hplace : target.under earlier ≈ source.under names)
    (h : Yields store source target met earlier bytes) :
    Yields store source target met names bytes

/-- Entries in the order of their paths. -/
def InOrder (source : Path) (entries : List Entry) : Prop :=
  entries.Pairwise fun x y ↦ (source.under x.1).order (source.under y.1) = .lt

/-- **What arrives**, when entries are carried over in the order of their paths. -/
theorem CarriedOver.file_iff {all rest : List Entry} {met : Entry → Prop}
    (h : CarriedOver source target store done s) (hsplit : all = done ++ rest)
    (horder : InOrder source all) (hmet : ∀ x, met x ↔ x ∈ all) {names : List EntryName}
    (hnames : (names, .file) ∈ done) (bytes : ByteArray) :
    s.node? (target.under names) = some (.file bytes) ↔
      Yields store source target met names bytes := by
  induction h generalizing rest names bytes with
  | start => cases hnames
  | next h hcarry ih =>
    rename_i done x s s'
    have hsplit' : all = done ++ x :: rest := by simp [hsplit]
    have hbehind := horder
    rw [hsplit', InOrder, List.pairwise_append, List.pairwise_cons] at hbehind
    obtain ⟨-, ⟨hrest, -⟩, hdone⟩ := hbehind
    rcases List.mem_append.mp hnames with hnames | hnames
    · rw [hcarry.file_elsewhere, ih hsplit' hnames]
      -- no place is carried to twice
      intro _ hsame
      have hlt := hdone _ hnames x List.mem_cons_self
      rw [(target.under_equiv_iff _ _).mp hsame, Path.order_self] at hlt
      cases hlt
    · obtain rfl := List.mem_singleton.mp hnames
      rw [hcarry.file_target]
      -- what is met earlier has been carried already
      have hearlier : ∀ earlier, met (earlier, .file) →
          (source.under earlier).order (source.under names) = .lt → (earlier, .file) ∈ done := by
        intro earlier hearlier hlt
        rw [hmet, hsplit'] at hearlier
        rcases List.mem_append.mp hearlier with hmem | hmem
        · exact hmem
        · rcases List.mem_cons.mp hmem with heq | hmem
          · rw [(Prod.mk.inj heq).1, Path.order_self] at hlt
            cases hlt
          · have hgt := hrest _ hmem
            rw [Path.order_gt_iff.mpr hlt] at hgt
            cases hgt
      by_cases hover : ∃ earlier, (earlier, EntryKind.file) ∈ done ∧
          target.under earlier ≈ source.under names
      · obtain ⟨earlier, hmem, hplace⟩ := hover
        rw [← s.node?_congr hplace, ih hsplit' hmem]
        have hbefore := hdone _ hmem _ List.mem_cons_self
        have hmet' : met (earlier, .file) := (hmet _).mpr (by simp [hsplit', hmem])
        refine ⟨fun hyields ↦ .passed hmet' hbefore hplace hyields, fun hyields ↦ ?_⟩
        cases hyields with
        | own hstored hfirst => exact absurd hplace (hfirst earlier hmet' hbefore)
        | passed hmet'' hbefore' hplace' hyields =>
          have hsame := (target.under_equiv_iff _ _).mp (Eq.trans hplace (Eq.symm hplace'))
          rwa [hsame]
      · rw [h.file_elsewhere fun x hx hfile hplace ↦
          hover ⟨x.1, by rw [← hfile]; exact hx, hplace⟩]
        refine ⟨fun hstored ↦ .own hstored fun earlier hmet' hbefore hplace ↦
          hover ⟨earlier, hearlier earlier hmet' hbefore, hplace⟩, fun hyields ↦ ?_⟩
        cases hyields with
        | own hstored => exact hstored
        | passed hmet' hbefore hplace =>
          exact absurd ⟨_, hearlier _ hmet' hbefore, hplace⟩ hover

end Scaffold.Transfer
