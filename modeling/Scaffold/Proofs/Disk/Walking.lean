import Scaffold.Disk.Model
import Scaffold.Proofs.Store.Directories

/-!
# Walking on

A walk goes on where it has come to: what a call does with a path depends on the directory to which
all but the last hop lead (`Disk.enter`). If they lead to one, the last hop is walked from there
(`walkHops_of_enter`), and if they do not, every call fails in the same way
(`walkHops_of_enter_error`). So a walk along names is described one name at a time (`enter_dir`,
`enter_missing`, `enter_file`, `enter_of_error`).

A path is not walked at all when it holds a NUL or does not fit (`checkPath_of_hasNul`,
`checkPath_eq_ok`). What is above a path is no longer than it, and its names are part of its text.
-/

namespace Scaffold

/-! ### Texts of paths -/

/-- A name has a byte. -/
theorem EntryName.size_pos (name : EntryName) : 0 < name.size := by
  cases name with
  | spelled text valid =>
    refine Nat.pos_of_ne_zero fun hzero ↦ ?_
    obtain rfl := String.utf8ByteSize_eq_zero_iff.mp hzero
    cases valid
  | raw bytes broken valid =>
    refine Nat.pos_of_ne_zero fun hzero ↦ ?_
    obtain rfl : bytes = ByteArray.empty := ByteArray.size_eq_zero_iff.mp hzero
    exact absurd broken (by decide)

theorem Part.size_pos (part : Part) : 0 < part.size := by
  cases part with
  | root => decide
  | here => decide
  | up => decide
  | entry name => exact name.size_pos

namespace Path

variable {p q : Path} {name : EntryName}

/-- A NUL in a path, at which the operating system would take it to end. -/
def HasNul (p : Path) : Prop := '\x00' ∈ p.text.toList

instance (p : Path) : Decidable p.HasNul := inferInstanceAs (Decidable ('\x00' ∈ p.text.toList))

/-- The beginning of a path is the beginning of its text. -/
theorem text_eq_append (p : Path) (k : Nat) :
    ∃ rest, p.text = Path.text ⟨p.pieces.take k, ""⟩ ++ rest := by
  refine ⟨String.join ((p.pieces.drop k).map Piece.text) ++ p.tail, ?_⟩
  have hpieces : p.pieces.map Piece.text =
      (p.pieces.take k).map Piece.text ++ (p.pieces.drop k).map Piece.text := by
    rw [← List.map_append, List.take_append_drop]
  rw [text, text, hpieces, String.join_append, String.append_empty, String.append_assoc]

theorem size_cons (piece : Piece) (pieces : List Piece) (tail : String) :
    Path.size ⟨piece :: pieces, tail⟩ = piece.size + Path.size ⟨pieces, tail⟩ := rfl

theorem size_concat (pieces : List Piece) (piece : Piece) (tail tail' : String) :
    Path.size ⟨pieces ++ [piece], tail'⟩ + tail.utf8ByteSize =
      Path.size ⟨pieces, tail⟩ + piece.size + tail'.utf8ByteSize := by
  induction pieces with
  | nil =>
    rw [List.nil_append, size_cons]
    simp only [size, List.foldr_nil]
    omega
  | cons first pieces ih =>
    rw [List.cons_append, size_cons, size_cons]
    omega

/-- A path has no more parts than bytes. -/
theorem length_parts_le (p : Path) : p.parts.length + p.tail.utf8ByteSize ≤ p.size := by
  obtain ⟨pieces, tail⟩ := p
  rw [parts, List.length_map]
  dsimp only
  induction pieces with
  | nil => exact (Nat.zero_add _).le
  | cons piece pieces ih =>
    have hpart : piece.part.size ≤ piece.size := Nat.le_add_left _ _
    have hpos := piece.part.size_pos
    rw [size_cons, List.length_cons]
    omega

/-- The text of a name is part of the text of a path with that name. -/
theorem mem_text_of_mem_parts {c : Char} (h : .entry name ∈ p.parts)
    (hc : c ∈ name.text.toList) : c ∈ p.text.toList := by
  obtain ⟨piece, hpiece, hpart⟩ := List.mem_map.mp h
  rw [text, String.toList_append, String.toList_join, List.mem_append, List.mem_flatMap]
  refine .inl ⟨piece.text, List.mem_map_of_mem hpiece, ?_⟩
  rw [Piece.text, hpart, String.toList_append, List.mem_append]
  exact .inr hc

/-- A child is spelled like its directory, with a slash and the name behind it. -/
theorem child_eq (hp : p.isEmpty = false) (name : EntryName) :
    ∃ gap, (gap = "" ∨ gap = "/") ∧
      p.child name = ⟨p.pieces ++ [⟨p.tail ++ gap, .entry name⟩], ""⟩ := by
  refine ⟨if p.endsInSlash then "" else "/", by split <;> simp, ?_⟩
  have habsolute : (ofName name).isAbsolute = false := rfl
  rw [child, join, habsolute, hp]
  show p.extend _ [⟨"", .entry name⟩] "" = _
  rw [extend, String.append_empty]

theorem tail_child (hp : p.isEmpty = false) (name : EntryName) : (p.child name).tail = "" := by
  obtain ⟨gap, -, hchild⟩ := child_eq hp name
  rw [hchild]

theorem isEmpty_child (p : Path) (name : EntryName) : (p.child name).isEmpty = false :=
  isEmpty_eq_false (by simp)

theorem text_child (hp : p.isEmpty = false) (name : EntryName) :
    ∃ gap, (gap = "" ∨ gap = "/") ∧ (p.child name).text = p.text ++ (gap ++ name.text) := by
  obtain ⟨gap, hgap, hchild⟩ := child_eq hp name
  refine ⟨gap, hgap, ?_⟩
  rw [hchild, text, text, List.map_append, String.join_append, String.append_empty,
    List.map_singleton, String.join_cons, String.join_nil, String.append_empty, Piece.text,
    String.append_assoc, String.append_assoc]
  rfl

/-- A NUL in a child is one in its directory or in the name. -/
theorem of_hasNul_child (hp : p.isEmpty = false) (h : (p.child name).HasNul) :
    p.HasNul ∨ '\x00' ∈ name.text.toList := by
  obtain ⟨gap, hgap, htext⟩ := text_child hp name
  have hgapNul : '\x00' ∉ gap.toList := by
    rcases hgap with rfl | rfl <;> decide
  rw [HasNul, htext, String.toList_append, String.toList_append, List.mem_append,
    List.mem_append] at h
  exact h.imp_right fun h ↦ h.resolve_left hgapNul

/-- A path that is not empty has a byte. -/
theorem size_pos (hp : p.isEmpty = false) : 0 < p.size := by
  by_contra hzero
  have hlength := p.length_parts_le
  rw [parts, List.length_map] at hlength
  have hparts : p.pieces.length = 0 := by omega
  have hnoTail : p.tail = "" := String.utf8ByteSize_eq_zero_iff.mp (by omega)
  simp [isEmpty, List.length_eq_zero_iff.mp hparts, hnoTail] at hp

/-- The path of a child has the name of the child and at most a slash more. -/
theorem size_child_bounds (hp : p.isEmpty = false) (name : EntryName) :
    p.size + name.size ≤ (p.child name).size ∧
      (p.child name).size ≤ p.size + name.size + 1 := by
  obtain ⟨gap, hgap, hchild⟩ := child_eq hp name
  have hgapSize : gap.utf8ByteSize ≤ 1 := by
    rcases hgap with rfl | rfl <;> decide
  have hpiece : Piece.size ⟨p.tail ++ gap, .entry name⟩ =
      p.tail.utf8ByteSize + gap.utf8ByteSize + name.size := by
    rw [Piece.size, String.utf8ByteSize_append]
    rfl
  have hsize : Path.size ⟨p.pieces ++ [_], ""⟩ + _ = p.size + _ + _ :=
    size_concat p.pieces ⟨p.tail ++ gap, .entry name⟩ p.tail ""
  rw [hpiece, String.utf8ByteSize_empty] at hsize
  rw [hchild]
  omega

/-- A child has a longer path than its directory. -/
theorem size_lt_child (p : Path) (name : EntryName) : p.size < (p.child name).size := by
  by_cases hp : p.isEmpty = false
  · have hname := name.size_pos
    have hbounds := size_child_bounds hp name
    omega
  · simp only [isEmpty, Bool.not_eq_false, Bool.and_eq_true, List.isEmpty_iff,
      String.isEmpty_iff] at hp
    have hzero : p.size = 0 := by simp [size, hp.1, hp.2]
    rw [hzero]
    exact size_pos (p.isEmpty_child name)

end Path

namespace Disk

variable {d : Disk} {loc here : Location} {p : Path} {name : EntryName} {parts more : List Part}
  {e : OsError}

/-! ### Checking paths -/

theorem checkPath_of_hasNul (h : p.HasNul) :
    checkPath p = .error (.refused "file name contained an unexpected NUL byte") := by
  have hnul : p.text.toList.contains '\x00' = true := List.contains_iff_mem.mpr h
  rw [checkPath, if_pos hnul]

theorem checkPath_eq_ok_iff : checkPath p = .ok () ↔
    ¬p.HasNul ∧ p.isEmpty = false ∧ p.size < maxPathBytes := by
  rw [Path.HasNul, ← List.contains_iff_mem, ← Nat.not_le, checkPath]
  split_ifs <;> simp_all

theorem checkPath_eq_ok (hnul : ¬p.HasNul) (hp : p.parts ≠ [])
    (hfits : p.size < maxPathBytes) : checkPath p = .ok () :=
  checkPath_eq_ok_iff.mpr ⟨hnul, Path.isEmpty_eq_false hp, hfits⟩

/-! ### One hop -/

section Hops

variable {follow : Bool} {links : Nat} (hname : name.size ≤ maxNameBytes)
include hname

theorem walk_dir (h : d.node? (here ++ [name]) = some .dir) :
    walk d follow links here (.entry name :: more) = walk d follow links (here ++ [name]) more := by
  rw [walk, if_neg (Nat.not_lt.mpr hname)]
  simp only [h]

theorem walk_missing (h : d.node? (here ++ [name]) = none) :
    walk d follow links here (.entry name :: more) =
      if more = [] then .ok (.missing here name) else .error .noEntry := by
  rw [walk, if_neg (Nat.not_lt.mpr hname)]
  simp only [h, List.isEmpty_iff]

theorem walk_file {bytes : ByteArray} (h : d.node? (here ++ [name]) = some (.file bytes)) :
    walk d follow links here (.entry name :: more) =
      if more = [] then .ok (.found (here ++ [name]) (.file bytes)) else .error .notDirectory := by
  rw [walk, if_neg (Nat.not_lt.mpr hname)]
  simp only [h, List.isEmpty_iff]

theorem walk_link_of_none_left {target : Path} (hmore : more ≠ [])
    (h : d.node? (here ++ [name]) = some (.link target)) :
    walk d follow 0 here (.entry name :: more) = .error .tooManyLinks := by
  have hnotLast : more.isEmpty = false := by simpa using hmore
  rw [walk, if_neg (Nat.not_lt.mpr hname)]
  simp only [h, hnotLast, Bool.false_and, Bool.false_eq_true, if_false]

/-- At a link that is not the last hop its target is walked. -/
theorem walk_link {target : Path} (hmore : more ≠ [])
    (h : d.node? (here ++ [name]) = some (.link target)) :
    walk d follow (links + 1) here (.entry name :: more) =
      if target.isEmpty then .error .noEntry
      else walk d follow links here (hops target ++ more) := by
  have hnotLast : more.isEmpty = false := by simpa using hmore
  rw [walk, if_neg (Nat.not_lt.mpr hname)]
  simp only [h, hnotLast, Bool.false_and, Bool.false_eq_true, if_false]

end Hops

/-- Names that lead from directory to directory are walked to the last one. -/
theorem walk_dirs {follow : Bool} {links : Nat} {names : List EntryName}
    (hshort : ∀ n ∈ names, n.size ≤ maxNameBytes)
    (hdirs : ∀ l, l <+: names → d.node? (here ++ l) = some .dir) :
    walk d follow links here (names.map .entry) = .ok (.found (here ++ names) .dir) := by
  induction names generalizing here with
  | nil => rw [List.map_nil, walk, List.append_nil]
  | cons name names ih =>
    have hbelow : ∀ l, l <+: names → d.node? (here ++ [name] ++ l) = some .dir := by
      intro l hl
      rw [List.append_assoc]
      exact hdirs _ ((List.prefix_cons_inj name).mpr hl)
    have hfirst := hdirs [name] ((List.prefix_cons_inj name).mpr List.nil_prefix)
    rw [List.map_cons, walk_dir (hshort name List.mem_cons_self) hfirst,
      ih (fun n hn ↦ hshort n (List.mem_cons_of_mem _ hn)) hbelow, List.append_assoc]
    rfl

/-! ### Walking on -/

/-- How a walk goes on from where it has come to. -/
theorem walk_append (d : Disk) (links : Nat) (here : Location) (parts : List Part)
    (hmore : more ≠ []) :
    match walk d true links here parts with
    | .ok (.found loc .dir) => ∃ left, ∀ follow,
        walk d follow links here (parts ++ more) = walk d follow left loc more
    | .ok (.found _ _) => ∀ follow, walk d follow links here (parts ++ more) = .error .notDirectory
    | .ok (.missing _ _) => ∀ follow, walk d follow links here (parts ++ more) = .error .noEntry
    | .error e => ∀ follow, walk d follow links here (parts ++ more) = .error e := by
  fun_induction walk d true links here parts
  case case1 => exact ⟨_, fun _ ↦ rfl⟩
  case case2 ih => simpa only [List.cons_append, walk] using ih
  case case3 ih => simpa only [List.cons_append, walk] using ih
  case case4 ih => simpa only [List.cons_append, walk] using ih
  case case5 hlong =>
    intro follow
    rw [List.cons_append, walk, if_pos hlong]
  case case6 hname loc hnone _ =>
    intro follow
    rw [List.cons_append, walk_missing (Nat.not_lt.mp hname) hnone, if_neg (by simp [hmore])]
  case case7 hname loc hnone _ =>
    intro follow
    rw [List.cons_append, walk_missing (Nat.not_lt.mp hname) hnone, if_neg (by simp [hmore])]
  case case8 hname loc hdir ih =>
    simpa only [List.cons_append, walk_dir (Nat.not_lt.mp hname) hdir] using ih
  case case9 hname loc bytes hfile _ =>
    intro follow
    rw [List.cons_append, walk_file (Nat.not_lt.mp hname) hfile, if_neg (by simp [hmore])]
  case case10 hname loc bytes hfile _ =>
    intro follow
    rw [List.cons_append, walk_file (Nat.not_lt.mp hname) hfile, if_neg (by simp [hmore])]
  case case11 hlast => simp at hlast
  case case12 hname loc target hlink _ =>
    intro follow
    rw [List.cons_append, walk_link_of_none_left (Nat.not_lt.mp hname) (by simp [hmore]) hlink]
  case case13 hname loc target hlink _ links hempty =>
    intro follow
    rw [List.cons_append, Nat.succ_eq_add_one,
      walk_link (Nat.not_lt.mp hname) (by simp [hmore]) hlink, if_pos hempty]
  case case14 here name rest hname loc target hlink _ links hempty ih =>
    have hon : ∀ follow, walk d follow (links + 1) here (.entry name :: (rest ++ more)) =
        walk d follow links here (hops target ++ rest ++ more) := by
      intro follow
      rw [walk_link (Nat.not_lt.mp hname) (by simp [hmore]) hlink, if_neg hempty,
        List.append_assoc]
    simpa only [List.cons_append, hon] using ih

/-! ### Entering directories -/

/-- The directory to which hops lead. -/
def enter (d : Disk) (parts : List Part) : Except OsError Location := do
  match ← d.walkHops true parts with
  | .found dir .dir => return dir
  | .found _ _ => throw (.errno .notDirectory)
  | .missing _ _ => throw (.errno .noEntry)

theorem enter_of_walkHops (h : d.walkHops true parts = .ok (.found loc .dir)) :
    d.enter parts = .ok loc := by
  rw [enter, h]
  rfl

/-- **A walk goes on from the directory** to which its first hops lead. -/
theorem walkHops_of_enter (hmore : more ≠ []) (h : d.enter parts = .ok loc) :
    ∃ left, ∀ follow,
      d.walkHops follow (parts ++ more) = (walk d follow left loc more).mapError .errno := by
  have hwalk := walk_append d maxLinks d.current parts hmore
  unfold enter walkHops at h
  rcases hfirst : walk d true maxLinks d.current parts with e | ⟨dir, - | bytes | target⟩ | ⟨dir, n⟩
  all_goals rw [hfirst] at h hwalk
  case ok.found.dir =>
    obtain rfl := Except.ok.inj h
    obtain ⟨left, hleft⟩ := hwalk
    exact ⟨left, fun follow ↦ congrArg (Except.mapError OsError.errno) (hleft follow)⟩
  all_goals cases h

/-- A walk that cannot enter a directory goes no further. -/
theorem walkHops_of_enter_error (hmore : more ≠ []) (h : d.enter parts = .error e)
    (follow : Bool) : d.walkHops follow (parts ++ more) = .error e := by
  have hwalk := walk_append d maxLinks d.current parts hmore
  unfold enter walkHops at h
  rcases hfirst : walk d true maxLinks d.current parts with
    e' | ⟨dir, - | bytes | target⟩ | ⟨dir, n⟩
  all_goals rw [hfirst] at h hwalk
  case ok.found.dir => cases h
  all_goals
    obtain rfl := Except.error.inj h
    exact congrArg (Except.mapError OsError.errno) (hwalk follow)

/-- **Entering one more directory.** -/
theorem enter_dir (hname : name.size ≤ maxNameBytes) (h : d.enter parts = .ok loc)
    (hdir : d.node? (loc ++ [name]) = some .dir) :
    d.enter (parts ++ [.entry name]) = .ok (loc ++ [name]) := by
  obtain ⟨left, hleft⟩ := walkHops_of_enter (List.cons_ne_nil (.entry name) []) h
  rw [enter, hleft, walk_dir hname hdir, walk]
  rfl

theorem enter_missing (hname : name.size ≤ maxNameBytes)
    (h : d.enter parts = .ok loc) (hnone : d.node? (loc ++ [name]) = none) :
    d.enter (parts ++ [.entry name]) = .error (.errno .noEntry) := by
  obtain ⟨left, hleft⟩ := walkHops_of_enter (List.cons_ne_nil (.entry name) []) h
  rw [enter, hleft, walk_missing hname hnone]
  rfl

theorem enter_file {bytes : ByteArray} (hname : name.size ≤ maxNameBytes)
    (h : d.enter parts = .ok loc) (hfile : d.node? (loc ++ [name]) = some (.file bytes)) :
    d.enter (parts ++ [.entry name]) = .error (.errno .notDirectory) := by
  obtain ⟨left, hleft⟩ := walkHops_of_enter (List.cons_ne_nil (.entry name) []) h
  rw [enter, hleft, walk_file hname hfile]
  rfl

theorem enter_of_error (h : d.enter parts = .error e) (part : Part) :
    d.enter (parts ++ [part]) = .error e := by
  rw [enter, walkHops_of_enter_error (by simp) h]
  rfl

/-! ### Calls on paths -/

/-- Calls that create or remove enter the directory in which the last name lies. -/
theorem lastHop_eq (hp : p.parts = parts ++ [.entry name]) (hdot : '.' ∉ p.tail.toList) :
    d.lastHop p = (do
      checkPath p
      let dir ← d.enter parts
      return ⟨dir, .entry name, !p.tail.isEmpty⟩) := by
  have hdot : p.tail.toList.contains '.' = false := by simpa using hdot
  unfold lastHop enter
  rw [hdot, hp]
  rcases checkPath p with e | ⟨⟩
  · rfl
  · simp only [List.dropLast_concat, List.getLast?_concat, Bool.false_eq_true, if_false]
    rcases d.walkHops true parts with e | ⟨dir, - | bytes | target⟩ | ⟨dir, n⟩ <;> rfl

theorem hops_eq (hp : p.parts = parts ++ [.entry name]) :
    hops p = parts ++ .entry name :: if p.tail.isEmpty then [] else [.here] := by
  rw [hops, hp, List.append_assoc]
  rfl

end Disk

end Scaffold
