import Mathlib.Logic.Relation
import Scaffold.Proofs.Execution.Effects
import Scaffold.Proofs.Execution.Simulation
import Scaffold.Proofs.Store.Session

/-!
# The calls of a run, in their order

A store is traced when every call that is made of it is noted, behind the calls made before, with
whether it succeeded (`Calls.traced`). Nothing is said of the backend: its calls may answer
anything, and any of them may fail at any time. The run does not notice that it is traced
(`runFrom_executePlan_traced`).

A run removes something only when it has been copied. Every removal in its trace is warranted by the
trace in front of it (`removals_are_warranted`): a file has just been copied, a directory has just
been copied as a whole, or the last included operation of a moved directory has just ended and all
of them have succeeded. Nothing is ever renamed.

The trace grows call by call, so the calls that a run may add to it generate a preorder on traces,
and the property is an instance of what the calls of a run keep.
-/

namespace Scaffold

/-! ### Traced stores -/

/-- Whether a call takes something away from where it was. -/
def Call.removes : Call → Bool
  | .rm .. | .unlink .. | .rename .. => true
  | _ => false

/-- A call that was made, and whether it succeeded. A question for existence succeeds when it is
answered with yes. -/
structure Made where
  call : Call
  ok : Bool
deriving DecidableEq

namespace Calls

variable {σ α : Type}

/-- A call that is noted behind the calls made before. -/
def noted (call : Call) (x : Attempt (StateM σ) α) : Attempt (StateM (σ × List Made)) α :=
  fun (s, trace) ↦
    let (result, s) := x s
    (result, s, trace ++ [⟨call, result.isOk⟩])

/-- Calls that are noted. -/
def noting (c : Calls (StateM σ)) : Calls (StateM (σ × List Made)) where
  exists_ p := fun (s, trace) ↦
    let (there, s) := c.exists_ p s
    (there, s, trace ++ [⟨.exists_ p, there⟩])
  mkdir p recursive := noted (.mkdir p recursive) (c.mkdir p recursive)
  write p bytes := noted (.write p bytes) (c.write p bytes)
  read p := noted (.read p) (c.read p)
  stat p := noted (.stat p) (c.stat p)
  list p := noted (.list p) (c.list p)
  rm p recursive := noted (.rm p recursive) (c.rm p recursive)
  unlink p := noted (.unlink p) (c.unlink p)
  rename source target := noted (.rename source target) (c.rename source target)
  copyFile source target := noted (.copyFile source target) (c.copyFile source target)

/-- The store whose calls are noted, those that transfer whole folders among them. -/
def traced (c : Calls (StateM σ)) : Backend (StateM (σ × List Made)) := c.noting.backend

end Calls

namespace Execution

variable {σ : Type}

/-- The calls that the run of a plan makes, in their order. -/
def trace (c : Calls (StateM σ)) (plan : Plan) (s : σ) : List Made :=
  (runFrom (s, []) (executePlan c.traced plan)).2.2

/-- Tracing notes the calls and changes no answer. -/
theorem reproduces_traced (c : Calls (StateM σ)) : ReproducesCalls Prod.fst c.noting c where
  exists_ _ _ := rfl
  mkdir _ _ _ := rfl
  write _ _ _ := rfl
  stat _ _ := rfl
  list _ _ := rfl
  rm _ _ _ := rfl
  unlink _ _ := rfl
  copyFile _ _ _ := rfl

/-- **A traced run is the run**: it reports the same and leaves the same. -/
theorem runFrom_executePlan_traced (c : Calls (StateM σ)) (plan : Plan) (s : σ) :
    let traced := runFrom (s, []) (executePlan c.traced plan)
    runFrom s (executePlan c.backend plan) = (traced.1, traced.2.1) :=
  (reproduces_traced c).executePlan plan (s, [])

/-! ### Warranted removals -/

section Warrants

variable (c : Calls (StateM σ)) (plan : Plan) (s₀ : σ)

/-- The operation at position `i` is the move of `source`. -/
structure MovesFrom (i : Nat) (op : Operation) (source : Path) : Prop where
  found : plan.operations[i]? = some op
  kind_eq : op.kind = .move
  source_eq : op.source = some source

/-- The trace ends right behind the copy of a file, and in the operation that moves it nothing else
has been done. -/
structure BehindFile (i : Nat) (op : Operation) (source : Path) (trace : List Made) : Prop where
  copied : ∃ s, runFrom (runFrom (s₀, []) (runBefore c.traced plan i)).2
    (copyFound c.traced op source).run = (.ok (), s, trace)
  last_call : ∃ earlier, trace = earlier ++ [⟨.copyFile source op.target, true⟩]

/-- The trace ends right behind the copy of a directory as a whole, and in the operation that moves
it nothing else has been done. -/
def BehindFolder (i : Nat) (op : Operation) (source : Path) (trace : List Made) : Prop :=
  ∃ s, runFrom (runFrom (s₀, []) (runBefore c.traced plan i)).2
    (copyFolderFound c.traced op source).run = (.ok (), s, trace)

/-- The trace ends right behind the last included operation of the transfer at position `i`, and the
transfer and all operations up to there are logged as succeeded. -/
def BehindEntries (i : Nat) (trace : List Made) : Prop :=
  ∃ last op, plan.includedEnd? i = some last ∧ plan.operations[last]? = some op ∧
    let before := runFrom (s₀, []) (runBefore c.traced plan last)
    let stepped := runFrom before.2 (step c.traced plan last op before.1)
    trace = stepped.2.2 ∧ ∀ (j : Nat) (o : Operation), i ≤ j → j ≤ last →
      plan.operations[j]? = some o → stepped.1.log[j]? = some (o.logged .succeeded)

/-- What the trace in front of a call must be for the call to be made. -/
def Warranted (trace : List Made) : Call → Prop
  | .rename _ _ => False
  | .unlink source => ∃ i op, MovesFrom plan i op source ∧ BehindFile c plan s₀ i op source trace
  | .rm source _ => ∃ i op, MovesFrom plan i op source ∧
    (BehindFolder c plan s₀ i op source trace ∨ BehindEntries c plan s₀ i trace)
  | _ => True

end Warrants

/-! ### Growing traces -/

section Traces

variable {W : List Made → Call → Prop} {before after traced : List Made} {made : Made}

/-- One more call is noted, one that the trace in front of it warrants. -/
def Notes (W : List Made → Call → Prop) (traced traced' : List Made) : Prop :=
  ∃ made : Made, traced' = traced ++ [made] ∧ W traced made.call

/-- The trace is continued by calls that are all warranted. -/
abbrev Extends (W : List Made → Call → Prop) : List Made → List Made → Prop :=
  Relation.ReflTransGen (Notes W)

/-- **Every call of a trace is warranted** by the trace in front of it. -/
theorem Extends.warranted (h : Extends W [] traced) (hsplit : traced = before ++ made :: after) :
    W before made.call := by
  induction h generalizing after with
  | refl => simp at hsplit
  | tail _ hnotes ih =>
    obtain ⟨last, rfl, hlast⟩ := hnotes
    rcases List.eq_nil_or_concat' after with rfl | ⟨after', last', rfl⟩
    · obtain ⟨rfl, hsame⟩ := List.append_inj' hsplit rfl
      obtain rfl : last = made := by simpa using hsame
      exact hlast
    · rw [← List.cons_append, ← List.append_assoc] at hsplit
      exact ih (List.append_inj' hsplit rfl).1

theorem extends_noted {α : Type} {call : Call} {x : Attempt (StateM σ) α} {s : σ × List Made}
    (h : W s.2 call) : Extends W s.2 (runFrom s (Calls.noted call x).run).2.2 :=
  .single ⟨_, rfl, h⟩

/-- A call that succeeds is noted as such. -/
theorem of_noted {α : Type} {call : Call} {x : Attempt (StateM σ) α} {s s' : σ × List Made} {a : α}
    (h : runFrom s (Calls.noted call x).run = (.ok a, s')) : s'.2 = s.2 ++ [⟨call, true⟩] := by
  have hresult : (x s.1).1 = .ok a := congrArg Prod.fst h
  have hnoted : s.2 ++ [⟨call, (x s.1).1.isOk⟩] = s'.2 := congrArg (Prod.snd ∘ Prod.snd) h
  rw [← hnoted, hresult]
  rfl

/-- What an operation asks, creates and copies only needs to be warranted where it removes nothing.
-/
theorem keeps_extends (c : Calls (StateM σ)) (op : Operation)
    (hW : ∀ traced call, call.removes = false → W traced call) :
    Keeps c.traced Prod.snd (Extends W) op where
  exists_ p _ := .single ⟨⟨.exists_ p, _⟩, rfl, hW _ _ rfl⟩
  byCalls := rfl
  stat _ _ := extends_noted (hW _ _ rfl)
  list _ _ := extends_noted (hW _ _ rfl)
  mkdir _ _ _ := extends_noted (hW _ _ rfl)
  write _ _ _ _ := extends_noted (hW _ _ rfl)
  copyFile _ _ _ _ := extends_noted (hW _ _ rfl)

end Traces

/-! ### Runs -/

section Runs

variable {c : Calls (StateM σ)} {plan : Plan} {s₀ : σ}

/-- The copy of a file ends with the call that copies it. -/
theorem behindFile_of_copied {i : Nat} {op : Operation} {source : Path} {s : σ × List Made}
    (h : runFrom (runFrom (s₀, []) (runBefore c.traced plan i)).2
      (copyFound c.traced op source).run = (.ok (), s)) :
    BehindFile c plan s₀ i op source s.2 := by
  obtain ⟨_, s₁, -, hrest⟩ := run_bind_eq_ok_iff.mp h
  obtain ⟨_, s₂, -, hrest⟩ := run_bind_eq_ok_iff.mp hrest
  obtain ⟨_, s₃, -, hcopy⟩ := run_bind_eq_ok_iff.mp hrest
  exact ⟨⟨s.1, h⟩, s₃.2, of_noted hcopy⟩

/-- **Where a source is removed behind its included operations**, all of them have succeeded. -/
theorem behindEntries_of_removes
    (hsources : ∀ op ∈ plan.operations, op.kind = .included → op.source ≠ none) {i : Nat}
    {p : PendingMove} {s : σ × List Made} (h : Removes c.traced plan (s₀, []) i p s) :
    ∃ k move, MovesFrom plan k move p.source ∧ BehindEntries c plan s₀ k s.2 := by
  obtain ⟨op, hop, rfl, hintact, hs, k, move, hsince⟩ := h.since
  refine ⟨k, move, ⟨hsince.found, hsince.kind_eq, hsince.source_eq⟩, p.last, op, hsince.last_eq,
    hop, congrArg Prod.snd hs, fun j o hkj hj ho ↦ ?_⟩
  rcases Nat.eq_or_lt_of_le hkj with rfl | hkj
  · obtain rfl := Option.some.inj (hsince.found.symm.trans ho)
    exact hsince.succeeded
  · have hkind := (includedEnd?_spec hsince.last_eq).2 j o hkj hj ho
    exact hsince.carried hintact j o hkj (Nat.lt_succ_of_le hj) ho
      (hsources o (List.mem_of_getElem? ho) hkind)

/-- **Copying a folder removes nothing**, however deep it is followed. -/
theorem removes_nothing_of_copyFolderWithin (c : Calls (StateM σ)) (depth : Nat)
    (source target : Path) (s : σ) :
    ∀ made ∈ (runFrom (s, []) (c.noting.copyFolderWithin depth source target).run).2.2,
      made.call.removes = false := by
  have hkeeps := keeps_extends c ⟨.copy, target, some source, true, 0, "", none, none⟩
    (W := fun _ call ↦ call.removes = false) fun _ _ ↦ id
  have hextends : Extends (fun _ call ↦ call.removes = false) []
      (runFrom (s, []) (c.noting.copyFolderWithin depth source target).run).2.2 :=
    hkeeps.copyFolderWithin depth (fun _ hq ↦ .inr ⟨.inl rfl, hq⟩) (s, [])
  intro made hmade
  obtain ⟨before, after, hsplit⟩ := List.append_of_mem hmade
  exact hextends.warranted hsplit

/-- **A run removes only what has been copied.** Let every included operation of a plan have a
source, and let the calls of a store answer what they will. No call of the run renames anything. An
`unlink` is made only of the source of a move, right behind its copy to the target; and an `rm` is
made only of the source of a move, right behind the copy of the whole directory, or right behind the
last of its included operations when the move and all of them are logged as succeeded. A copy of a
directory makes no such call however deep it is followed, so none is made where it does not end. -/
theorem removals_are_warranted (c : Calls (StateM σ)) (plan : Plan)
    (hsources : ∀ op ∈ plan.operations, op.kind = .included → op.source ≠ none) (s₀ : σ) :
    (∀ before made after, trace c plan s₀ = before ++ made :: after →
      Warranted c plan s₀ before made.call) ∧
    ∀ depth source target s,
      ∀ made ∈ (runFrom (s, []) (c.noting.copyFolderWithin depth source target).run).2.2,
        made.call.removes = false := by
  refine ⟨fun before made after htrace ↦ ?_, removes_nothing_of_copyFolderWithin c⟩
  have hharmless : ∀ traced call, call.removes = false → Warranted c plan s₀ traced call := by
    intro traced call hcall
    cases call with
    | rm => cases hcall
    | unlink => cases hcall
    | rename => cases hcall
    | exists_ | mkdir | write | read | stat | list | copyFile => trivial
  have hextends : Extends (Warranted c plan s₀) [] (trace c plan s₀) := by
    refine related_executePlan (s₀, []) (fun op _ ↦ keeps_extends c op hharmless)
      (fun i op hop ↦ ⟨fun source s hmove hsource hcopied ↦ ?_,
        fun source s hmove hsource hcopied ↦ ?_⟩) fun i p s hremoves ↦ ?_
    · exact extends_noted ⟨i, op, ⟨hop, hmove, hsource⟩, behindFile_of_copied hcopied⟩
    · exact extends_noted ⟨i, op, ⟨hop, hmove, hsource⟩, .inl ⟨s.1, hcopied⟩⟩
    · obtain ⟨k, move, hmove, hbehind⟩ := behindEntries_of_removes hsources hremoves
      exact extends_noted ⟨k, move, hmove, .inr hbehind⟩
  exact hextends.warranted htrace

/-- A directory with a file in it is moved: the last call of the run removes the directory, right
behind the included operation for the file. -/
theorem removals_are_warranted_draft : ∃ plan s₀ before, draftPlan = (.ok plan, s₀) ∧
    (∀ op ∈ plan.operations, op.kind = .included → op.source ≠ none) ∧
    trace (MemoryStore.calls.gated Fault.gate) plan s₀ =
      before ++ [⟨.rm (.ofText "/r/src") true, true⟩] ∧
    Warranted (MemoryStore.calls.gated Fault.gate) plan s₀ before
      (.rm (.ofText "/r/src") true) := by
  obtain ⟨plan, s₀, hplan, hsources, htrace⟩ : ∃ plan s₀, draftPlan = (.ok plan, s₀) ∧
      (∀ op ∈ plan.operations, op.kind = .included → op.source ≠ none) ∧
      trace (MemoryStore.calls.gated Fault.gate) plan s₀ =
        (trace (MemoryStore.calls.gated Fault.gate) plan s₀).dropLast ++
          [⟨.rm (.ofText "/r/src") true, true⟩] :=
    exists_runFrom_eq_ok (by decide +kernel)
  exact ⟨plan, s₀, _, hplan, hsources, htrace,
    (removals_are_warranted _ plan hsources s₀).1 _ _ _ htrace⟩

end Runs

end Execution

end Scaffold
