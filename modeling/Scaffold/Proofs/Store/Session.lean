import Scaffold.Proofs.Stateful

/-!
# Sessions

A session is a sequence of calls that are made of one backend, each in the state that the one before
has left. A call that fails does not end the session: what it answers is the cause of the failure.

What one call preserves a session preserves (`runFrom_session_preserves`). What is asked of each
call may depend on the state in which it is made (`Backend.Along`).
-/

namespace Scaffold

/-- A call of a backend. -/
inductive Call where
  | exists_ (p : Path)
  | mkdir (p : Path) (recursive : Bool)
  | write (p : Path) (bytes : ByteArray)
  | read (p : Path)
  | stat (p : Path)
  | list (p : Path)
  | rm (p : Path) (recursive : Bool)
  | unlink (p : Path)
  | rename (source target : Path)
  | copyFile (source target : Path)
deriving DecidableEq

/-- The paths that a call is about. -/
def Call.paths : Call → List Path
  | .exists_ p | .mkdir p _ | .write p _ | .read p | .stat p | .list p | .rm p _ | .unlink p => [p]
  | .rename source target | .copyFile source target => [source, target]

/-- What a call answers when it succeeds. -/
inductive Answer where
  | done
  | there (yes : Bool)
  | bytes (found : ByteArray)
  | known (found : Metadata)
  | listing (found : List DirEntry)
deriving DecidableEq

namespace Backend

variable {m : Type → Type} [Monad m] (b : Backend m)

/-- Makes a call. -/
def answer : Call → Attempt m Answer
  | .exists_ p => return .there (← b.exists_ p)
  | .mkdir p recursive => do b.mkdir p recursive; return .done
  | .write p bytes => do b.write p bytes; return .done
  | .read p => return .bytes (← b.read p)
  | .stat p => return .known (← b.stat p)
  | .list p => return .listing (← b.list p)
  | .rm p recursive => do b.rm p recursive; return .done
  | .unlink p => do b.unlink p; return .done
  | .rename source target => do b.rename source target; return .done
  | .copyFile source target => do b.copyFile source target; return .done

/-- Makes calls one after the other. -/
def session : List Call → m (List (Except StorageError Answer))
  | [] => pure []
  | call :: calls => do
    let result ← (b.answer call).run
    return result :: (← session calls)

variable {σ : Type}

/-- Each call of a session is made in a state that meets a condition. -/
def Along (b : Backend (StateM σ)) (P : σ → Call → Prop) : σ → List Call → Prop
  | _, [] => True
  | s, call :: calls => P s call ∧ Along b P (runFrom s (b.answer call).run).2 calls

instance decidableAlong (b : Backend (StateM σ)) (P : σ → Call → Prop)
    [∀ s call, Decidable (P s call)] : ∀ (s : σ) (calls : List Call), Decidable (b.Along P s calls)
  | _, [] => isTrue trivial
  | s, call :: calls =>
    have := decidableAlong b P (runFrom s (b.answer call).run).2 calls
    inferInstanceAs (Decidable (P s call ∧ Along b P (runFrom s (b.answer call).run).2 calls))

end Backend

variable {σ : Type} {b : Backend (StateM σ)} {s : σ} {call : Call} {calls : List Call}

@[simp]
theorem runFrom_session_nil : runFrom s (b.session []) = ([], s) := rfl

@[simp]
theorem runFrom_session_cons : runFrom s (b.session (call :: calls)) =
    ((runFrom s (b.answer call).run).1 ::
        (runFrom (runFrom s (b.answer call).run).2 (b.session calls)).1,
      (runFrom (runFrom s (b.answer call).run).2 (b.session calls)).2) :=
  rfl

/-- **What its calls preserve a session preserves.** -/
theorem runFrom_session_preserves (P : σ → Prop)
    (h : ∀ call ∈ calls, ∀ s, P s → P (runFrom s (b.answer call).run).2) (hs : P s) :
    P (runFrom s (b.session calls)).2 := by
  induction calls generalizing s with
  | nil => exact hs
  | cons call calls ih =>
    obtain ⟨hcall, hcalls⟩ := List.forall_mem_cons.mp h
    exact ih hcalls (hcall s hs)

end Scaffold
