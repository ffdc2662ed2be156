import Scaffold.Storage.Backend

/-!
# Calls that fail on schedule

A gate stands in front of the primitive calls of a store and decides, call by call, whether the
call is made or fails without having been made. Its state is kept beside that of the store, so a
gate may count calls or follow a list of faults; what it decides does not depend on the store.
-/

namespace Scaffold

/-- The names of the primitive calls. -/
inductive Method where
  | exists_ | mkdir | write | read | stat | list | rm | unlink | rename | copyFile
deriving DecidableEq, Repr

/-- Decides whether a call on a path fails, and with which cause. -/
abbrev Gate (τ : Type) : Type := Method → Path → StateM τ (Option StorageError)

variable {σ τ : Type}

namespace Calls

/-- Makes a call unless the gate refuses it. -/
def passing {α : Type} (gate : Gate τ) (method : Method) (p : Path)
    (call : Attempt (StateM σ) α) : Attempt (StateM (σ × τ)) α :=
  fun (s, t) ↦
    match gate method p t with
    | (some e, t) => (.error e, s, t)
    | (none, t) =>
      let (result, s) := call s
      (result, s, t)

/-- Calls behind a gate. A question for existence that fails is answered with no. -/
def gated (gate : Gate τ) (c : Calls (StateM σ)) : Calls (StateM (σ × τ)) where
  exists_ p := fun (s, t) ↦
    match gate .exists_ p t with
    | (some _, t) => (false, s, t)
    | (none, t) =>
      let (found, s) := c.exists_ p s
      (found, s, t)
  mkdir p recursive := passing gate .mkdir p (c.mkdir p recursive)
  write p bytes := passing gate .write p (c.write p bytes)
  read p := passing gate .read p (c.read p)
  stat p := passing gate .stat p (c.stat p)
  list p := passing gate .list p (c.list p)
  rm p recursive := passing gate .rm p (c.rm p recursive)
  unlink p := passing gate .unlink p (c.unlink p)
  rename source target := passing gate .rename source (c.rename source target)
  copyFile source target := passing gate .copyFile source (c.copyFile source target)

end Calls

/-- A store behind a gate. It transfers whole folders by calls that pass the gate one by one. -/
def Backend.gated (gate : Gate τ) (b : Backend (StateM σ)) : Backend (StateM (σ × τ)) :=
  (b.toCalls.gated gate).backend

/-! ### Lists of faults -/

/-- The causes with which a call can be made to fail. -/
inductive Cause where
  | notFound | alreadyExists | notADirectory | isADirectory | permissionDenied | failed
deriving DecidableEq, Repr

/-- A cause, blamed on a path. -/
def Cause.at : Cause → Path → StorageError
  | notFound, p => .notFound p
  | alreadyExists, p => .alreadyExists p
  | notADirectory, p => .notADirectory p
  | isADirectory, p => .isADirectory p
  | permissionDenied, p => .permissionDenied p
  | failed, p => .failed p "injected fault"

/-- A fault: some of the calls of one method on one path fail. The first `skip` of them pass, and
then as many fail as `times` says, or all of them. -/
structure Fault where
  method : Method
  path : Path
  cause : Cause
  skip : Nat := 0
  times : Option Nat := none

namespace Fault

/-- Whether a fault is about a call. -/
def concerns (f : Fault) (method : Method) (p : Path) : Bool :=
  f.method == method && decide (f.path ≈ p)

/-- Finds the fault that a call runs into. Every fault on the way that is about the call and has
calls left to skip uses one up, and so does the fault that is found. -/
def strike (method : Method) (p : Path) : List Fault → Option StorageError × List Fault
  | [] => (none, [])
  | f :: fs =>
    if f.concerns method p then
      match f.skip, f.times with
      | skip + 1, _ =>
        let (hit, fs) := strike method p fs
        (hit, { f with skip } :: fs)
      | 0, some 0 =>
        let (hit, fs) := strike method p fs
        (hit, f :: fs)
      | 0, some (left + 1) => (some (f.cause.at p), { f with times := some left } :: fs)
      | 0, none => (some (f.cause.at p), f :: fs)
    else
      let (hit, fs) := strike method p fs
      (hit, f :: fs)

/-- The gate that follows a list of faults. -/
def gate : Gate (List Fault) := fun method p faults ↦ strike method p faults

end Fault

end Scaffold
