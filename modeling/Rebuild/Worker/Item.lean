/-
  Work items and their results.

  * an `Item` goes to a worker that was started for its fingerprint;
  * a `WorkResult` is an answer, a `Failure`, or the note that the item was skipped, always
    with the number of its item;
  * a `Dispatch` is an item on its way to a worker, as a filter sees it.
-/
import Rebuild.Text

namespace Rebuild

/-- A piece of work. -/
structure Item where
  id : UInt64
  /-- The configuration of the worker that it needs. -/
  fingerprint : Text
  payload : Text
deriving DecidableEq, Repr

/-- Why an item has no answer. -/
inductive FailureKind
  /-- The worker died or broke the protocol. -/
  | crashed
  /-- There was no answer in time. -/
  | timedOut
  /-- The worker answered with an error. -/
  | reported
  /-- All work was cancelled. -/
  | cancelled
  /-- The item was not accepted. -/
  | rejected
deriving DecidableEq, Repr

namespace FailureKind

/-- The kinds in the order of their numbers. -/
def all : List FailureKind := [crashed, timedOut, reported, cancelled, rejected]

/-- The displayed name of a kind. -/
def name : FailureKind → Text
  | crashed => "crashed"
  | timedOut => "timed out"
  | reported => "reported"
  | cancelled => "cancelled"
  | rejected => "rejected"

end FailureKind

/-- A failure with its message. -/
structure Failure where
  kind : FailureKind
  message : Text
deriving DecidableEq, Repr

/-- What became of an item. -/
inductive WorkOutcome
  | answered (value : Text)
  | failed (failure : Failure)
  | skipped
deriving DecidableEq, Repr

/-- What became of the item with this number. -/
structure WorkResult where
  id : UInt64
  outcome : WorkOutcome
deriving DecidableEq, Repr

namespace WorkResult

/-- The answer of a worker. -/
def answered (id : UInt64) (value : Text) : WorkResult := ⟨id, .answered value⟩

/-- A failure of this kind. -/
def failed (id : UInt64) (kind : FailureKind) (message : Text) : WorkResult :=
  ⟨id, .failed ⟨kind, message⟩⟩

/-- The failure, if there is one. -/
def failure? (r : WorkResult) : Option Failure :=
  match r.outcome with
  | .failed f => some f
  | _ => none

/-- There is no failure. -/
def ok (r : WorkResult) : Bool := r.failure?.isNone

end WorkResult

/-- An item on its way to a worker. -/
structure Dispatch where
  item : Item
  /-- No worker is to get it. -/
  skipped : Bool := false
deriving DecidableEq, Repr

end Rebuild
