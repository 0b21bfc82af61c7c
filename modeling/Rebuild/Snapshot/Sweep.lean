/-
  Sweeps: looking at every item of a list with a number of threads.

  The threads share one counter.  A thread in turn takes the next number from the counter
  and looks at the item of that number; it stops when the numbers have gone past the end.

      ready → holding a number → ready → … → stopped

  What is seen of an item has a place of its own, so a thread looks and writes it down in one
  step.

  * `Sweep.step` is one step of one thread, so any order of thread numbers is a run;
  * `Sweep.alone` is a sweep without threads, one item after the other;
  * `Sweep.firstTakesAll` is an order in which all threads come to their end;
  * `Sweep.all` are the results in the order of the items, `Sweep.seen` those in the order of
    looking.
-/
import Rebuild.Text

namespace Rebuild

/-- What a thread of a sweep is about to do. -/
inductive SweepPhase
  /-- To take a number. -/
  | ready
  /-- To look at the item of this number. -/
  | holding (i : Nat)
  /-- Nothing more. -/
  | stopped
deriving DecidableEq, Repr

/-- A sweep under way. -/
structure Sweep (α : Type) where
  /-- The counter; after its last number it begins again. -/
  next : UInt64
  threads : List SweepPhase
  /-- What was seen, by number. -/
  results : List (Option α)
  /-- The numbers that were looked at, the latest first. -/
  looked : List Nat

namespace Sweep

variable {α β : Type}

/-- A sweep that has not begun. -/
def start (threads items : Nat) : Sweep α :=
  ⟨0, List.replicate threads .ready, List.replicate items none, []⟩

/-- Looks at the item of a number and writes down what is seen. -/
def visit (look : β → α) (items : List β) (s : Sweep α) (i : Nat) : Sweep α :=
  { s with
    results := s.results.set i (items[i]?.map look)
    looked := i :: s.looked }

/-- The next step of thread `k`. -/
def step (look : β → α) (items : List β) (s : Sweep α) (k : Nat) : Sweep α :=
  match s.threads[k]? with
  | none | some .stopped => s
  | some .ready =>
    let i := s.next.toNat
    { s with
      next := s.next + 1
      threads := s.threads.set k (if i < items.length then .holding i else .stopped) }
  | some (.holding i) => { s.visit look items i with threads := s.threads.set k .ready }

/-- Steps of threads in this order. -/
def run (look : β → α) (items : List β) (s : Sweep α) (order : List Nat) : Sweep α :=
  order.foldl (step look items) s

/-- All threads have stopped. -/
def isDone (s : Sweep α) : Bool := s.threads.all (· == .stopped)

/-- A sweep without threads: one item after the other. -/
def alone (look : β → α) (items : List β) : Sweep α :=
  (List.range items.length).foldl (visit look items) (start 0 items.length)

/-- A sweep by a number of threads that go on in this order.  For a single one none is
    started. -/
def inOrder (look : β → α) (items : List β) (threads : Nat) (order : List Nat) : Sweep α :=
  if threads ≤ 1 then alone look items else run look items (start threads items.length) order

/-- The first thread goes on until it stops, and has taken all items by then; after that every
    other one finds that none are left. -/
def firstTakesAll (threads items : Nat) : List Nat :=
  List.replicate (2 * items + 1) 0 ++ List.range threads

/-- The results of a sweep, in the order of the items. -/
def all (s : Sweep α) : List α := s.results.filterMap id

/-- The results of a sweep, in the order of looking. -/
def seen (s : Sweep α) : List α := s.looked.reverse.filterMap fun i => s.results[i]?.join

end Sweep

/-- The number of threads that are worth starting for so many items: at least one, and no
    more than there are items, which are counted in 32 bits. -/
def sweepThreads (wanted items : Nat) : Nat := max 1 (min wanted (items % UInt32.size))

end Rebuild
