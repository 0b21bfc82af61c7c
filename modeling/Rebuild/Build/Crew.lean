/-
  Crews: threads that carry out a schedule together.

  Under the lock a thread looks at the schedule: it takes a group, sleeps until it is told of
  a change, or leaves because all is done.  It compiles without the lock, then takes the lock
  again to finish its group and tell the others.

      awake → compiling → awake → … → left
      awake → asleep → awake

  A run is any order of such steps, with any outcome of each compilation.  Only in this it is
  wider than a lock allows: between finishing a group and looking again, which a thread does
  in one go, others may come in.
-/
import Rebuild.Build.Schedule

namespace Rebuild

/-- What a thread does. -/
inductive Thread
  /-- It looks at the schedule as soon as it has the lock. -/
  | awake
  /-- It waits to be told of a change. -/
  | asleep
  | compiling (group : Nat)
  | left
deriving DecidableEq, Repr

/-- A change was told. -/
def Thread.wake : Thread → Thread
  | .asleep => .awake
  | t => t

/-- What a thread does to the schedule while it has the lock. -/
inductive Move
  | start (group : Nat)
  | finish (group : Nat) (succeeded : Bool)
  | sleep
  | leave
deriving DecidableEq, Repr

/-- Threads with the schedule that they share. -/
structure Crew where
  schedule : Schedule
  threads : List Thread

namespace Crew

/-- So many threads before a schedule of groups, by what each group needs. -/
def start (needs : List (List Nat)) (threads : Nat) : Crew :=
  ⟨.start needs, .replicate threads .awake⟩

/-- One thread goes on. -/
inductive Step : Crew → Move → Crew → Prop
  | start {s s' : Schedule} {ts : List Thread} {i g : Nat} :
      ts[i]? = some .awake → s.take? = some (g, s') →
      Step ⟨s, ts⟩ (.start g) ⟨s', ts.set i (.compiling g)⟩
  | finish {s : Schedule} {ts : List Thread} {i g : Nat} (succeeded : Bool) :
      ts[i]? = some (.compiling g) →
      Step ⟨s, ts⟩ (.finish g succeeded)
        ⟨s.finish g succeeded, (ts.set i .awake).map Thread.wake⟩
  | sleep {s : Schedule} {ts : List Thread} {i : Nat} :
      ts[i]? = some .awake → s.awake = false → Step ⟨s, ts⟩ .sleep ⟨s, ts.set i .asleep⟩
  | leave {s : Schedule} {ts : List Thread} {i : Nat} :
      ts[i]? = some .awake → s.isOver = true → Step ⟨s, ts⟩ .leave ⟨s, ts.set i .left⟩

/-- One thread after the other goes on; the moves in their order. -/
inductive Run (c : Crew) : List Move → Crew → Prop
  | nil : Run c [] c
  | snoc {moves : List Move} {c' c'' : Crew} {m : Move} :
      Run c moves c' → Step c' m c'' → Run c (moves ++ [m]) c''

/-- No thread can go on. -/
def Stuck (c : Crew) : Prop := ∀ m c', ¬ Step c m c'

end Crew

end Rebuild
