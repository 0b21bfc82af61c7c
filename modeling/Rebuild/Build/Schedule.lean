/-
  Schedules: the groups of a plan on their way to being compiled.

  Threads take groups and finish them, each of the two under one lock, so a run of a schedule
  is any order of such steps.

      waiting → ready → running → done

  * `Schedule.take?` gives a thread the first ready group, and lets the first waiting group
    go if groups wait for each other;
  * `Schedule.finish` makes the groups ready that waited only for this one, or gives up all
    that need it if it failed.
-/
import Rebuild.Text

namespace Rebuild

/-- How far a group has come. -/
inductive Progress
  /-- It waits for groups that it needs. -/
  | waiting
  | ready
  | running
  /-- It was compiled, or given up. -/
  | done
deriving DecidableEq, Repr

/-- Groups, known by their numbers, on their way. -/
structure Schedule where
  progress : List Progress
  /-- The number of groups that each still waits for. -/
  pending : List Nat
  /-- The groups that need each. -/
  dependents : List (List Nat)
  /-- The ready groups in the order in which they became ready. -/
  ready : List Nat := []
  /-- The number of groups that are done. -/
  done : Nat := 0
  /-- The number of groups that are running. -/
  running : Nat := 0
  /-- The groups that were given up, each with the group because of which. -/
  givenUp : List (Nat × Nat) := []
deriving DecidableEq, Repr

namespace Schedule

/-- The number of groups. -/
def size (s : Schedule) : Nat := s.progress.length

/-- Every group is done. -/
def isOver (s : Schedule) : Bool := s.done == s.size

/-- Lets a group go. -/
def makeReady (s : Schedule) (g : Nat) : Schedule :=
  { s with progress := s.progress.set g .ready, ready := s.ready ++ [g] }

/-- The groups that need group `g`, by what each group needs. -/
def dependentsOf (needs : List (List Nat)) (g : Nat) : List Nat :=
  needs.zipIdx.flatMap fun (ns, i) => (ns.filter (· == g)).map fun _ => i

/-- The schedule of groups by what each of them needs. -/
def start (needs : List (List Nat)) : Schedule :=
  let s : Schedule :=
    { progress := needs.map fun _ => .waiting
      pending := needs.map List.length
      dependents := (List.range needs.length).map (dependentsOf needs) }
  needs.zipIdx.foldl (fun s (ns, g) => if ns.isEmpty then s.makeReady g else s) s

/-! ## Taking a group -/

/-- A thread has something to do, or can see that there is nothing left. -/
def awake (s : Schedule) : Bool := s.isOver || !s.ready.isEmpty || s.running == 0

/-- Lets the first waiting group go. -/
def release (s : Schedule) : Schedule :=
  match s.progress.findIdx? (· == .waiting) with
  | some g => s.makeReady g
  | none => s

/-- The schedule with a group to take, if that is possible. -/
def offer (s : Schedule) : Schedule := if s.ready.isEmpty then s.release else s

/-- A group that a thread takes; nothing as long as it has to wait, or if all is done. -/
def take? (s : Schedule) : Option (Nat × Schedule) :=
  if s.isOver || !s.awake then none
  else
    let s := s.offer
    match s.ready with
    | [] => none
    | g :: rest =>
      some (g, { s with ready := rest, progress := s.progress.set g .running
                        running := s.running + 1 })

/-! ## Finishing a group -/

/-- A group has one fewer to wait for. -/
def satisfy (s : Schedule) (g : Nat) : Schedule :=
  match s.pending[g]? with
  | some (k + 1) =>
    let s := { s with pending := s.pending.set g k }
    if k = 0 ∧ s.progress[g]? = some .waiting then s.makeReady g else s
  | _ => s

/-- A group that is neither running nor done. -/
def isOpen (p : Progress) : Bool := p == .waiting || p == .ready

/-- Gives a group up because of a group that it needs. -/
def giveUp (s : Schedule) (g cause : Nat) : Schedule :=
  { s with progress := s.progress.set g .done, ready := s.ready.erase g, done := s.done + 1
           givenUp := s.givenUp ++ [(g, cause)] }

theorem countP_set_lt {l : List Progress} {g : Nat} {p : Progress} (h : l[g]? = some p)
    (hp : isOpen p = true) : (l.set g .done).countP isOpen < l.countP isOpen := by
  induction l generalizing g with
  | nil => simp at h
  | cons q l ih =>
    cases g with
    | zero =>
      obtain rfl : q = p := by simpa using h
      rw [List.set_cons_zero, List.countP_cons, List.countP_cons, hp]
      simp [isOpen]
    | succ g =>
      have := ih (g := g) (by simpa using h)
      simp only [List.set_cons_succ, List.countP_cons]
      omega

/-- Gives up the groups of a stack, each with the group because of which, and all that need
    them. -/
def cascade (s : Schedule) : List (Nat × Nat) → Schedule
  | [] => s
  | (g, cause) :: rest =>
    match _h : s.progress[g]? with
    | some p =>
      if _hp : isOpen p then
        (s.giveUp g cause).cascade (((s.dependents.getD g []).map (·, g)).reverse ++ rest)
      else s.cascade rest
    | none => s.cascade rest
termination_by stack => (s.progress.countP isOpen, stack.length)
decreasing_by
  · exact Prod.Lex.left _ _ (countP_set_lt _h _hp)
  all_goals exact Prod.Lex.right _ (Nat.lt_succ_self _)

/-- A running group is done. -/
def finish (s : Schedule) (g : Nat) (succeeded : Bool) : Schedule :=
  let s := { s with progress := s.progress.set g .done, done := s.done + 1
                    running := s.running - 1 }
  let needing := s.dependents.getD g []
  if succeeded then needing.foldl satisfy s else s.cascade (needing.map (·, g)).reverse

/-! ## A thread on its own -/

variable {σ : Type}

/-- Takes and finishes groups one after the other: at most as many as there are. -/
def runFrom (compile : σ → Nat → Bool × σ) : Nat → σ → Schedule → σ × Schedule
  | 0, state, s => (state, s)
  | bound + 1, state, s =>
    match s.take? with
    | none => (state, s)
    | some (g, s) =>
      let (succeeded, state) := compile state g
      runFrom compile bound state (s.finish g succeeded)

/-- Takes and finishes groups until there is nothing left to do. -/
def run (compile : σ → Nat → Bool × σ) (state : σ) (s : Schedule) : σ × Schedule :=
  runFrom compile s.size state s

end Schedule

end Rebuild
