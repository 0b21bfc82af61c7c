/-
  Strongly connected components, a depth-first search with its own stack of frames.

  * `Search` is the state of the search and `Search.step` takes one edge of the node on
    top of the frames or, when it has none left, closes that node;
  * every step takes an edge or a frame away, so a search ends after as many steps as
    the graph has nodes and edges (`Graph.extent`);
  * `Graph.components` lists the components in the order in which they are closed: a
    component that another one depends on comes first.
-/
import Rebuild.Graph

namespace Rebuild

/-- The state of the search. -/
structure Search where
  /-- When each node was entered; none for a node not yet entered. -/
  entered : Array (Option Nat)
  /-- The earliest entry known to be reachable from each node through nodes in `stack`. -/
  low : Array Nat
  /-- Nodes entered whose component is not closed, the latest first. -/
  stack : List Nat
  /-- Membership in `stack`. -/
  onStack : Array Bool
  /-- The way from the root of the search, the last node first, with the edges that
      are still to be taken. -/
  frames : List (Nat × List Nat)
  /-- The components closed so far, the latest first. -/
  closed : List (List Nat)
  /-- The next time of entry. -/
  clock : Nat

namespace Search

/-- No node of `n` is entered. -/
def start (n : Nat) : Search :=
  ⟨Array.replicate n none, Array.replicate n 0, [], Array.replicate n false, [], [], 0⟩

/-- When `v` was entered. -/
def entry (s : Search) (v : Nat) : Option Nat := s.entered.getD v none

/-- The low mark of `v`. -/
def lowOf (s : Search) (v : Nat) : Nat := s.low.getD v 0

/-- Lowers the low mark of `v`. -/
def lower (s : Search) (v bound : Nat) : Search :=
  { s with low := s.low.modify v (min · bound) }

/-- Enters `v` with the edges to `targets`. -/
def enter (s : Search) (v : Nat) (targets : List Nat) : Search :=
  { s with
    entered := s.entered.setIfInBounds v (some s.clock)
    low := s.low.setIfInBounds v s.clock
    stack := v :: s.stack
    onStack := s.onStack.setIfInBounds v true
    frames := (v, targets) :: s.frames
    clock := s.clock + 1 }

/-- Closes the component whose first node is `v`: all that was entered since. -/
def close (s : Search) (v : Nat) : Search :=
  let later := s.stack.takeWhile (· != v)
  let component := v :: later
  { s with
    stack := s.stack.drop component.length
    onStack := component.foldl (fun on w => on.setIfInBounds w false) s.onStack
    closed := component :: s.closed }

/-- Lowers the mark of the node on top of the frames. -/
def lowerTop (s : Search) (bound : Nat) : Search :=
  match s.frames with
  | [] => s
  | (p, _) :: _ => s.lower p bound

/-- One step: take the next edge of the top node, or leave the top node. -/
def step (g : Graph) (s : Search) : Search :=
  match s.frames with
  | [] => s
  | (v, w :: targets) :: frames =>
    let s := { s with frames := (v, targets) :: frames }
    match s.entry w with
    | none => s.enter w (g.next w).toList
    | some time => if s.onStack.getD w false then s.lower v time else s
  | (v, []) :: frames =>
    let low := s.lowOf v
    let s := { s with frames := frames }
    let s := if s.entry v = some low then s.close v else s
    s.lowerTop low

/-- Steps until no frame is left, at most `n`. -/
def run (g : Graph) : Nat → Search → Search
  | 0, s => s
  | n + 1, s => if s.frames.isEmpty then s else run g n (step g s)

/-- Searches from a root unless it was entered before. -/
def visit (g : Graph) (bound : Nat) (s : Search) (root : Nat) : Search :=
  match s.entry root with
  | some _ => s
  | none => run g bound (s.enter root (g.next root).toList)

end Search

namespace Graph

/-- The number of nodes and edges together. -/
def extent (g : Graph) : Nat := g.dependencies.foldl (fun n targets => n + 1 + targets.size) 0

/-- The state after searching from every node, in the order of their names. -/
def search (g : Graph) : Search :=
  let bound := g.extent
  g.numbers.foldl (fun s _ root => s.visit g bound root) (Search.start g.size)

/-- The strongly connected components, each sorted by name; a component comes after all
    those that it depends on. -/
def components (g : Graph) : List (List Text) :=
  g.search.closed.reverse.map fun vs => (TextSet.ofTexts (vs.map g.nameOf)).toList

/-- Some node depends on itself, directly or through others. -/
def hasCycles (g : Graph) : Bool :=
  (List.range g.size).any (fun v => (g.next v).contains v) || g.components.any (·.length > 1)

end Graph

end Rebuild
