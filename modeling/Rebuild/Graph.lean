/-
  The dependency graph: nodes named by texts, edges from a unit to what it depends on.

  * nodes are numbered in the order in which they are first mentioned; `addNode` and
    `addEdge` grow a graph, and `Graph.ofAnalysis` is the graph of the recorded units;
  * every edge is kept from both ends, as a dependency and as a dependent;
  * `Graph.closure` adds to some names all that depends on them, directly or not.
-/
import Rebuild.Analysis

namespace Rebuild

/-- A set of node numbers. -/
abbrev NodeSet := Std.ExtTreeSet Nat

/-- A directed graph over names. -/
structure Graph where
  /-- The name of each node. -/
  names : Array Text
  /-- The number of each name. -/
  numbers : TextMap Nat
  /-- What each node depends on. -/
  dependencies : Array NodeSet
  /-- What depends on each node. -/
  dependents : Array NodeSet

namespace Graph

/-- No node and no edge. -/
def empty : Graph := ⟨#[], ∅, #[], #[]⟩

/-- The number of nodes. -/
def size (g : Graph) : Nat := g.names.size

/-- The name of a node. -/
def nameOf (g : Graph) (v : Nat) : Text := g.names.getD v []

/-- The nodes that `v` depends on. -/
def next (g : Graph) (v : Nat) : NodeSet := g.dependencies.getD v ∅

/-- The nodes that depend on `v`. -/
def back (g : Graph) (v : Nat) : NodeSet := g.dependents.getD v ∅

/-- The number of a name, which becomes a node if it is none yet. -/
def addNode (g : Graph) (name : Text) : Graph × Nat :=
  match g.numbers[name]? with
  | some v => (g, v)
  | none =>
    (⟨g.names.push name, g.numbers.insert name g.size, g.dependencies.push ∅,
      g.dependents.push ∅⟩, g.size)

/-- Makes `source` depend on `target`; both become nodes. -/
def addEdge (g : Graph) (source target : Text) : Graph :=
  let (g, s) := g.addNode source
  let (g, t) := g.addNode target
  { g with
    dependencies := g.dependencies.modify s (·.insert t)
    dependents := g.dependents.modify t (·.insert s) }

/-- The recorded units and their dependencies; a dependency on every unit is no edge. -/
def ofAnalysis (a : Analysis) : Graph :=
  a.units.foldl (fun g name r =>
    r.dependencies.foldl (fun g d => if d = wildcard then g else g.addEdge name d)
      (g.addNode name).1) empty

/-- Whether a name is a node. -/
def contains (g : Graph) (name : Text) : Bool := g.numbers.contains name

/-- The names of some nodes, sorted. -/
def namesOf (g : Graph) (vs : NodeSet) : List Text :=
  (TextSet.ofTexts (vs.toList.map g.nameOf)).toList

/-- What a name depends on, sorted. -/
def dependenciesOf (g : Graph) (name : Text) : List Text :=
  match g.numbers[name]? with
  | some v => g.namesOf (g.next v)
  | none => []

/-- What depends on a name, sorted. -/
def dependentsOf (g : Graph) (name : Text) : List Text :=
  match g.numbers[name]? with
  | some v => g.namesOf (g.back v)
  | none => []

/-! ## Closure -/

/-- Marks what can be reached from the nodes in `work`, which are marked already.
    Each node is worked on once, so as many rounds as there are nodes suffice. -/
def mark (g : Graph) : Nat → Array Bool → List Nat → Array Bool
  | 0, seen, _ => seen
  | _ + 1, seen, [] => seen
  | rounds + 1, seen, v :: work =>
    let fresh := (g.back v).toList.filter fun w => !seen.getD w true
    g.mark rounds (fresh.foldl (fun seen w => seen.setIfInBounds w true) seen) (fresh ++ work)

/-- The marked nodes: those that depend on one of the names, and the names' own. -/
def marked (g : Graph) (seeds : TextSet) : Array Bool :=
  let work := seeds.toList.filterMap (g.numbers[·]?)
  g.mark g.size (work.foldl (fun seen w => seen.setIfInBounds w true)
    (Array.replicate g.size false)) work

/-- The names and all that depends on one of them, directly or through others.  Names
    that are no nodes stay in. -/
def closure (g : Graph) (seeds : TextSet) : TextSet :=
  let seen := g.marked seeds
  seeds.insertMany (((List.range g.size).filter fun v => seen.getD v false).map g.nameOf)

theorem contains_closure (g : Graph) (seeds : TextSet) (name : Text)
    (h : seeds.contains name = true) : (g.closure seeds).contains name = true := by
  simp [closure, Std.ExtTreeSet.contains_insertMany_list, h]

end Graph

end Rebuild
