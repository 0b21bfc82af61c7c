/-
  Graphs that are built by adding nodes and edges.

  * `Graph.build`: the graph after any additions in their order, whatever names they bring up
    and however often;
  * `build_spec`: it is well-formed, its nodes are the names that were brought up, and its
    edges are those that were added.
-/
import Mathlib.Data.List.Induction
import Rebuild.Proofs.Graph.Basic

namespace Rebuild

namespace Graph

/-- What is added to a graph. -/
inductive Addition
  | node (name : Text)
  /-- The one name is to depend on the other. -/
  | edge (unit dependency : Text)
deriving DecidableEq, Repr

/-- The names that an addition brings up. -/
def Addition.names : Addition → List Text
  | node name => [name]
  | edge unit dependency => [unit, dependency]

/-- The graph after one more addition. -/
def add (g : Graph) : Addition → Graph
  | .node name => (g.addNode name).1
  | .edge unit dependency => g.addEdge unit dependency

/-- The graph after some additions. -/
def build (additions : List Addition) : Graph := additions.foldl add empty

section
variable {g : Graph} (hg : g.WellFormed) (addition : Addition)
include hg

theorem WellFormed.add : (g.add addition).WellFormed := by
  cases addition with
  | node name => exact hg.addNode name
  | edge unit dependency => exact hg.addEdge unit dependency

theorem edge_add {u d : Text} :
    (g.add addition).Edge u d ↔ addition = .edge u d ∨ g.Edge u d := by
  cases addition with
  | node name =>
    rw [or_iff_right nofun]
    exact edge_addNode hg
  | edge unit dependency =>
    rw [Addition.edge.injEq, eq_comm (a := unit), eq_comm (a := dependency)]
    exact edge_addEdge hg

end

theorem contains_add (g : Graph) (addition : Addition) {m : Text} :
    (g.add addition).contains m = true ↔ m ∈ addition.names ∨ g.contains m = true := by
  cases addition with
  | node name => simp [add, Addition.names]
  | edge unit dependency => simp [add, Addition.names, or_assoc]

/-- **What was built** is well-formed, with the names that were brought up as nodes and the
    edges that were added. -/
theorem build_spec (additions : List Addition) : (build additions).WellFormed ∧
    (∀ m, (build additions).contains m = true ↔ ∃ a ∈ additions, m ∈ a.names) ∧
    ∀ u d, (build additions).Edge u d ↔ .edge u d ∈ additions := by
  induction additions using List.reverseRecOn with
  | nil =>
    refine ⟨empty_wellFormed, fun m => by simp [build, contains, empty], fun u d => ?_⟩
    simp [build, Edge, empty]
  | append_singleton additions a ih =>
    obtain ⟨hwell, hcontains, hedge⟩ := ih
    have hb : build (additions ++ [a]) = (build additions).add a := by
      rw [build, List.foldl_append]
      rfl
    rw [hb]
    refine ⟨hwell.add a, fun m => ?_, fun u d => ?_⟩
    · rw [contains_add, hcontains]
      simp [or_and_right, exists_or, or_comm]
    · rw [edge_add hwell, hedge, List.mem_append, List.mem_singleton, or_comm,
        eq_comm (b := a)]

end Graph

end Rebuild
